import FormattedInput.Proofs.Lockstep
import FormattedInput.Source.Text

/-!
A source that delivers what a text holds is read as the text is. The two are kept
together by a relation that looking, consuming and putting back preserve, and no
reader does anything else to a source. A text steps back over whatever unit it is
handed, so the relation relies on the readers to put back the units that they took. -/
namespace FormattedInput

variable {σ : Type} {w : Width} [UnitSource σ w]

/-- What the relation of a source with a text must satisfy. -/
structure Follows (same : σ → TextSource w → Prop) : Prop where
  peek : ∀ {source text}, same source text →
    (UnitSource.peek source).1 = text.after.head? ∧ same (UnitSource.peek source).2 text
  consume : ∀ {source seen text unit}, same source text →
    UnitSource.peek source = (some unit, seen) →
      same (UnitSource.consume seen) text.consume
  putBack : ∀ {source unit before after}, same source ⟨unit :: before, after⟩ →
    same (UnitSource.putBack unit source) ⟨before, unit :: after⟩

/-- What the source keeps of a text is what the text has passed since the scan began. -/
def Passes (same : σ → TextSource w → Prop) (deal : Dealings w) (source : σ)
    (text : TextSource w) : Prop :=
  same source text ∧ ∃ passed, text.before = deal.kept ++ passed

theorem Follows.lockstep {same : σ → TextSource w → Prop} (follows : Follows same) :
    Lockstep (Passes same) where
  peek := by
    rintro deal source text ⟨related, kept⟩
    obtain ⟨shown, further⟩ := follows.peek related
    exact ⟨shown, further, kept⟩
  consume := by
    rintro earlier taken source seen text seen' unit ⟨related, passed, kept⟩ looked looked'
    obtain ⟨shown, rfl⟩ := Prod.mk.inj looked'
    obtain ⟨before, after⟩ := text
    cases after with
    | nil => cases shown
    | cons first after =>
      obtain rfl := Option.some.inj shown
      exact ⟨follows.consume related looked, passed, congrArg (first :: ·) kept⟩
  putBack := by
    rintro earlier taken returned unit source text few ⟨related, passed, kept⟩
    obtain ⟨before, after⟩ := text
    obtain rfl := kept
    exact ⟨follows.putBack related, passed, rfl⟩
  settle := by
    rintro deal source text ⟨related, kept⟩
    exact ⟨related, kept⟩

theorem scan_tracks {same : σ → TextSource w → Prop} (follows : Follows same) (rules : Rules)
    (format : Text w) (slots : List Slot) {source : σ} {text : TextSource w}
    (related : same source text) :
    (scan rules format slots source).report = (scan rules format slots text).report ∧
    (scan rules format slots source).slots = (scan rules format slots text).slots ∧
    same (scan rules format slots source).source (scan rules format slots text).source := by
  obtain ⟨report, stored, -, -, further, -⟩ :=
    scan_lockstep follows.lockstep rules format slots ⟨related, text.before, rfl⟩
  exact ⟨report, stored, further⟩

/-- A text follows what is left of it: a scan never steps back over what was passed
before it began. -/
theorem TextSource.follows (passed : Text w) :
    Follows fun source text : TextSource w => source = ⟨text.before ++ passed, text.after⟩ where
  peek := by
    intro source text same
    subst same
    exact ⟨rfl, rfl⟩
  consume := by
    intro source seen text unit same looked
    obtain ⟨-, rfl⟩ := Prod.mk.inj looked
    obtain ⟨before, after⟩ := text
    subst same
    cases after with
    | nil => rfl
    | cons first after => rfl
  putBack := by
    intro source unit before after same
    subst same
    rfl

end FormattedInput
