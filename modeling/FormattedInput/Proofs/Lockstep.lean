import FormattedInput.Scan.Report

/-!
Two sources read in lockstep. A directive consumes first and then gives back at most two of
the units it consumed, the latest one first; it consumes nothing after that. A relation of two
sources that such dealings keep is kept by a whole scan, which reports and stores the same
over both. With one source on both sides it is an invariant of that source. -/
namespace FormattedInput

/-- What a scan has done to its source so far: the units that earlier directives consumed for
good, the units that this one has consumed and not given back, and how many it gave back. Units
are listed with the latest first. -/
structure Dealings (w : Width) where
  earlier : Text w
  taken : Text w
  returned : Nat

namespace Dealings

variable {w : Width}

def fresh (earlier : Text w) : Dealings w := ⟨earlier, [], 0⟩

def kept (deal : Dealings w) : Text w := deal.taken ++ deal.earlier

end Dealings

variable {σ τ : Type} {w : Width} [UnitSource σ w] [UnitSource τ w]

/-- What a relation of two sources must satisfy for a directive to keep it. -/
structure MovesAlike (same : Dealings w → σ → τ → Prop) : Prop where
  peek : ∀ {deal source other}, same deal source other →
    (UnitSource.peek source).1 = (UnitSource.peek other).1 ∧
      same deal (UnitSource.peek source).2 (UnitSource.peek other).2
  consume : ∀ {earlier taken source seen other seen' unit}, same ⟨earlier, taken, 0⟩ source other →
    UnitSource.peek source = (some unit, seen) → UnitSource.peek other = (some unit, seen') →
      same ⟨earlier, unit :: taken, 0⟩ (UnitSource.consume seen) (UnitSource.consume seen')
  putBack : ∀ {earlier taken returned unit source other}, returned < 2 →
    same ⟨earlier, unit :: taken, returned⟩ source other →
      same ⟨earlier, taken, returned + 1⟩ (UnitSource.putBack unit source)
        (UnitSource.putBack unit other)

/-- What a relation of two sources must satisfy for a scan to keep it. -/
structure Lockstep (same : Dealings w → σ → τ → Prop) : Prop extends MovesAlike same where
  settle : ∀ {deal source other}, same deal source other → same (.fresh deal.kept) source other

def AgreeOn {α β γ : Type} (related : α → β → γ → Prop) (left : α × β) (right : α × γ) : Prop :=
  left.1 = right.1 ∧ related left.1 left.2 right.2

theorem AgreeOn.split {α β γ : Type} {related : α → β → γ → Prop} {left : α × β} {right : α × γ}
    (agree : AgreeOn related left right) :
    ∃ value state other, left = (value, state) ∧ right = (value, other) ∧
      related value state other :=
  ⟨left.1, left.2, right.2, rfl, Prod.ext agree.1.symm rfl, agree.2⟩

variable {same : Dealings w → σ → τ → Prop}

theorem MovesAlike.looks (step : MovesAlike same) {deal : Dealings w} {source seen : σ} {other : τ}
    {shown : Option (CodeUnit w)} (related : same deal source other)
    (looked : UnitSource.peek source = (shown, seen)) :
    ∃ seen', UnitSource.peek other = (shown, seen') ∧ same deal seen seen' := by
  obtain ⟨alike, further⟩ := step.peek related
  rw [looked] at alike further
  exact ⟨_, Prod.ext alike.symm rfl, further⟩

/-- The related sources have been read equally far, and every unit that was kept is counted. -/
structure Counted.InStep (same : Dealings w → σ → τ → Prop) (deal : Dealings w)
    (input : Counted σ) (other : Counted τ) : Prop where
  source : same deal input.source other.source
  consumed : other.consumed = input.consumed
  counted : input.consumed = deal.kept.length

structure Field.InStep (same : Dealings w → σ → τ → Prop) (deal : Dealings w) (field : Field σ)
    (other : Field τ) : Prop where
  input : field.input.InStep same deal other.input
  width : other.width = field.width

structure Run.InStep (same : Dealings w → σ → τ → Prop) (earlier taken : Text w) (run : Run σ w)
    (other : Run τ w) : Prop where
  units : other.units = run.units
  overflows : other.overflows = run.overflows
  width : other.width = run.width
  input : run.input.InStep same ⟨earlier, run.units.reverse ++ taken, 0⟩ other.input

def Counted.Ends (same : Dealings w → σ → τ → Prop) (input : Counted σ) (other : Counted τ) :
    Prop :=
  ∃ deal, input.InStep same deal other

variable {earlier taken : Text w}

namespace Counted.InStep

variable {input : Counted σ} {other : Counted τ} {deal : Dealings w}

theorem peek (step : MovesAlike same) (inStep : input.InStep same deal other) :
    AgreeOn (fun _ => InStep same deal) input.peek other.peek := by
  obtain ⟨shown, related⟩ := step.peek inStep.source
  exact ⟨shown, related, inStep.consumed, inStep.counted⟩

theorem consume (step : MovesAlike same) (inStep : input.InStep same ⟨earlier, taken, 0⟩ other)
    {unit : CodeUnit w} {seen : Counted σ} {seen' : Counted τ}
    (looked : input.peek = (some unit, seen)) (looked' : other.peek = (some unit, seen')) :
    seen.consume.InStep same ⟨earlier, unit :: taken, 0⟩ seen'.consume := by
  obtain ⟨shown, rfl⟩ := Prod.mk.inj looked
  obtain ⟨shown', rfl⟩ := Prod.mk.inj looked'
  exact ⟨step.consume inStep.source (Prod.ext shown rfl) (Prod.ext shown' rfl),
    congrArg (· + 1) inStep.consumed, congrArg (· + 1) inStep.counted⟩

theorem putBack (step : MovesAlike same) {returned : Nat} {unit : CodeUnit w}
    (inStep : input.InStep same ⟨earlier, unit :: taken, returned⟩ other) (few : returned < 2) :
    (input.putBack unit).InStep same ⟨earlier, taken, returned + 1⟩ (other.putBack unit) :=
  ⟨step.putBack few inStep.source, congrArg (· - 1) inStep.consumed,
    congrArg (· - 1) inStep.counted⟩

theorem putBack? (step : MovesAlike same) {returned : Nat} {unit : Option (CodeUnit w)}
    (inStep : input.InStep same ⟨earlier, unit.toList ++ taken, returned⟩ other)
    (few : returned < 2) :
    (input.putBack? unit).InStep same ⟨earlier, taken, returned + unit.toList.length⟩
      (other.putBack? unit) := by
  cases unit with
  | none => exact inStep
  | some unit => exact inStep.putBack step few

theorem unmatched (step : MovesAlike same) (inStep : input.InStep same deal other) :
    AgreeOn (fun _ => InStep same deal) input.unmatched other.unmatched := by
  obtain ⟨shown, seen, seen', looked, looked', related⟩ := (inStep.peek step).split
  rw [Counted.unmatched, Counted.unmatched, looked, looked']
  cases shown with
  | none => exact ⟨congrArg Halt.inputExhausted related.consumed.symm, related⟩
  | some unit => exact ⟨congrArg Halt.mismatch related.consumed.symm, related⟩

theorem fail {α : Type} (step : MovesAlike same) (inStep : input.InStep same deal other) :
    AgreeOn (fun _ => Ends same) (input.fail (α := α)) other.fail := by
  obtain ⟨halt, related⟩ := inStep.unmatched step
  exact ⟨congrArg Except.error halt, deal, related⟩

theorem takeRun (step : MovesAlike same) (inStep : input.InStep same ⟨earlier, taken, 0⟩ other)
    (accept : CodeUnit w → Bool) (room width : Option Nat) :
    (input.takeRun accept room width).InStep same earlier taken
      (other.takeRun accept room width) := by
  fun_induction Counted.takeRun accept room width input generalizing taken other with
  | case1 room input =>
    rw [takeRun_round, if_pos rfl]
    exact ⟨rfl, rfl, rfl, inStep⟩
  | case2 room width input going source looked =>
    obtain ⟨source', looked', further⟩ := step.looks inStep.source looked
    rw [takeRun_round, if_neg going, looked']
    exact ⟨rfl, rfl, rfl, further, inStep.consumed, inStep.counted⟩
  | case3 width input going unit source looked accepted =>
    obtain ⟨source', looked', further⟩ := step.looks inStep.source looked
    rw [takeRun_round, if_neg going, looked']
    simp only [if_pos accepted, if_true]
    exact ⟨rfl, rfl, rfl, further, inStep.consumed, inStep.counted⟩
  | case4 room width input going unit source looked accepted roomy run =>
    rename_i ih
    obtain ⟨source', looked', further⟩ := step.looks inStep.source looked
    rw [takeRun_round, if_neg going, looked']
    simp only [if_pos accepted, if_neg roomy]
    have stepped : InStep same ⟨earlier, unit :: taken, 0⟩
        ⟨UnitSource.consume source, input.consumed + 1⟩
        ⟨UnitSource.consume source', other.consumed + 1⟩ :=
      ⟨step.consume inStep.source looked looked', congrArg (· + 1) inStep.consumed,
        congrArg (· + 1) inStep.counted⟩
    have later := ih stepped
    have whole : (unit :: run.units).reverse ++ taken = run.units.reverse ++ unit :: taken := by
      rw [List.reverse_cons, List.append_assoc, List.singleton_append]
    exact ⟨congrArg (unit :: ·) later.units, later.overflows, later.width, whole ▸ later.input⟩
  | case5 room width input going unit source looked rejected =>
    obtain ⟨source', looked', further⟩ := step.looks inStep.source looked
    rw [takeRun_round, if_neg going, looked']
    simp only [if_neg rejected]
    exact ⟨rfl, rfl, rfl, further, inStep.consumed, inStep.counted⟩

theorem dropSpace (step : MovesAlike same) (inStep : input.InStep same ⟨earlier, taken, 0⟩ other) :
    ∃ behind, input.dropSpace.InStep same ⟨earlier, behind, 0⟩ other.dropSpace :=
  ⟨_, (inStep.takeRun step CodeUnit.isSpace none none).input⟩

end Counted.InStep

/-- What may have been read as a mark before the digits: a marker was read last, and without a
marker and a zero nothing was read. -/
def BaseMark.ReadFrom (mark : BaseMark w) (units : Text w) : Prop :=
  match mark.marker with
  | some marker => ∃ front, units = front ++ [marker]
  | none => mark.zero = false → units = []

namespace Field.InStep

variable {field : Field σ} {other : Field τ}

theorem takeIf (step : MovesAlike same) (inStep : field.InStep same ⟨earlier, taken, 0⟩ other)
    (accept : CodeUnit w → Bool) :
    AgreeOn (fun shown => InStep same ⟨earlier, shown.toList ++ taken, 0⟩) (field.takeIf accept)
      (other.takeIf accept) := by
  obtain ⟨shown, seen, seen', looked, looked', related⟩ := (inStep.input.peek step).split
  rw [Field.takeIf, Field.takeIf, inStep.width, looked, looked']
  split
  · exact ⟨rfl, inStep⟩
  · cases shown with
    | none => exact ⟨rfl, related, rfl⟩
    | some unit =>
      have moved := inStep.input.consume step looked looked'
      simp only
      split
      · exact ⟨rfl, moved, rfl⟩
      · exact ⟨rfl, related, rfl⟩

theorem takeWhile (step : MovesAlike same) (inStep : field.InStep same ⟨earlier, taken, 0⟩ other)
    (accept : CodeUnit w → Bool) :
    AgreeOn (fun units => InStep same ⟨earlier, units.reverse ++ taken, 0⟩)
      (field.takeWhile accept) (other.takeWhile accept) := by
  have run := inStep.input.takeRun step accept none field.width
  unfold Field.takeWhile
  rw [inStep.width]
  exact ⟨run.units.symm, run.input, run.width⟩

theorem takeSign (step : MovesAlike same) (inStep : field.InStep same ⟨earlier, taken, 0⟩ other) :
    AgreeOn (fun sign => InStep same ⟨earlier, sign.toList ++ taken, 0⟩) field.takeSign
      other.takeSign :=
  inStep.takeIf step CodeUnit.isSign

theorem takeMark (step : MovesAlike same) (inStep : field.InStep same ⟨earlier, taken, 0⟩ other)
    (base : IntegerBase) :
    AgreeOn (fun mark field other => ∃ units, mark.ReadFrom units ∧
        InStep same ⟨earlier, units.reverse ++ taken, 0⟩ field other)
      (base.takeMark field) (base.takeMark other) := by
  unfold IntegerBase.takeMark
  split
  · obtain ⟨zero, _, _, took, took', related⟩ :=
      (inStep.takeIf step (fun unit => unit.is '0')).split
    rw [took, took']
    cases zero with
    | none => exact ⟨rfl, [], fun _ => rfl, related⟩
    | some zero =>
      obtain ⟨marker, _, _, found, found', further⟩ :=
        (related.takeIf step (fun unit => unit.is 'x' || unit.is 'X')).split
      simp only [found, found']
      cases marker with
      | none => exact ⟨rfl, [zero], nofun, further⟩
      | some marker => exact ⟨rfl, [zero, marker], ⟨[zero], rfl⟩, further⟩
  · exact ⟨rfl, [], fun _ => rfl, inStep⟩

theorem takeFraction (step : MovesAlike same) (inStep : field.InStep same ⟨earlier, taken, 0⟩ other)
    (point : Nat) :
    AgreeOn (fun fraction =>
        InStep same ⟨earlier, fraction.2.reverse ++ (fraction.1.toList ++ taken), 0⟩)
      (field.takeFraction point) (other.takeFraction point) := by
  obtain ⟨separator, _, _, took, took', related⟩ :=
    (inStep.takeIf step (fun unit => unit.code == point)).split
  rw [Field.takeFraction, Field.takeFraction, took, took']
  cases separator with
  | none => exact ⟨rfl, related⟩
  | some separator =>
    obtain ⟨digits, _, _, read, read', further⟩ :=
      (related.takeWhile step (CodeUnit.isDigit 10)).split
    simp only [read, read']
    exact ⟨rfl, further⟩

theorem takeExponent (step : MovesAlike same)
    (inStep : field.InStep same ⟨earlier, taken, 0⟩ other) :
    AgreeOn (fun _ field other => field.input.Ends same other.input) field.takeExponent
      other.takeExponent := by
  obtain ⟨marker, _, _, took, took', related⟩ :=
    (inStep.takeIf step (fun unit => unit.is 'e' || unit.is 'E')).split
  rw [Field.takeExponent, Field.takeExponent, took, took']
  cases marker with
  | none => exact ⟨rfl, _, related.input⟩
  | some marker =>
    obtain ⟨sign, _, _, signed, signed', further⟩ := (related.takeSign step).split
    obtain ⟨digits, _, _, read, read', last⟩ :=
      (further.takeWhile step (CodeUnit.isDigit 10)).split
    simp only [signed, signed', read, read']
    split
    · rename_i none
      obtain rfl := List.isEmpty_iff.mp none
      -- The sign was taken last and goes back first.
      have unsigned := last.input.putBack? step (by decide)
      have few : 0 + sign.toList.length < 2 := by cases sign <;> simp
      exact ⟨rfl, _, unsigned.putBack step few⟩
    · exact ⟨rfl, _, last.input⟩

end Field.InStep

namespace Counted.InStep

variable {input : Counted σ} {other : Counted τ}

theorem takeInteger (step : MovesAlike same) (inStep : input.InStep same ⟨earlier, taken, 0⟩ other)
    (base : IntegerBase) (width : Option Nat) :
    AgreeOn (fun _ => Ends same) (input.takeInteger base width)
      (other.takeInteger base width) := by
  have started : Field.InStep same ⟨earlier, taken, 0⟩ ⟨input, width⟩ ⟨other, width⟩ :=
    ⟨inStep, rfl⟩
  obtain ⟨sign, _, _, signed, signed', related⟩ := (started.takeSign step).split
  obtain ⟨mark, _, _, marked, marked', units, readFrom, related'⟩ :=
    (related.takeMark step base).split
  obtain ⟨digits, _, _, read, read', last⟩ :=
    (related'.takeWhile step (CodeUnit.isDigit mark.base)).split
  simp only [Counted.takeInteger, signed, signed', marked, marked', read, read']
  split
  · rename_i none
    simp only [Bool.and_eq_true, List.isEmpty_iff, Bool.not_eq_true'] at none
    obtain ⟨rfl, unmarked⟩ := none
    unfold BaseMark.ReadFrom at readFrom
    cases found : mark.marker with
    | none =>
      rw [found] at readFrom
      obtain rfl := readFrom unmarked
      exact (last.input.putBack? step (by decide)).fail step
    | some marker =>
      rw [found] at readFrom
      obtain ⟨front, rfl⟩ := readFrom
      have reached := last.input
      rw [List.reverse_append] at reached
      exact ⟨rfl, _, reached.putBack step (by decide)⟩
  · exact ⟨rfl, _, last.input⟩

theorem takeDecimal (step : MovesAlike same) (inStep : input.InStep same ⟨earlier, taken, 0⟩ other)
    (point : Nat) (width : Option Nat) :
    AgreeOn (fun _ => Ends same) (input.takeDecimal point width)
      (other.takeDecimal point width) := by
  have started : Field.InStep same ⟨earlier, taken, 0⟩ ⟨input, width⟩ ⟨other, width⟩ :=
    ⟨inStep, rfl⟩
  obtain ⟨sign, _, _, signed, signed', related⟩ := (started.takeSign step).split
  obtain ⟨whole, _, _, read, read', further⟩ :=
    (related.takeWhile step (CodeUnit.isDigit 10)).split
  obtain ⟨⟨separator, digits⟩, _, _, pointed, pointed', last⟩ :=
    (further.takeFraction step point).split
  simp only [Counted.takeDecimal, signed, signed', read, read', pointed, pointed']
  split
  · rename_i none
    simp only [Bool.and_eq_true, List.isEmpty_iff] at none
    obtain ⟨rfl, rfl⟩ := none
    have unpointed := last.input.putBack? step (by decide)
    have few : 0 + separator.toList.length < 2 := by cases separator <;> simp
    exact (unpointed.putBack? step few).fail step
  · obtain ⟨exponent, _, _, raised, raised', final⟩ := (last.takeExponent step).split
    simp only [raised, raised']
    exact ⟨rfl, final⟩

theorem takeText (step : MovesAlike same) (inStep : input.InStep same ⟨earlier, taken, 0⟩ other)
    (shape : TextShape) (elements width : Option Nat) :
    AgreeOn (fun _ => Ends same) (input.takeText shape elements width)
      (other.takeText shape elements width) := by
  have leading : ∃ behind, (input.dropLeading shape).InStep same ⟨earlier, behind, 0⟩
      (other.dropLeading shape) := by
    cases shape with
    | word => exact inStep.dropSpace step
    | characters => exact ⟨taken, inStep⟩
    | members set => exact ⟨taken, inStep⟩
  obtain ⟨behind, reached⟩ := leading
  have run := reached.takeRun step shape.accepts (elements.map shape.room) (shape.width width)
  have lacks : shape.lacks ((other.dropLeading shape).takeRun shape.accepts
      (elements.map shape.room) (shape.width width)) =
      shape.lacks ((input.dropLeading shape).takeRun shape.accepts (elements.map shape.room)
        (shape.width width)) := by
    cases shape <;> simp only [TextShape.lacks, run.units, run.width]
  unfold Counted.takeText
  simp only [run.overflows, lacks, run.units]
  split
  · exact ⟨rfl, _, run.input⟩
  · split
    · obtain ⟨halt, stopped⟩ := run.input.unmatched step
      exact ⟨by simp only [halt], _, stopped⟩
    · exact ⟨rfl, _, run.input⟩

theorem takeLiteral (step : MovesAlike same) (inStep : input.InStep same ⟨earlier, taken, 0⟩ other)
    (code : Nat) :
    AgreeOn (fun _ => Ends same) (input.takeLiteral code) (other.takeLiteral code) := by
  obtain ⟨shown, seen, seen', looked, looked', related⟩ := (inStep.peek step).split
  simp only [Counted.takeLiteral, looked, looked']
  split
  · rename_i found
    cases shown with
    | none => simp at found
    | some unit => exact ⟨rfl, _, inStep.consume step looked looked'⟩
  · obtain ⟨halt, stopped⟩ := related.unmatched step
    exact ⟨congrArg some halt, _, stopped⟩

theorem convertInteger (step : MovesAlike same)
    (inStep : input.InStep same ⟨earlier, taken, 0⟩ other) (base : IntegerBase)
    (width : Option Nat) :
    AgreeOn (fun _ => Ends same) (input.convertInteger base width)
      (other.convertInteger base width) := by
  obtain ⟨behind, reached⟩ := inStep.dropSpace step
  obtain ⟨value, _, _, read, read', ended⟩ := (reached.takeInteger step base width).split
  rw [Counted.convertInteger, Counted.convertInteger, read, read']
  cases value with
  | ok value => exact ⟨rfl, ended⟩
  | error halt => exact ⟨rfl, ended⟩

theorem convertFloat (step : MovesAlike same) (inStep : input.InStep same ⟨earlier, taken, 0⟩ other)
    (point : Nat) (width : Option Nat) :
    AgreeOn (fun _ => Ends same) (input.convertFloat point width)
      (other.convertFloat point width) := by
  obtain ⟨behind, reached⟩ := inStep.dropSpace step
  obtain ⟨value, _, _, read, read', ended⟩ := (reached.takeDecimal step point width).split
  rw [Counted.convertFloat, Counted.convertFloat, read, read']
  cases value with
  | ok value => exact ⟨rfl, ended⟩
  | error halt => exact ⟨rfl, ended⟩

theorem convertText (step : MovesAlike same) (inStep : input.InStep same ⟨earlier, taken, 0⟩ other)
    (policy : Policy) (index : Nat) (shape : TextShape) (elements width : Option Nat) :
    AgreeOn (fun _ => Ends same) (input.convertText policy index shape elements width)
      (other.convertText policy index shape elements width) := by
  obtain ⟨⟨units, stop⟩, _, _, read, read', ended⟩ :=
    (inStep.takeText step shape elements width).split
  rw [Counted.convertText, Counted.convertText, read, read']
  cases stop with
  | complete => exact ⟨rfl, ended⟩
  | overflow => exact ⟨rfl, ended⟩
  | failed halt => exact ⟨rfl, ended⟩

theorem convert (step : MovesAlike same) (inStep : input.InStep same ⟨earlier, taken, 0⟩ other)
    (rules : Rules) (index : Nat) (conversion : Conversion) (elements : Option Nat) :
    AgreeOn (fun _ => Ends same) (input.convert rules index conversion elements)
      (other.convert rules index conversion elements) := by
  obtain ⟨suppress, width, length, kind⟩ := conversion
  cases kind with
  | decimal | unsigned | integer | octal | hex | pointer =>
    exact inStep.convertInteger step _ width
  | float => exact inStep.convertFloat step _ width
  | string swapped => exact inStep.convertText step _ index .word elements width
  | chars swapped => exact inStep.convertText step _ index .characters elements width
  | charClass set => exact inStep.convertText step _ index (.members set) elements width
  | count => exact ⟨by simp only [Counted.convert, inStep.consumed], _, inStep⟩
  | percent =>
    obtain ⟨halt, ended⟩ := inStep.takeLiteral step '%'.toNat
    exact ⟨congrArg (Result.mk none) halt, ended⟩

end Counted.InStep

/-- Between two directives, two scans that differ in their sources alone. -/
structure Progress.InStep (same : Dealings w → σ → τ → Prop) (progress : Progress σ)
    (other : Progress τ) : Prop where
  input : ∃ kept, progress.input.InStep same (.fresh kept) other.input
  arguments : other.arguments = progress.arguments
  completed : other.completed = progress.completed
  assigned : other.assigned = progress.assigned
  events : other.events = progress.events

structure Progress.Ends (same : Dealings w → σ → τ → Prop) (progress : Progress σ)
    (other : Progress τ) : Prop where
  input : progress.input.Ends same other.input
  arguments : other.arguments = progress.arguments
  completed : other.completed = progress.completed
  assigned : other.assigned = progress.assigned
  events : other.events = progress.events

theorem Progress.Ends.settled (step : Lockstep same) {progress : Progress σ} {other : Progress τ}
    (ends : progress.Ends same other) : progress.InStep same other := by
  obtain ⟨⟨deal, source, consumed, counted⟩, arguments, completed, assigned, events⟩ := ends
  exact ⟨⟨deal.kept, step.settle source, consumed, counted⟩, arguments, completed, assigned,
    events⟩

namespace Progress.InStep

variable {progress : Progress σ} {other : Progress τ}

theorem convert (step : MovesAlike same) (inStep : progress.InStep same other) (rules : Rules)
    (conversion : Conversion) :
    AgreeOn (fun _ => Progress.Ends same) (progress.convert rules conversion)
      (other.convert rules conversion) := by
  obtain ⟨input, _, _, _, _⟩ := progress
  obtain ⟨input', arguments, completed, assigned, events⟩ := other
  obtain ⟨⟨kept, related⟩, rfl, rfl, rfl, rfl⟩ := inStep
  unfold Progress.convert
  simp only
  split
  · exact ⟨rfl, ⟨_, related⟩, rfl, rfl, rfl, rfl⟩
  · rename_i destination arguments taken
    obtain ⟨result, _, _, read, read', ended⟩ :=
      (related.convert step rules (completed + 1) conversion
        (destination.map Destination.room)).split
    obtain ⟨deal, further⟩ := ended
    simp only [read, read']
    split
    · exact ⟨rfl, ⟨deal, further⟩, rfl, rfl, rfl, rfl⟩
    · exact ⟨rfl, ⟨deal, further⟩, rfl, rfl, rfl,
        by simp only [Progress.record, further.consumed]⟩

theorem execute (step : MovesAlike same) (inStep : progress.InStep same other) (rules : Rules)
    (directive : Directive) :
    AgreeOn (fun _ => Progress.Ends same) (progress.execute rules directive)
      (other.execute rules directive) := by
  obtain ⟨kept, related⟩ := inStep.input
  cases directive with
  | whitespace =>
    obtain ⟨behind, reached⟩ := related.dropSpace step
    exact ⟨rfl, ⟨_, reached⟩, inStep.arguments, inStep.completed, inStep.assigned,
      inStep.events⟩
  | literal code =>
    obtain ⟨halt, ended⟩ := related.takeLiteral step code
    exact ⟨halt, ended, inStep.arguments, inStep.completed, inStep.assigned, inStep.events⟩
  | conversion conversion => exact inStep.convert step rules conversion

theorem run (step : Lockstep same) (inStep : progress.InStep same other) (rules : Rules)
    (directives : List Directive) :
    AgreeOn (fun _ => InStep same) (progress.run rules directives)
      (other.run rules directives) := by
  induction directives generalizing progress other with
  | nil => exact ⟨rfl, inStep⟩
  | cons directive directives ih =>
    obtain ⟨halt, _, _, ran, ran', ends⟩ :=
      (inStep.execute step.toMovesAlike rules directive).split
    have related := ends.settled step
    rw [Progress.run, Progress.run, ran, ran']
    cases halt with
    | none => exact ih related
    | some halt => exact ⟨rfl, related⟩

theorem runFormat (step : Lockstep same) (inStep : progress.InStep same other) (rules : Rules)
    (reading : Format.Reading) :
    AgreeOn (fun _ => InStep same) (progress.runFormat rules reading)
      (other.runFormat rules reading) := by
  obtain ⟨halt, _, _, ran, ran', related⟩ :=
    (inStep.run step rules (reading.steps.map Prod.fst)).split
  rw [Progress.runFormat, Progress.runFormat, ran, ran']
  cases halt with
  | none => exact ⟨rfl, related⟩
  | some halt => exact ⟨rfl, related⟩

end Progress.InStep

/-- Over two sources in lockstep a scan reports and stores the same and leaves them in
lockstep. The units that it kept are those it reports to have consumed. -/
theorem scan_lockstep (step : Lockstep same) (rules : Rules) (format : Text w)
    (slots : List Slot) {source : σ} {other : τ} (related : same (.fresh []) source other) :
    let done := scan rules format slots source
    let done' := scan rules format slots other
    done.report = done'.report ∧ done.slots = done'.slots ∧
      ∃ kept : Text w, kept.length = done.report.consumed ∧
        same (.fresh kept) done.source done'.source := by
  have started : (Progress.start w rules slots source).InStep same
      (Progress.start w rules slots other) :=
    ⟨⟨[], related, rfl, rfl⟩, rfl, rfl, rfl, rfl⟩
  obtain ⟨halt, _, _, ran, ran', last⟩ :=
    (started.runFormat step rules (Format.read format)).split
  obtain ⟨kept, reached⟩ := last.input
  simp only [scan, ran, ran']
  refine ⟨?_, by rw [last.arguments], kept, reached.counted.symm, reached.source⟩
  simp only [last.assigned, reached.consumed, last.events]

structure KeptWithin (holds : Dealings w → σ → Prop) : Prop where
  peek : ∀ {deal source}, holds deal source → holds deal (UnitSource.peek source).2
  consume : ∀ {earlier taken source seen unit}, holds ⟨earlier, taken, 0⟩ source →
    UnitSource.peek source = (some unit, seen) →
      holds ⟨earlier, unit :: taken, 0⟩ (UnitSource.consume seen)
  putBack : ∀ {earlier taken returned unit source}, returned < 2 →
    holds ⟨earlier, unit :: taken, returned⟩ source →
      holds ⟨earlier, taken, returned + 1⟩ (UnitSource.putBack unit source)

structure Keeps (holds : Dealings w → σ → Prop) : Prop extends KeptWithin holds where
  settle : ∀ {deal source}, holds deal source → holds (.fresh deal.kept) source

theorem KeptWithin.movesAlike {holds : Dealings w → σ → Prop} (kept : KeptWithin holds) :
    MovesAlike fun deal (source other : σ) => other = source ∧ holds deal source where
  peek := by
    rintro deal source _ ⟨rfl, held⟩
    exact ⟨rfl, rfl, kept.peek held⟩
  consume := by
    rintro earlier taken source seen _ seen' unit ⟨rfl, held⟩ looked looked'
    exact ⟨congrArg UnitSource.consume (Prod.mk.inj (looked'.symm.trans looked)).2,
      kept.consume held looked⟩
  putBack := by
    rintro earlier taken returned unit source _ few ⟨rfl, held⟩
    exact ⟨rfl, kept.putBack few held⟩

theorem Keeps.lockstep {holds : Dealings w → σ → Prop} (keeps : Keeps holds) :
    Lockstep fun deal (source other : σ) => other = source ∧ holds deal source where
  toMovesAlike := keeps.movesAlike
  settle := by
    rintro deal source _ ⟨rfl, held⟩
    exact ⟨rfl, keeps.settle held⟩

theorem scan_keeps {holds : Dealings w → σ → Prop} (keeps : Keeps holds) (rules : Rules)
    (format : Text w) (slots : List Slot) {source : σ} (held : holds (.fresh []) source) :
    let done := scan rules format slots source
    ∃ kept : Text w, kept.length = done.report.consumed ∧ holds (.fresh kept) done.source := by
  obtain ⟨-, -, kept, counted, -, further⟩ :=
    scan_lockstep keeps.lockstep rules format slots ⟨rfl, held⟩
  exact ⟨kept, counted, further⟩

structure Task (w : Width) where
  rules : Rules
  format : Text w
  slots : List Slot

namespace Task

def scan (task : Task w) (source : σ) : Scan σ :=
  FormattedInput.scan task.rules task.format task.slots source

def scanAll (tasks : List (Task w)) (input : Counted σ) : Counted σ :=
  tasks.foldl (fun input task =>
    let done := task.scan input.source
    ⟨done.source, input.consumed + done.report.consumed⟩) input

end Task

end FormattedInput
