import FormattedInput.Proofs.InputConservation

namespace FormattedInput

namespace CodeUnit

def littleEndian (unit : CodeUnit .wide) : List Byte :=
  [.ofNat .narrow unit.code, .ofNat .narrow (unit.code / 256)]

theorem ofNat_littleEndian (unit : CodeUnit .wide) :
    CodeUnit.ofNat .wide ((CodeUnit.ofNat .narrow unit.code).code +
      256 * (CodeUnit.ofNat .narrow (unit.code / 256)).code) = unit := by
  have inside : unit.code < 65536 := unit.code_lt
  apply CodeUnit.ext
  simp only [ofNat, Width.bound]
  omega

end CodeUnit

/-- The units that a source still delivers when it is consumed to its end. -/
def UnitSource.delivery {σ : Type} {w : Width} [UnitSource σ w] (source : σ) : Text w :=
  ((⟨source, 0⟩ : Counted σ).takeRun (fun _ => true) none none).units

/-- The ways to open a source over certain units. A reader may answer in any number of
chunks, with interrupted reads between them. -/
inductive Opens : {w : Width} → Text w → (σ : Type) → [UnitSource σ w] → σ → Prop where
  | text {w : Width} (units : Text w) : Opens units (TextSource w) (.ofText units)
  | console {w : Width} (units : Text w) :
    Opens units (ConsoleStream w) (.ofConsole (.ofText units))
  | bytes {script : List ReadEvent} (steady : ∀ event ∈ script, event.IsSteady) :
    Opens (script.flatMap ReadEvent.bytes) ByteStream (.ofReader (.ofScript script))
  | utf16 {script : List ReadEvent} (units : Text .wide) (steady : ∀ event ∈ script, event.IsSteady)
      (spelled : script.flatMap ReadEvent.bytes = units.flatMap CodeUnit.littleEndian) :
    Opens units WideStream (.ofReader .utf16le (.ofScript script))
  | paged {script : List ReadEvent} (page : CodePage) (steady : ∀ event ∈ script, event.IsSteady) :
    Opens ((script.flatMap ReadEvent.bytes).map page.toWide) WideStream
      (.ofReader (.text page) (.ofScript script))

namespace TextSource

theorem ofText_nulFree {w : Width} {units : Text w} (nulFree : ∀ unit ∈ units, unit.code ≠ 0) :
    ofText units = ⟨[], units⟩ := by
  rw [ofText, Text.beforeNul_nulFree nulFree]

end TextSource

namespace WideStream

structure SuppliesPairs (feed : Feed) (coming : Text .wide) : Prop where
  steady : feed.Steady
  bytes : feed.reader.rest = coming.flatMap CodeUnit.littleEndian

theorem decodes_pairs : Decodes .utf16le SuppliesPairs := by
  intro feed coming supplied
  obtain ⟨low, rest, further⟩ := Feed.take_steady supplied.steady
  have bytes := supplied.bytes
  cases coming with
  | nil =>
    rw [bytes] at low rest
    have taken : feed.take = (none, feed.take.2) := Prod.ext low rfl
    rw [decode, taken]
    exact ⟨rfl, further, rest⟩
  | cons unit coming =>
    obtain ⟨high, rest', last⟩ := Feed.take_steady further
    rw [bytes] at low rest
    rw [rest] at high rest'
    have taken : feed.take = (some (CodeUnit.ofNat .narrow unit.code), feed.take.2) :=
      Prod.ext low rfl
    rw [decode, taken]
    refine ⟨?_, last, rest'⟩
    simp only
    rw [high]
    exact congrArg some unit.ofNat_littleEndian

end WideStream

theorem Opens.follows {σ : Type} {w : Width} [UnitSource σ w] {units : Text w} {source : σ}
    (nulFree : ∀ unit ∈ units, unit.code ≠ 0) (opened : Opens units σ source) :
    ∃ same : σ → TextSource w → Prop, Follows same ∧ same source ⟨[], units⟩ := by
  cases opened with
  | text units => exact ⟨_, TextSource.follows [], TextSource.ofText_nulFree nulFree⟩
  | console units =>
    exact ⟨_, ConsoleStream.follows units, units, rfl, rfl, List.suffix_rfl⟩
  | bytes steady =>
    exact ⟨_, ByteStream.follows _, ⟨⟨rfl, steady⟩, rfl, List.suffix_rfl⟩⟩
  | utf16 units steady spelled =>
    exact ⟨_, WideStream.follows_decoded WideStream.decodes_pairs,
      ⟨rfl, units, ⟨⟨rfl, steady⟩, spelled⟩, rfl⟩⟩
  | paged page steady =>
    exact ⟨_, WideStream.follows page _, ⟨⟨rfl, steady⟩, rfl, rfl, List.suffix_rfl⟩⟩

theorem UnitSource.delivery_follows {σ : Type} {w : Width} [UnitSource σ w]
    {same : σ → TextSource w → Prop} (follows : Follows same) {source : σ} {text : TextSource w}
    (related : same source text) : delivery source = text.after := by
  have started : Counted.InStep (Passes same) (.fresh []) ⟨source, 0⟩ ⟨text, 0⟩ :=
    ⟨⟨related, text.before, rfl⟩, rfl, rfl⟩
  have run := started.takeRun follows.lockstep.toMovesAlike (fun _ => true) none none
  rw [delivery, ← run.units, Counted.takeRun_text]
  simp [Counted.rest]

/-- Over any two sources that are opened over the same units, a scan gives the same report
and events and stores the same, and what it did not consume is delivered afterwards. -/
theorem scan_ignores_source {w : Width} {units : Text w}
    (nulFree : ∀ unit ∈ units, unit.code ≠ 0) {σ τ : Type} [UnitSource σ w] [UnitSource τ w]
    {source : σ} {other : τ} (opened : Opens units σ source) (opened' : Opens units τ other)
    (rules : Rules) (format : Text w) (slots : List Slot) :
    let first := scan rules format slots source
    let second := scan rules format slots other
    first.report = second.report ∧ first.slots = second.slots ∧
      UnitSource.delivery first.source = UnitSource.delivery second.source ∧
      UnitSource.delivery first.source = units.drop first.report.consumed := by
  intro first second
  obtain ⟨same, follows, related⟩ := opened.follows nulFree
  obtain ⟨same', follows', related'⟩ := opened'.follows nulFree
  obtain ⟨report, stored, left, remains, after⟩ := scan_follows follows rules format slots related
  obtain ⟨report', stored', left', remains', after'⟩ :=
    scan_follows follows' rules format slots related'
  have delivered : UnitSource.delivery first.source = left.after :=
    UnitSource.delivery_follows follows remains
  have delivered' : UnitSource.delivery second.source = left'.after :=
    UnitSource.delivery_follows follows' remains'
  refine ⟨report.trans report'.symm, stored.trans stored'.symm, ?_, ?_⟩
  · rw [delivered, delivered', after, after']
  · rw [delivered, after, report]

/-- A reader may cut a wide unit between two chunks: over two units whose bytes arrive in
three chunks a scan stores the number that the text in memory spells. -/
theorem cut_unit_scans_alike :
    let units := Text.ofString .wide "7x"
    let script : List ReadEvent := [.chunk [CodeUnit.ofNat .narrow 55], .interrupted,
      .chunk [CodeUnit.ofNat .narrow 0, CodeUnit.ofNat .narrow 120],
      .chunk [CodeUnit.ofNat .narrow 0]]
    let stream : WideStream := .ofReader .utf16le (.ofScript script)
    let done := scan ⟨.plain, .c⟩ (Text.ofString .wide "%d") [.integer ⟨true, .word⟩ 0] stream
    (∀ unit ∈ units, unit.code ≠ 0) ∧ Opens units WideStream stream ∧
      done.slots = [.integer ⟨true, .word⟩ 7] ∧
      UnitSource.delivery done.source = units.drop done.report.consumed := by
  intro units script stream done
  have nulFree : ∀ unit ∈ units, unit.code ≠ 0 := by decide +kernel
  have steady : ∀ event ∈ script, event.IsSteady := by simp [script, ReadEvent.IsSteady]
  have opened : Opens units WideStream stream := .utf16 units steady (by decide +kernel)
  obtain ⟨-, stored, -, remains⟩ := scan_ignores_source nulFree opened (.text units)
    ⟨.plain, .c⟩ (Text.ofString .wide "%d") [.integer ⟨true, .word⟩ 0]
  have number : (scan ⟨.plain, .c⟩ (Text.ofString .wide "%d") [.integer ⟨true, .word⟩ 0]
      (TextSource.ofText units)).slots = [.integer ⟨true, .word⟩ 7] := by decide +kernel
  exact ⟨nulFree, opened, stored.trans number, remains⟩

end FormattedInput
