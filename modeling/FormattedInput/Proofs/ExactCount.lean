import FormattedInput.Proofs.Recording
import FormattedInput.Proofs.Simulation
import FormattedInput.Proofs.Takings
import FormattedInput.Proofs.TextScan
import Mathlib.Data.List.Infix

/-!
The count of a scan is exact. A source that records every use a scan makes of it, and
counts as the scan does, is scanned like the text it records. At each use the count is the
distance from where the scan began, and only the unit just passed is put back, so neither
the count nor the place is ever cut off at zero. -/
namespace FormattedInput

variable {w : Width}

structure Counted.Exact (start : TextSource w) (input : Counted (TextSource w)) : Prop where
  source : input.source = start.forward input.consumed
  position : input.source.position = start.position + input.consumed

/-- A use that a text serves as it is meant: the unit put back is the one just before the
place, and it has been counted. -/
def Use.IsExact (input : Counted (TextSource w)) : Use w → Prop
  | look => True
  | consume => input.source.after ≠ []
  | putBack unit => input.source.before.head? = some unit ∧ 0 < input.consumed

namespace Recorded

/-- The recorded source has been read as far as a text that began where the scan did, and
all that was recorded on the way is exact. -/
structure Exact (start : TextSource w) (recorded : Recorded (TextSource w) w)
    (text : TextSource w) : Prop where
  source : recorded.input.source = ⟨text.before ++ start.before, text.after⟩
  consumed : recorded.input.consumed = text.before.length
  whole : text.before.reverse ++ text.after = start.after
  record : ∀ entry ∈ recorded.record, entry.1.Exact start ∧ entry.2.IsExact entry.1

variable {start text : TextSource w} {recorded : Recorded (TextSource w) w}

theorem exact_ofSource (start : TextSource w) :
    Exact start (ofSource w start) ⟨[], start.after⟩ where
  source := rfl
  consumed := rfl
  whole := rfl
  record := nofun

theorem Exact.input (exact_ : Exact start recorded text) : recorded.input.Exact start := by
  have passed : start.after.take recorded.input.consumed = text.before.reverse := by
    rw [exact_.consumed, ← exact_.whole, ← List.length_reverse, List.take_left]
  have left : start.after.drop recorded.input.consumed = text.after := by
    rw [exact_.consumed, ← exact_.whole, ← List.length_reverse, List.drop_left]
  constructor
  · rw [exact_.source, TextSource.forward, passed, left, List.reverse_reverse]
  · rw [exact_.source, exact_.consumed]
    simp only [TextSource.position, List.length_append]
    omega

theorem Exact.note {further : TextSource w} {after : Counted (TextSource w)} {use : Use w}
    (exact_ : Exact start recorded text) (served : use.IsExact recorded.input)
    (source : after.source = ⟨further.before ++ start.before, further.after⟩)
    (consumed : after.consumed = further.before.length)
    (whole : further.before.reverse ++ further.after = start.after) :
    Exact start (recorded.note use after) further where
  source := source
  consumed := consumed
  whole := whole
  record := by
    intro entry member
    rcases List.mem_append.mp member with earlier | last
    · exact exact_.record entry earlier
    · obtain rfl := List.mem_singleton.mp last
      exact ⟨exact_.input, served⟩

theorem follows (start : TextSource w) : Follows (Exact start) where
  peek := by
    intro recorded text exact_
    have shown : (UnitSource.peek recorded).1 = recorded.input.source.after.head? := rfl
    rw [shown, exact_.source]
    exact ⟨rfl, exact_.note trivial exact_.source exact_.consumed exact_.whole⟩
  consume := by
    intro recorded seen text unit exact_ looked
    obtain ⟨shown, rfl⟩ := Prod.mk.inj looked
    obtain ⟨before, after⟩ := text
    have free : Use.IsExact recorded.input .look := trivial
    have looked := exact_.note free exact_.source exact_.consumed exact_.whole
    have source := exact_.source
    have whole := exact_.whole
    cases after with
    | nil =>
      have none : recorded.input.source.after.head? = some unit := shown
      rw [source] at none
      contradiction
    | cons first after =>
      have left : recorded.input.source.after ≠ [] := by
        rw [source]
        exact List.cons_ne_nil first after
      apply looked.note
      · exact left
      · exact congrArg TextSource.consume source
      · exact congrArg (· + 1) exact_.consumed
      · simpa [TextSource.consume] using whole
  putBack := by
    intro recorded unit before after exact_
    apply exact_.note
    · rw [Use.IsExact, exact_.source, exact_.consumed]
      exact ⟨rfl, Nat.succ_pos _⟩
    · exact congrArg TextSource.retreat exact_.source
    · exact congrArg (· - 1) exact_.consumed
    · simpa using exact_.whole

theorem consumed_run (rules : Rules) (directives : List Directive) (slots : List Slot)
    (source : TextSource w) :
    let after := ((Progress.start w rules slots (ofSource w source)).run rules directives).2
    after.input.consumed = after.input.source.input.consumed := by
  intro after
  -- In step with a run over the text that is left, where the units passed are those consumed.
  have started : (Progress.start w rules slots (ofSource w source)).InStep
      (Passes (Exact source)) (Progress.start w rules slots (⟨[], source.after⟩ : TextSource w)) :=
    ⟨⟨[], ⟨exact_ofSource source, [], rfl⟩, rfl, rfl⟩, rfl, rfl, rfl, rfl⟩
  obtain ⟨-, inStep⟩ := started.run (follows source).lockstep rules directives
  obtain ⟨kept, tracks⟩ := inStep.input
  obtain ⟨count, within, reached⟩ := Progress.run_reaches rules directives
    (Progress.start w rules slots (⟨[], source.after⟩ : TextSource w))
  have kept : count ≤ source.after.length := within
  rw [← tracks.consumed, tracks.source.1.consumed, reached]
  simp only [Counted.advance, TextSource.forward, Progress.start, List.append_nil,
    List.length_reverse, List.length_take]
  omega

end Recorded

namespace IntegerType

theorem ofWord_emod (type : IntegerType) (word : Nat) :
    type.ofWord word % (Nat.pow 2 type.bits : Nat) =
      (word : Int) % (Nat.pow 2 type.bits : Nat) := by
  unfold ofWord
  split
  · exact Int.bmod_emod
  · rw [Int.natCast_emod]
    exact Int.emod_emod_of_dvd _ (Int.dvd_refl _)

end IntegerType

namespace Progress

variable {σ : Type} [UnitSource σ w]

/-- What a conversion to a number has done once it is complete: the slot that was next holds
the number, as far as its width reaches, and no other slot has changed. -/
structure CountsInto (number : Nat) (bits : Nat) (before after : Arguments) : Prop where
  stored : ∃ type old, type.bits = bits ∧
    before.slots[before.taken]? = some (.integer type old) ∧
    after.slots = before.slots.set before.taken (.integer type (type.ofWord number))
  passed : before.taken < after.taken

theorem execute_number (rules : Rules) {conversion : Conversion} {bits number : Nat}
    {before after : Progress σ}
    (required : conversion.requirement? w = some (.integer bits))
    (kept : conversion.suppress = false)
    (read : ∀ elements, (before.input.convert rules (before.completed + 1) conversion
      elements).1.content = some (.word number))
    (completed : before.execute rules (.conversion conversion) = (none, after)) :
    CountsInto number bits before.arguments after.arguments := by
  simp only [execute, convert] at completed
  split at completed
  · cases completed
  · rename_i destination arguments granted
    have place := Policy.place_destination granted
    rw [required, kept, Option.isNone_some, Bool.or_self, if_neg Bool.false_ne_true] at place
    obtain ⟨stored, rfl, placed⟩ := Option.map_eq_some_iff.mp place
    obtain ⟨_, slot, fits, shown, accepted⟩ := Policy.granted_fits granted
    obtain rfl := Option.some.inj (required.symm.trans fits)
    have same := rules.policy.slots_destination w (before.completed + 1) conversion
      before.arguments
    rw [granted] at same
    rw [read] at completed
    split at completed
    · cases completed
    · obtain ⟨-, rfl⟩ := Prod.mk.inj completed
      cases slot with
      | integer type old =>
        have width : type.bits = bits := of_decide_eq_true accepted
        have changed : arguments.slots.modify stored.place
            (Slot.store rules.locale.page (.word number : Content w)) =
            before.arguments.slots.set before.arguments.taken
              (.integer type (type.ofWord number)) := by
          rw [same, placed, List.modify_eq_set_getElem?, shown]
          rfl
        have moved := Policy.place_lt_taken granted
        rw [placed] at moved
        exact ⟨⟨type, old, width, shown, changed⟩, moved⟩
      | float format bits => cases accepted
      | buffer target units => cases accepted
      | capacity count => cases accepted

theorem execute_count (rules : Rules) {conversion : Conversion} (counts : conversion.kind = .count)
    (kept : conversion.suppress = false) {before after : Progress σ}
    (completed : before.execute rules (.conversion conversion) = (none, after)) :
    CountsInto before.input.consumed conversion.length.integerBits before.arguments
      after.arguments := by
  apply execute_number rules _ kept _ completed
  · rw [Conversion.requirement?, counts]
  · intro elements
    simp only [Counted.convert, counts]

theorem CountsInto.final {number bits : Nat} {before after : Progress σ}
    (counts : CountsInto number bits before.arguments after.arguments) (rules : Rules)
    (later : List Directive) :
    ∃ type, type.bits = bits ∧
      (after.run rules later).2.arguments.slots[before.arguments.taken]? =
        some (.integer type (type.ofWord number)) := by
  obtain ⟨type, old, width, shown, changed⟩ := counts.stored
  have inside : before.arguments.taken < before.arguments.slots.length :=
    (List.getElem?_eq_some_iff.mp shown).1
  have kept := after.untouched_run rules later (.inl counts.passed)
  refine ⟨type, width, ?_⟩
  rw [kept, changed, List.getElem?_set_self inside]

theorem scan_keeps_count (rules : Rules) (format : Text w) (slots : List Slot) (source : σ)
    {passed later : List Directive} {conversion : Conversion} {before after : Progress σ}
    (split : (Format.read format).steps.map Prod.fst = passed ++ .conversion conversion :: later)
    (counts : conversion.kind = .count) (kept : conversion.suppress = false)
    (reached : (start w rules slots source).run rules passed = (none, before))
    (completed : before.execute rules (.conversion conversion) = (none, after)) :
    CountsInto before.input.consumed conversion.length.integerBits before.arguments
        after.arguments ∧
      ∃ type, type.bits = conversion.length.integerBits ∧
        (scan rules format slots source).slots[before.arguments.taken]? =
          some (.integer type (type.ofWord before.input.consumed)) := by
  have counted := execute_count rules counts kept completed
  have whole : (start w rules slots source).run rules ((Format.read format).steps.map Prod.fst) =
      after.run rules later := by
    rw [split, run_append, reached]
    simp only [andThen, run, completed]
  have stored : (scan rules format slots source).slots =
      (after.run rules later).2.arguments.slots := by
    rw [← whole, ← runFormat_state]
    rfl
  rw [stored]
  exact ⟨counted, counted.final rules later⟩

end Progress

theorem Counted.Reaches.exact {source : TextSource w} {input : Counted (TextSource w)}
    (reached : Reaches ⟨source, 0⟩ input) : input.Exact source := by
  obtain ⟨count, within, rfl⟩ := reached
  have inside : count ≤ source.after.length := within
  constructor
  · simp only [advance, Nat.zero_add]
  · simp only [advance, TextSource.forward, TextSource.position, List.length_append,
      List.length_reverse, List.length_take]
    omega

theorem Recorded.scan_ofSource (rules : Rules) (format : Text w) (slots : List Slot)
    (source : TextSource w) :
    let done := scan rules format slots source
    let recorded := scan rules format slots (ofSource w source)
    recorded.report = done.report ∧ recorded.slots = done.slots ∧
      recorded.source.input = ⟨done.source, done.report.consumed⟩ ∧
      ∀ entry ∈ recorded.source.record, entry.1.Exact source ∧ entry.2.IsExact entry.1 := by
  intro done recorded
  obtain ⟨report, stored, exact_⟩ := scan_tracks (follows source) rules format slots
    (exact_ofSource source)
  obtain ⟨report', stored', same⟩ := @scan_tracks _ w _ _ (TextSource.follows source.before)
    rules format slots source ⟨[], source.after⟩ rfl
  have ended : Counted.Exact source ⟨done.source, done.report.consumed⟩ :=
    (Progress.runFormat_reaches rules (Format.read format)
      (Progress.start w rules slots source)).exact
  have place : recorded.source.input.source = done.source := exact_.source.trans same.symm
  have count : recorded.source.input.consumed = done.report.consumed := by
    have position := exact_.input.position
    rw [place, ended.position] at position
    exact (Nat.add_left_cancel position).symm
  refine ⟨report.trans report'.symm, stored.trans stored'.symm, ?_, exact_.record⟩
  rw [← place, ← count]

/-- A scan counts exactly, from wherever in a text it begins. Over the source that records
its uses it does what it does over the text; every use of the source finds it as far from
the start as was counted and puts back only the unit just passed. A count that completes
stores that distance as far as its slot is wide, and what is left in the end is the input
without the units counted. -/
theorem scan_counts_exactly (rules : Rules) (format : Text w) (slots : List Slot)
    (source : TextSource w) :
    let directives := (Format.read format).steps.map Prod.fst
    let start := Progress.start w rules slots source
    let recording := Progress.start w rules slots (Recorded.ofSource w source)
    let done := scan rules format slots source
    let recorded := scan rules format slots (Recorded.ofSource w source)
    (recorded.report = done.report ∧ recorded.slots = done.slots ∧
        recorded.source.input = ⟨done.source, done.report.consumed⟩) ∧
      (∀ entry ∈ recorded.source.record, entry.1.Exact source ∧ entry.2.IsExact entry.1) ∧
      (∀ passed, (start.run rules passed).2.input.Exact source ∧
        (recording.run rules passed).2.input.consumed =
          (recording.run rules passed).2.input.source.input.consumed) ∧
      (∀ passed conversion later before after,
        directives = passed ++ .conversion conversion :: later →
        conversion.kind = .count → conversion.suppress = false →
        start.run rules passed = (none, before) →
        before.execute rules (.conversion conversion) = (none, after) →
        let distance := before.input.source.position - source.position
        Progress.CountsInto distance conversion.length.integerBits before.arguments
            after.arguments ∧
          ∃ type, type.bits = conversion.length.integerBits ∧
            done.slots[before.arguments.taken]? = some (.integer type (type.ofWord distance)) ∧
            type.ofWord distance % (Nat.pow 2 type.bits : Nat) =
              distance % (Nat.pow 2 type.bits : Nat)) ∧
      done.source.position = source.position + done.report.consumed ∧
      done.source.after = source.after.drop done.report.consumed := by
  intro directives start recording done recorded
  obtain ⟨report, stored, place, record⟩ := Recorded.scan_ofSource rules format slots source
  have between (passed : List Directive) : (start.run rules passed).2.input.Exact source :=
    (Progress.run_reaches rules passed start).exact
  have ended : Counted.Exact source ⟨done.source, done.report.consumed⟩ :=
    (Progress.runFormat_reaches rules (Format.read format) start).exact
  refine ⟨⟨report, stored, place⟩, record, ?_, ?_, ended.position,
    congrArg TextSource.after ended.source⟩
  · intro passed
    exact ⟨between passed, Recorded.consumed_run rules passed slots source⟩
  · intro passed conversion later before after split counts kept reached completed distance
    have position := (between passed).position
    rw [reached] at position
    have far : distance = before.input.consumed := by
      simp only [distance, position, Nat.add_sub_cancel_left]
    obtain ⟨counted, type, width, final⟩ := Progress.scan_keeps_count rules format slots source
      split counts kept reached completed
    rw [far]
    exact ⟨counted, type, width, final, type.ofWord_emod _⟩

/-- The exponent that turns out to have no digits is put back and not counted, nor is what
was passed before the scan began. -/
theorem empty_exponent_uncounted :
    let source : TextSource .narrow := ⟨Text.ofString .narrow "x", Text.ofString .narrow " 12e+y"⟩
    let float : Conversion := ⟨true, none, .absent, .float⟩
    let count : Conversion := ⟨false, none, .char, .count⟩
    let format := Text.ofString .narrow "%*f%hhn"
    let done := scan ⟨.plain, .c⟩ format [.integer ⟨true, .byte⟩ 0] source
    (Format.read format).steps.map Prod.fst = [.conversion float, .conversion count] ∧
      (∃ type : IntegerType, type.bits = 8 ∧
        done.slots[0]? = some (.integer type (type.ofWord 3))) ∧
      done.source.position = 1 + 3 := by
  intro source float count format done
  have split : (Format.read format).steps.map Prod.fst =
      [.conversion float, .conversion count] := by decide +kernel
  let before := ((Progress.start .narrow ⟨.plain, .c⟩ [.integer ⟨true, .byte⟩ 0] source).run
    ⟨.plain, .c⟩ [.conversion float]).2
  let after := (before.execute ⟨.plain, .c⟩ (.conversion count)).2
  obtain ⟨-, -, -, counts, position, -⟩ := scan_counts_exactly ⟨.plain, .c⟩
    (Text.ofString .narrow "%*f%hhn") [.integer ⟨true, .byte⟩ 0] source
  have reached : (Progress.start .narrow ⟨.plain, .c⟩ [.integer ⟨true, .byte⟩ 0] source).run
      ⟨.plain, .c⟩ [.conversion float] = (none, before) := Prod.ext (by decide +kernel) rfl
  have completed : before.execute ⟨.plain, .c⟩ (.conversion count) = (none, after) :=
    Prod.ext (by decide +kernel) rfl
  obtain ⟨-, type, width, final, -⟩ :=
    counts [.conversion float] count [] before after split rfl rfl reached completed
  have first : before.arguments.taken = 0 := by decide +kernel
  have distance : before.input.source.position - source.position = 3 := by decide +kernel
  have consumed : done.report.consumed = 3 := by decide +kernel
  rw [first, distance] at final
  exact ⟨split, ⟨type, width, final⟩, position.trans (congrArg (1 + ·) consumed)⟩

end FormattedInput
