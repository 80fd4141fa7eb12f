import FormattedInput.Proofs.Destination
import FormattedInput.Proofs.TextScan

namespace FormattedInput

variable {w : Width}

def Directive.leading (directive : Directive) (text : Text w) : Nat :=
  match directive with
  | .conversion asked => asked.kind.leading text
  | .whitespace | .literal _ => 0

namespace Slot

theorem store_nothing (page : CodePage) :
    Slot.store page (.text ([] : Text w)) = id := by
  funext slot
  cases slot <;> simp [store, overwrite]

end Slot

namespace Progress

theorem slots_store_empty (page : CodePage) (destination : Option Destination)
    {content : Option (Content w)} (empty : content = none ∨ content = some (.text []))
    (arguments : Arguments) :
    (store page destination content arguments).slots = arguments.slots := by
  rcases empty with rfl | rfl
  · cases destination <;> rfl
  · cases destination with
    | none => rfl
    | some destination =>
      rw [store, Slot.store_nothing]
      exact List.modify_id _ _

theorem slots_store_taken {policy : Policy} {page : CodePage} {index : Nat}
    {conversion : Conversion} {swapped : Bool} (single : conversion.kind = .chars swapped)
    {arguments after : Arguments} {destination : Option Destination}
    (taken : policy.destination w index conversion arguments = (.ok destination, after))
    (content : Content w) :
    (store page destination (some content) after).slots =
      if conversion.suppress then after.slots
      else after.slots.modify arguments.taken (Slot.store page content) := by
  have place := Policy.place_destination taken
  cases suppressed : conversion.suppress with
  | true =>
    rw [suppressed, Bool.true_or, if_pos rfl, Option.map_eq_none_iff] at place
    rw [place, if_pos rfl]
    rfl
  | false =>
    rw [suppressed, Conversion.requirement?, single, Option.isNone_some, Bool.or_self,
      if_neg Bool.false_ne_true] at place
    obtain ⟨destination, rfl, same⟩ := Option.map_eq_some_iff.mp place
    rw [← same, if_neg Bool.false_ne_true]
    rfl

/-- Between the two states, a directive consumed what it skips and stored nothing. -/
structure Untouched (directive : Directive) (before after : Progress (TextSource w)) : Prop where
  input : after.input = before.input.advance (directive.leading before.input.rest)
  slots : after.arguments.slots = before.arguments.slots

/-- Between the two states, a conversion of more single characters than were left took
and stored those that were. -/
structure RanOut (rules : Rules) (directive : Directive)
    (before after : Progress (TextSource w)) : Prop where
  single : ∃ conversion swapped, directive = .conversion conversion ∧
    conversion.kind = .chars swapped ∧ before.input.rest.length < conversion.width.getD 1 ∧
    after.arguments.slots =
      if conversion.suppress then before.arguments.slots
      else before.arguments.slots.modify before.arguments.taken
        (Slot.store rules.locale.page (.text before.input.rest))
  input : after.input = before.input.advance before.input.rest.length

theorem execute_stops (rules : Rules) (directive : Directive)
    {before after : Progress (TextSource w)} {halt : Halt}
    (stopped : before.execute rules directive = (some halt, after))
    (onInput : halt.isOnInput = true) :
    halt = after.input.unmatched.1 ∧
      (Untouched directive before after ∨ RanOut rules directive before after) := by
  cases directive with
  | whitespace => simp [execute] at stopped
  | literal code =>
    simp only [execute] at stopped
    rcases Counted.takeLiteral_text code before.input with ⟨further, reached, matched⟩ | failed
    · simp [matched] at stopped
    · rw [failed] at stopped
      obtain ⟨same, rfl⟩ := Prod.mk.inj stopped
      exact ⟨(Option.some.inj same).symm, .inl ⟨(Counted.advance_zero _).symm, rfl⟩⟩
  | conversion conversion =>
    simp only [execute, convert] at stopped
    split at stopped
    · obtain ⟨same, rfl⟩ := Prod.mk.inj stopped
      cases same
      contradiction
    · rename_i destination arguments taken
      have kept : arguments.slots = before.arguments.slots := by
        have same := rules.policy.slots_destination w (before.completed + 1) conversion
          before.arguments
        rwa [taken] at same
      have outcome := Counted.convert_outcome rules (before.completed + 1) conversion
        (destination.map Destination.room) before.input
      generalize before.input.convert rules (before.completed + 1) conversion
        (destination.map Destination.room) = read at stopped outcome
      -- Only a failure and a shortage stop on the input; a full destination does not.
      cases outcome with
      | complete reached => simp at stopped
      | overflow reached =>
        obtain ⟨same, rfl⟩ := Prod.mk.inj stopped
        rw [← Option.some.inj same, Policy.overflow_isOnInput] at onInput
        contradiction
      | failure empty =>
        obtain ⟨same, rfl⟩ := Prod.mk.inj stopped
        refine ⟨(Option.some.inj same).symm, .inl ⟨rfl, ?_⟩⟩
        rw [← kept]
        exact slots_store_empty rules.locale.page destination empty arguments
      | shortage single lacks =>
        obtain ⟨same, rfl⟩ := Prod.mk.inj stopped
        refine ⟨(Option.some.inj same).symm.trans before.input.unmatched_end.symm,
          .inr ⟨⟨conversion, _, rfl, single, lacks, ?_⟩, rfl⟩⟩
        rw [← kept]
        exact slots_store_taken single taken (.text before.input.rest)

end Progress

/-- If a scan stops on its input, the halt tells whether any is left and the offset is
what was consumed. The directive that failed touched nothing, or it asked for more
single characters than there were. -/
theorem scan_stops_cleanly (rules : Rules) (format : Text w) (slots : List Slot)
    (source : TextSource w) {halt : Halt}
    (stopped : (scan rules format slots source).report.halt = some halt)
    (onInput : halt.isOnInput = true) :
    let done := scan rules format slots source
    halt = (if done.source.after = [] then .inputExhausted done.report.consumed
      else .mismatch done.report.consumed) ∧
    ∃ passed directive later before after,
      (Format.read format).steps.map Prod.fst = passed ++ directive :: later ∧
      (Progress.start w rules slots source).run rules passed = (none, before) ∧
      before.execute rules directive = (some halt, after) ∧
      (Progress.Untouched directive before after ∨
        Progress.RanOut rules directive before after) ∧
      done.source = after.input.source ∧ done.report.consumed = after.input.consumed ∧
      done.slots = after.arguments.slots := by
  obtain ⟨after, whole⟩ : ∃ after, (Progress.start w rules slots source).runFormat rules
      (Format.read format) = (some halt, after) := ⟨_, Prod.ext stopped rfl⟩
  have ran := Progress.runFormat_onInput rules whole onInput
  obtain ⟨passed, directive, later, before, split, reached, failed⟩ := Progress.run_stops rules ran
  obtain ⟨shown, left⟩ := Progress.execute_stops rules directive failed onInput
  simp only [scan, whole]
  refine ⟨?_, passed, directive, later, before, after, split, reached, failed, left, rfl, rfl, rfl⟩
  rw [shown, Counted.unmatched_text]
  rfl

theorem lone_sign_stops_cleanly :
    let format := Text.ofString .narrow "%*d"
    let text := TextSource.ofText (Text.ofString .narrow " -x")
    (scan ⟨.plain, .c⟩ format [] text).report.halt = some (.mismatch 1) ∧
      (scan ⟨.plain, .c⟩ format [] text).report.consumed = 1 := by
  have stopped : (scan ⟨.plain, .c⟩ (Text.ofString .narrow "%*d") []
      (TextSource.ofText (Text.ofString .narrow " -x"))).report.halt = some (.mismatch 1) := by
    decide +kernel
  obtain ⟨shown, -⟩ := scan_stops_cleanly ⟨.plain, .c⟩ (Text.ofString .narrow "%*d") []
    (TextSource.ofText (Text.ofString .narrow " -x")) stopped rfl
  split at shown
  · contradiction
  · exact ⟨stopped, (Halt.mismatch.inj shown).symm⟩

end FormattedInput
