import FormattedInput.Proofs.Running
import FormattedInput.Proofs.TextReading
import FormattedInput.Scan.Report
import Mathlib.Data.List.TakeWhile

namespace FormattedInput

variable {w : Width}

namespace ConversionKind

def skipsSpace : ConversionKind → Bool
  | decimal | integer | octal | unsigned | hex | float | pointer | string _ => true
  | chars _ | charClass _ | count | percent => false

def leading (kind : ConversionKind) (text : Text w) : Nat :=
  if kind.skipsSpace then (text.takeWhile CodeUnit.isSpace).length else 0

theorem leading_le (kind : ConversionKind) (text : Text w) : kind.leading text ≤ text.length := by
  unfold leading
  split
  · exact (List.takeWhile_prefix CodeUnit.isSpace).length_le
  · exact Nat.zero_le _

end ConversionKind

namespace Counted

def Reaches (input after : Counted (TextSource w)) : Prop :=
  ∃ count, count ≤ input.rest.length ∧ after = input.advance count

namespace Reaches

variable {input middle after : Counted (TextSource w)}

theorem stay (input : Counted (TextSource w)) : input.Reaches input :=
  ⟨0, Nat.zero_le _, rfl⟩

theorem trans (first : input.Reaches middle) (second : middle.Reaches after) :
    input.Reaches after := by
  obtain ⟨count, within, rfl⟩ := first
  obtain ⟨further, inside, rfl⟩ := second
  rw [rest_advance, List.length_drop] at inside
  exact ⟨count + further, by omega, advance_advance count further input⟩

end Reaches

theorem unmatched_stays (input : Counted (TextSource w)) : input.unmatched.2 = input := by
  rw [unmatched_text]

theorem fail_text {α : Type} (input : Counted (TextSource w)) :
    (input.fail : Except Halt α × Counted (TextSource w)) = (.error input.unmatched.1, input) := by
  rw [fail, unmatched_text]

theorem unmatched_end (input : Counted (TextSource w)) :
    (input.advance input.rest.length).unmatched.1 =
      .inputExhausted (input.consumed + input.rest.length) := by
  rw [unmatched_text, rest_advance, List.drop_length, if_pos rfl]
  rfl

theorem takeRun_begins (accept : CodeUnit w → Bool) (room width : Option Nat)
    (input : Counted (TextSource w)) : (input.takeRun accept room width).units <+: input.rest := by
  rw [takeRun_text]
  exact (Text.upTo_begins room _).trans
    ((List.takeWhile_prefix accept).trans (Text.upTo_begins width input.rest))

theorem takeRun_input (accept : CodeUnit w → Bool) (room width : Option Nat)
    (input : Counted (TextSource w)) :
    (input.takeRun accept room width).input =
      input.advance (input.takeRun accept room width).units.length := by
  rw [takeRun_text]

theorem dropSpace_leading {kind : ConversionKind} (skips : kind.skipsSpace = true)
    (input : Counted (TextSource w)) :
    input.dropSpace = input.advance (kind.leading input.rest) := by
  rw [dropSpace_text, ConversionKind.leading, if_pos skips]

theorem reaches_dropSpace (input : Counted (TextSource w)) : input.Reaches input.dropSpace :=
  ⟨_, (List.takeWhile_prefix CodeUnit.isSpace).length_le, dropSpace_text input⟩

theorem reaches_takeRun (accept : CodeUnit w → Bool) (room width : Option Nat)
    (input : Counted (TextSource w)) : input.Reaches (input.takeRun accept room width).input :=
  ⟨_, (takeRun_begins accept room width input).length_le, takeRun_input accept room width input⟩

/-- What one conversion may give and where it may end. -/
inductive Outcome (policy : Policy) (index : Nat) (conversion : Conversion) (elements : Option Nat)
    (input : Counted (TextSource w)) : Result w × Counted (TextSource w) → Prop where
  | complete {content after} (reached : input.Reaches after) :
    Outcome policy index conversion elements input (⟨content, none⟩, after)
  | overflow {units after} (reached : input.Reaches after) :
    Outcome policy index conversion elements input
      (⟨some (.cut units), some (policy.overflow index (elements.getD 0))⟩, after)
  | failure {content} (empty : content = none ∨ content = some (.text [])) :
    Outcome policy index conversion elements input
      (⟨content, some (input.advance (conversion.kind.leading input.rest)).unmatched.1⟩,
        input.advance (conversion.kind.leading input.rest))
  | shortage {swapped} (single : conversion.kind = .chars swapped)
      (lacks : input.rest.length < conversion.width.getD 1) :
    Outcome policy index conversion elements input
      (⟨some (.text input.rest), some (.inputExhausted (input.consumed + input.rest.length))⟩,
        input.advance input.rest.length)

variable {policy : Policy} {index : Nat} {conversion : Conversion} {elements : Option Nat}

theorem convertInteger_outcome (skips : conversion.kind.skipsSpace = true) (base : IntegerBase)
    (width : Option Nat) (input : Counted (TextSource w)) :
    Outcome policy index conversion elements input (input.convertInteger base width) := by
  rw [convertInteger]
  rcases takeInteger_text base width input.dropSpace with ⟨value, count, within, read⟩ | failed
  · rw [read]
    exact .complete ((reaches_dropSpace input).trans ⟨count, within, rfl⟩)
  · rw [failed, fail_text, dropSpace_leading skips]
    exact .failure (.inl rfl)

theorem convertFloat_outcome (skips : conversion.kind.skipsSpace = true) (point : Nat)
    (width : Option Nat) (input : Counted (TextSource w)) :
    Outcome policy index conversion elements input (input.convertFloat point width) := by
  rw [convertFloat]
  rcases takeDecimal_text point width input.dropSpace with ⟨value, count, within, read⟩ | failed
  · rw [read]
    exact .complete ((reaches_dropSpace input).trans ⟨count, within, rfl⟩)
  · rw [failed, fail_text, dropSpace_leading skips]
    exact .failure (.inl rfl)

theorem convertText_outcome {shape : TextShape} (terminated : shape.isTerminated = true)
    (width : Option Nat) {input : Counted (TextSource w)}
    (skipped : input.dropLeading shape = input.advance (conversion.kind.leading input.rest)) :
    Outcome policy index conversion elements input
      (input.convertText policy index shape elements width) := by
  have start : input.Reaches (input.dropLeading shape) :=
    ⟨_, conversion.kind.leading_le input.rest, skipped⟩
  have reached := start.trans (reaches_takeRun shape.accepts (elements.map shape.room)
    (shape.width width) (input.dropLeading shape))
  have moved := takeRun_input shape.accepts (elements.map shape.room) (shape.width width)
    (input.dropLeading shape)
  rw [convertText, takeText]
  generalize (input.dropLeading shape).takeRun shape.accepts (elements.map shape.room)
    (shape.width width) = run at reached moved
  cases full : run.overflows with
  | true => simpa only [full, if_true] using Outcome.overflow reached
  | false =>
    cases short : shape.lacks run with
    | false =>
      simpa only [full, short, terminated, Bool.false_eq_true, if_false] using .complete reached
    | true =>
      have none : run.units = [] := by
        cases shape with
        | characters => contradiction
        | word | members set => exact List.isEmpty_iff.mp short
      rw [none, List.length_nil, advance_zero, skipped] at moved
      simp only [Bool.false_eq_true, if_false, if_true, moved, none, unmatched_stays]
      exact .failure (.inr rfl)

theorem takeCharacters_text (room : Option Nat) (count : Nat) (input : Counted (TextSource w)) :
    input.takeRun TextShape.characters.accepts room (some count) =
      let units := Text.upTo room (input.rest.take count)
      ⟨units, decide (units.length < (input.rest.take count).length),
        some (count - units.length), input.advance units.length⟩ := by
  have all : (input.rest.take count).takeWhile TextShape.characters.accepts =
      input.rest.take count := List.takeWhile_eq_self_iff.mpr fun _ _ => rfl
  rw [takeRun_text, Text.upTo_some, all]
  rfl

theorem convertCharacters_outcome {swapped : Bool} (single : conversion.kind = .chars swapped)
    (input : Counted (TextSource w)) :
    Outcome policy index conversion elements input
      (input.convertText policy index .characters elements conversion.width) := by
  have begins := Text.upTo_begins (elements.map TextShape.characters.room)
    (input.rest.take (conversion.width.getD 1))
  have within := begins.length_le
  rw [List.length_take] at within
  rw [convertText, takeText, dropLeading, TextShape.width, takeCharacters_text]
  generalize Text.upTo (elements.map TextShape.characters.room)
    (input.rest.take (conversion.width.getD 1)) = units at begins within
  simp only [decide_eq_true_eq, TextShape.lacks, bne_iff_ne, ne_eq, Option.some.injEq,
    Nat.sub_eq_zero_iff_le, unmatched_stays]
  by_cases full : units.length < (input.rest.take (conversion.width.getD 1)).length
  · simp only [full, if_true]
    exact .overflow ⟨units.length, by omega, rfl⟩
  · have whole := begins.eq_of_length_le (Nat.not_lt.mp full)
    simp only [full, if_false]
    by_cases filled : conversion.width.getD 1 ≤ units.length
    · simp only [filled, not_true_eq_false, if_false]
      exact .complete ⟨units.length, by omega, rfl⟩
    · have lacks : input.rest.length < conversion.width.getD 1 := by
        rw [whole, List.length_take] at filled
        omega
      have all : units = input.rest := whole.trans (List.take_of_length_le (by omega))
      simp only [filled, not_false_eq_true, if_true]
      rw [all, unmatched_end]
      exact .shortage single lacks

theorem takeLiteral_text (code : Nat) (input : Counted (TextSource w)) :
    (∃ after, input.Reaches after ∧ input.takeLiteral code = (none, after)) ∨
      input.takeLiteral code = (some input.unmatched.1, input) := by
  rw [takeLiteral, peek_text]
  simp only [unmatched_stays]
  split
  · rename_i found
    cases shown : input.rest with
    | nil => simp [shown] at found
    | cons unit rest =>
      have moved : input.consume = input.advance 1 := consume_text shown
      exact .inl ⟨input.advance 1, ⟨1, by simp [shown], rfl⟩, by rw [moved]⟩
  · exact .inr rfl

theorem convert_outcome (rules : Rules) (index : Nat) (conversion : Conversion)
    (elements : Option Nat) (input : Counted (TextSource w)) :
    Outcome rules.policy index conversion elements input
      (input.convert rules index conversion elements) := by
  obtain ⟨suppress, width, length, kind⟩ := conversion
  cases kind with
  | decimal | unsigned | integer | octal | hex | pointer =>
    exact convertInteger_outcome rfl _ width input
  | float => exact convertFloat_outcome rfl _ width input
  | string swapped => exact convertText_outcome rfl width (dropSpace_text input)
  | chars swapped => exact convertCharacters_outcome rfl input
  | charClass set => exact convertText_outcome rfl width rfl
  | count => exact .complete (Reaches.stay input)
  | percent =>
    simp only [convert]
    rcases takeLiteral_text '%'.toNat input with ⟨after, reached, matched⟩ | failed
    · rw [matched]
      exact .complete reached
    · rw [failed]
      exact .failure (.inl rfl)

theorem Outcome.reaches {input after : Counted (TextSource w)} {result : Result w}
    (outcome : Outcome policy index conversion elements input (result, after)) :
    input.Reaches after := by
  cases outcome with
  | complete reached => exact reached
  | overflow reached => exact reached
  | failure empty => exact ⟨_, conversion.kind.leading_le input.rest, rfl⟩
  | shortage single lacks => exact ⟨input.rest.length, Nat.le_refl _, rfl⟩

end Counted

namespace Progress

theorem convert_reaches (rules : Rules) (conversion : Conversion)
    (progress : Progress (TextSource w)) :
    progress.input.Reaches (progress.convert rules conversion).2.input := by
  unfold convert
  simp only
  split
  · exact Counted.Reaches.stay progress.input
  · rename_i destination arguments taken
    have outcome := Counted.convert_outcome rules (progress.completed + 1) conversion
      (destination.map Destination.room) progress.input
    split
    · exact outcome.reaches
    · exact outcome.reaches

theorem execute_reaches (rules : Rules) (directive : Directive)
    (progress : Progress (TextSource w)) :
    progress.input.Reaches (progress.execute rules directive).2.input := by
  cases directive with
  | whitespace => exact Counted.reaches_dropSpace progress.input
  | literal code =>
    simp only [execute]
    rcases Counted.takeLiteral_text code progress.input with ⟨after, reached, matched⟩ | failed
    · rw [matched]
      exact reached
    · rw [failed]
      exact Counted.Reaches.stay progress.input
  | conversion conversion => exact convert_reaches rules conversion progress

theorem run_reaches (rules : Rules) (directives : List Directive)
    (progress : Progress (TextSource w)) :
    progress.input.Reaches (progress.run rules directives).2.input := by
  apply run_induction fun before after => before.input.Reaches after.input
  · intro progress
    exact Counted.Reaches.stay progress.input
  · intro first second third reached further
    exact reached.trans further
  · intro directive progress
    exact execute_reaches rules directive progress

theorem runFormat_reaches (rules : Rules) (reading : Format.Reading)
    (progress : Progress (TextSource w)) :
    progress.input.Reaches (progress.runFormat rules reading).2.input := by
  rw [runFormat_state]
  exact run_reaches rules (reading.steps.map Prod.fst) progress

end Progress

/-- A scan leaves a text as far on as the number of units that it reports. -/
theorem scan_source (rules : Rules) (format : Text w) (slots : List Slot)
    (source : TextSource w) :
    (scan rules format slots source).source =
        source.forward (scan rules format slots source).report.consumed ∧
      (scan rules format slots source).report.consumed ≤ source.after.length := by
  have reaches : Counted.Reaches ⟨source, 0⟩ ⟨(scan rules format slots source).source,
      (scan rules format slots source).report.consumed⟩ :=
    Progress.runFormat_reaches rules (Format.read format) (Progress.start w rules slots source)
  obtain ⟨count, within, reached⟩ := reaches
  obtain ⟨moved, counted⟩ := Counted.mk.inj reached
  rw [moved, counted, Nat.zero_add]
  exact ⟨rfl, within⟩

end FormattedInput
