import FormattedInput.Scan.Progress

/-!
A conversion reads the same however far the scan has got. Only the numbers differ that say
how far that is: the count of consumed units, the offsets and indices of a halt, and the
number that a count stores. A unit that is put back has been counted before, so the count
that is ahead never falls behind the other. -/
namespace FormattedInput

variable {σ : Type} {w : Width} [UnitSource σ w]

/-- How far a scan is when another format takes over: the units it has consumed, the
conversions it has run and the units of format it has read. -/
structure Headway where
  consumed : Nat
  conversions : Nat
  format : Nat
deriving DecidableEq

def Violation.after (headway : Headway) : Violation → Violation
  | missingArgument index => missingArgument (headway.conversions + index)
  | argumentType index expected found => argumentType (headway.conversions + index) expected found
  | missingCapacity index => missingCapacity (headway.conversions + index)
  | zeroCapacity index => zeroCapacity (headway.conversions + index)
  | bufferTooSmall index capacity => bufferTooSmall (headway.conversions + index) capacity

def Halt.after (headway : Headway) : Halt → Halt
  | mismatch offset => mismatch (headway.consumed + offset)
  | inputExhausted offset => inputExhausted (headway.consumed + offset)
  | destinationFull index capacity => destinationFull (headway.conversions + index) capacity
  | invalidFormat error => invalidFormat { error with offset := headway.format + error.offset }
  | violation broken => violation (broken.after headway)

def Counted.after (headway : Headway) (input : Counted σ) : Counted σ :=
  ⟨input.source, headway.consumed + input.consumed⟩

def Field.after (headway : Headway) (field : Field σ) : Field σ :=
  ⟨field.input.after headway, field.width⟩

def Result.after (headway : Headway) (result : Result w) : Result w :=
  { result with halt := result.halt.map (Halt.after headway) }

def TextEnd.after (headway : Headway) : TextEnd → TextEnd
  | failed halt => failed (halt.after headway)
  | ended => ended

def Run.after (headway : Headway) (run : Run σ w) : Run σ w :=
  { run with input := run.input.after headway }

variable (headway : Headway)

namespace Counted

theorem consumed_putBack? (unit : Option (CodeUnit w)) (input : Counted σ) :
    (input.putBack? unit).consumed = input.consumed - unit.toList.length := by
  cases unit <;> rfl

theorem consumed_takeRun (accept : CodeUnit w → Bool) (room width : Option Nat)
    (input : Counted σ) :
    (input.takeRun accept room width).input.consumed =
      input.consumed + (input.takeRun accept room width).units.length := by
  fun_induction takeRun accept room width input with
  | case1 => rfl
  | case2 => rfl
  | case3 => rfl
  | case4 room width input open_ unit source looked accepted roomy run ih =>
    have later : run.input.consumed = input.consumed + 1 + run.units.length := ih
    simp only [List.length_cons]
    omega
  | case5 => rfl

theorem peek_after (input : Counted σ) :
    (input.after headway).peek = (input.peek.1, input.peek.2.after headway) := rfl

theorem consume_after (input : Counted σ) :
    (input.after headway).consume = input.consume.after headway := rfl

theorem putBack_after {input : Counted σ} (counted : 0 < input.consumed) (unit : CodeUnit w) :
    (input.after headway).putBack unit = (input.putBack unit).after headway := by
  have same : headway.consumed + input.consumed - 1 = headway.consumed + (input.consumed - 1) :=
    Nat.add_sub_assoc counted headway.consumed
  simp only [putBack, after, same]

theorem putBack?_after {input : Counted σ} {unit : Option (CodeUnit w)}
    (counted : unit.toList.length ≤ input.consumed) :
    (input.after headway).putBack? unit = (input.putBack? unit).after headway := by
  cases unit with
  | none => rfl
  | some unit => exact putBack_after headway counted unit

theorem unmatched_after (input : Counted σ) :
    (input.after headway).unmatched =
      (input.unmatched.1.after headway, input.unmatched.2.after headway) := by
  unfold unmatched
  rw [peek_after]
  cases input.peek with
  | mk shown seen => cases shown <;> rfl

theorem fail_after {α : Type} (input : Counted σ) :
    ((input.after headway).fail : Except Halt α × Counted σ) =
      ((input.fail : Except Halt α × Counted σ).1.mapError (Halt.after headway),
        input.unmatched.2.after headway) := by
  rw [fail, unmatched_after]
  rfl

theorem takeRun_after (accept : CodeUnit w → Bool) (room width : Option Nat)
    (input : Counted σ) :
    (input.after headway).takeRun accept room width =
      (input.takeRun accept room width).after headway := by
  fun_induction takeRun accept room width input with
  | case1 room input =>
    rw [takeRun_round, if_pos rfl]
    rfl
  | case2 room width input open_ source looked =>
    rw [takeRun_round, if_neg open_]
    simp only [after, looked]
    rfl
  | case3 width input open_ unit source looked accepted =>
    rw [takeRun_round, if_neg open_]
    simp only [after, looked, if_pos accepted, if_true]
    rfl
  | case4 room width input open_ unit source looked accepted roomy run ih =>
    have later : (⟨UnitSource.consume source, headway.consumed + (input.consumed + 1)⟩ :
        Counted σ).takeRun accept (room.map (· - 1)) (width.map (· - 1)) = run.after headway := ih
    rw [takeRun_round, if_neg open_]
    simp only [after, looked, if_pos accepted, if_neg roomy, Nat.add_assoc, later]
    rfl
  | case5 room width input open_ unit source looked rejected =>
    rw [takeRun_round, if_neg open_]
    simp only [after, looked, if_neg rejected]
    rfl

theorem dropSpace_after (input : Counted σ) :
    (input.after headway).dropSpace = input.dropSpace.after headway :=
  congrArg Run.input (takeRun_after headway CodeUnit.isSpace none none input)

end Counted

namespace Field

theorem consumed_takeIf (accept : CodeUnit w → Bool) (field : Field σ) :
    (field.takeIf accept).2.input.consumed =
      field.input.consumed + (field.takeIf accept).1.toList.length := by
  unfold takeIf
  split
  · rfl
  · split
    · rename_i looked
      exact congrArg (fun seen : Option (CodeUnit w) × Counted σ => seen.2.consumed) looked.symm
    · rename_i looked
      have same := congrArg (fun seen : Option (CodeUnit w) × Counted σ => seen.2.consumed) looked
      split
      · exact congrArg (· + 1) same.symm
      · exact same.symm

theorem consumed_takeWhile (accept : CodeUnit w → Bool) (field : Field σ) :
    (field.takeWhile accept).2.input.consumed =
      field.input.consumed + (field.takeWhile accept).1.length :=
  Counted.consumed_takeRun accept none field.width field.input

theorem takeIf_after (accept : CodeUnit w → Bool) (field : Field σ) :
    (field.after headway).takeIf accept =
      ((field.takeIf accept).1, (field.takeIf accept).2.after headway) := by
  unfold takeIf
  by_cases closed : field.width = some 0
  · simp only [after, closed, if_true]
  · simp only [after, closed, if_false, Counted.peek_after]
    cases field.input.peek with
    | mk shown seen =>
      cases shown with
      | none => rfl
      | some unit =>
        simp only [Counted.consume_after]
        split <;> rfl

theorem takeWhile_after (accept : CodeUnit w → Bool) (field : Field σ) :
    (field.after headway).takeWhile accept =
      ((field.takeWhile accept).1, (field.takeWhile accept).2.after headway) := by
  unfold takeWhile
  simp only [after, Counted.takeRun_after]
  rfl

theorem takeSign_after (field : Field σ) :
    (field.after headway).takeSign = (field.takeSign.1, field.takeSign.2.after headway) :=
  takeIf_after headway CodeUnit.isSign field

theorem takeMark_after (base : IntegerBase) (field : Field σ) :
    base.takeMark (field.after headway) =
      ((base.takeMark field).1, (base.takeMark field).2.after headway) := by
  unfold IntegerBase.takeMark
  split
  · rw [takeIf_after]
    cases field.takeIf (fun unit => unit.is '0') with
    | mk zero further =>
      cases zero with
      | none => rfl
      | some zero =>
        simp only [takeIf_after]
        cases further.takeIf (fun unit => unit.is 'x' || unit.is 'X') with
        | mk marker further => cases marker <;> rfl
  · rfl

theorem consumed_takeMark (base : IntegerBase) (field : Field σ) :
    field.input.consumed + (base.takeMark field).1.marker.toList.length ≤
      (base.takeMark field).2.input.consumed := by
  unfold IntegerBase.takeMark
  split
  · have zeroes := field.consumed_takeIf (fun unit => unit.is '0')
    cases taken : field.takeIf (fun unit => unit.is '0') with
    | mk zero further =>
      rw [taken] at zeroes
      cases zero with
      | none => exact Nat.le_of_eq zeroes.symm
      | some zero =>
        have marks := further.consumed_takeIf (fun unit => unit.is 'x' || unit.is 'X')
        simp only
        cases found : further.takeIf (fun unit => unit.is 'x' || unit.is 'X') with
        | mk marker last =>
          rw [found] at marks
          cases marker with
          | none =>
            simp only [Option.toList_none, Option.toList_some, List.length_nil,
              List.length_singleton] at marks zeroes ⊢
            omega
          | some marker =>
            simp only [Option.toList_some, List.length_singleton] at marks zeroes ⊢
            omega
  · exact Nat.le_refl _

theorem takeFraction_after (point : Nat) (field : Field σ) :
    (field.after headway).takeFraction point =
      ((field.takeFraction point).1, (field.takeFraction point).2.after headway) := by
  unfold takeFraction
  rw [takeIf_after]
  cases field.takeIf (fun unit => unit.code == point) with
  | mk separator further =>
    cases separator with
    | none => rfl
    | some separator =>
      simp only [takeWhile_after]

theorem consumed_takeFraction (point : Nat) (field : Field σ) :
    field.input.consumed + (field.takeFraction point).1.1.toList.length ≤
      (field.takeFraction point).2.input.consumed := by
  have points := field.consumed_takeIf (fun unit => unit.code == point)
  unfold takeFraction
  cases taken : field.takeIf (fun unit => unit.code == point) with
  | mk separator further =>
    rw [taken] at points
    cases separator with
    | none => exact Nat.le_of_eq points.symm
    | some separator =>
      have digits := further.consumed_takeWhile (CodeUnit.isDigit 10)
      simp only at points digits ⊢
      omega

theorem takeExponent_after (field : Field σ) :
    (field.after headway).takeExponent =
      (field.takeExponent.1, field.takeExponent.2.after headway) := by
  have marks := field.consumed_takeIf (fun unit => unit.is 'e' || unit.is 'E')
  unfold takeExponent
  rw [takeIf_after]
  cases taken : field.takeIf (fun unit => unit.is 'e' || unit.is 'E') with
  | mk marker further =>
    rw [taken] at marks
    cases marker with
    | none => rfl
    | some marker =>
      have signs : further.takeSign.2.input.consumed =
          further.input.consumed + further.takeSign.1.toList.length :=
        further.consumed_takeIf CodeUnit.isSign
      have digits := further.takeSign.2.consumed_takeWhile (CodeUnit.isDigit 10)
      simp only [takeSign_after, takeWhile_after, Option.toList_some, List.length_singleton]
        at marks ⊢
      split
      · have signed : further.takeSign.1.toList.length ≤
            (further.takeSign.2.takeWhile (CodeUnit.isDigit 10)).2.input.consumed := by omega
        have marked : 0 < ((further.takeSign.2.takeWhile (CodeUnit.isDigit 10)).2.input.putBack?
            further.takeSign.1).consumed := by
          rw [Counted.consumed_putBack?]
          omega
        simp only [after, Counted.putBack?_after headway signed,
          Counted.putBack_after headway marked]
      · rfl

end Field

namespace Counted

theorem takeInteger_after (base : IntegerBase) (width : Option Nat) (input : Counted σ) :
    (input.after headway).takeInteger base width =
      ((input.takeInteger base width).1.mapError (Halt.after headway),
        (input.takeInteger base width).2.after headway) := by
  have start : (⟨input.after headway, width⟩ : Field σ) = Field.after headway ⟨input, width⟩ := rfl
  have signs : (Field.takeSign ⟨input, width⟩).2.input.consumed =
      input.consumed + (Field.takeSign ⟨input, width⟩).1.toList.length :=
    Field.consumed_takeIf CodeUnit.isSign ⟨input, width⟩
  simp only [takeInteger, start, Field.takeSign_after, Field.takeMark_after,
    Field.takeWhile_after]
  generalize Field.takeSign ⟨input, width⟩ = sign at signs ⊢
  have marks := Field.consumed_takeMark base sign.2
  generalize base.takeMark sign.2 = mark at marks ⊢
  have digits := mark.2.consumed_takeWhile (CodeUnit.isDigit mark.1.base)
  generalize mark.2.takeWhile (CodeUnit.isDigit mark.1.base) = taken at digits ⊢
  by_cases none : (taken.1.isEmpty && !mark.1.zero) = true
  · simp only [none, if_true]
    cases found : mark.1.marker with
    | none =>
      have counted : sign.1.toList.length ≤ taken.2.input.consumed := by omega
      simp only [Field.after, putBack?_after headway counted, fail_after]
      rfl
    | some marker =>
      have counted : 0 < taken.2.input.consumed := by
        rw [found, Option.toList_some, List.length_singleton] at marks
        omega
      simp only [Field.after, putBack_after headway counted]
      rfl
  · simp only [none]
    rfl

theorem takeDecimal_after (point : Nat) (width : Option Nat) (input : Counted σ) :
    (input.after headway).takeDecimal point width =
      ((input.takeDecimal point width).1.mapError (Halt.after headway),
        (input.takeDecimal point width).2.after headway) := by
  have start : (⟨input.after headway, width⟩ : Field σ) = Field.after headway ⟨input, width⟩ := rfl
  have signs : (Field.takeSign ⟨input, width⟩).2.input.consumed =
      input.consumed + (Field.takeSign ⟨input, width⟩).1.toList.length :=
    Field.consumed_takeIf CodeUnit.isSign ⟨input, width⟩
  simp only [takeDecimal, start, Field.takeSign_after, Field.takeWhile_after,
    Field.takeFraction_after]
  generalize Field.takeSign ⟨input, width⟩ = sign at signs ⊢
  have digits := sign.2.consumed_takeWhile (CodeUnit.isDigit 10)
  generalize sign.2.takeWhile (CodeUnit.isDigit 10) = whole at digits ⊢
  have points := whole.2.consumed_takeFraction point
  generalize whole.2.takeFraction point = fraction at points ⊢
  by_cases none : (whole.1.isEmpty && fraction.1.2.isEmpty) = true
  · have pointed : fraction.1.1.toList.length ≤ fraction.2.input.consumed := by omega
    have signed : sign.1.toList.length ≤
        (fraction.2.input.putBack? fraction.1.1).consumed := by
      rw [consumed_putBack?]
      omega
    simp only [none, if_true, Field.after, putBack?_after headway pointed,
      putBack?_after headway signed, fail_after]
    rfl
  · simp only [none, Field.takeExponent_after]
    rfl

theorem takeText_after (shape : TextShape) (elements width : Option Nat) (input : Counted σ) :
    (input.after headway).takeText shape elements width =
      (((input.takeText shape elements width).1.1,
          (input.takeText shape elements width).1.2.after headway),
        (input.takeText shape elements width).2.after headway) := by
  have leading : (input.after headway).dropLeading shape =
      (input.dropLeading shape).after headway := by
    cases shape with
    | word => exact dropSpace_after headway input
    | characters | members set => rfl
  simp only [takeText, leading, takeRun_after]
  generalize (input.dropLeading shape).takeRun shape.accepts (elements.map shape.room)
    (shape.width width) = run
  have lacks : shape.lacks (run.after headway) = shape.lacks run := by cases shape <;> rfl
  have overflows : (run.after headway).overflows = run.overflows := rfl
  rw [lacks, overflows]
  cases run.overflows with
  | true => rfl
  | false =>
    cases shape.lacks run with
    | true =>
      simp only [Run.after, unmatched_after]
      rfl
    | false => rfl

theorem takeLiteral_after (code : Nat) (input : Counted σ) :
    (input.after headway).takeLiteral code =
      ((input.takeLiteral code).1.map (Halt.after headway),
        (input.takeLiteral code).2.after headway) := by
  simp only [takeLiteral, peek_after, unmatched_after]
  split <;> rfl

theorem convertInteger_after (base : IntegerBase) (width : Option Nat) (input : Counted σ) :
    (input.after headway).convertInteger base width =
      ((input.convertInteger base width).1.after headway,
        (input.convertInteger base width).2.after headway) := by
  unfold convertInteger
  rw [dropSpace_after, takeInteger_after]
  cases input.dropSpace.takeInteger base width with
  | mk value further => cases value <;> rfl

theorem convertFloat_after (point : Nat) (width : Option Nat) (input : Counted σ) :
    (input.after headway).convertFloat point width =
      ((input.convertFloat point width).1.after headway,
        (input.convertFloat point width).2.after headway) := by
  unfold convertFloat
  rw [dropSpace_after, takeDecimal_after]
  cases input.dropSpace.takeDecimal point width with
  | mk number further => cases number <;> rfl

theorem overflow_after (policy : Policy) (index capacity : Nat) :
    policy.overflow (headway.conversions + index) capacity =
      (policy.overflow index capacity).after headway := by
  cases policy <;> rfl

theorem convertText_after (policy : Policy) (index : Nat) (shape : TextShape)
    (elements width : Option Nat) (input : Counted σ) :
    (input.after headway).convertText policy (headway.conversions + index) shape elements width =
      ((input.convertText policy index shape elements width).1.after headway,
        (input.convertText policy index shape elements width).2.after headway) := by
  unfold convertText
  rw [takeText_after]
  obtain ⟨⟨units, ended⟩, further⟩ := input.takeText shape elements width
  cases ended with
  | complete => rfl
  | overflow =>
    simp only [TextEnd.after, overflow_after]
    rfl
  | failed halt => rfl

theorem convert_after (rules : Rules) (index : Nat) {conversion : Conversion}
    (reads : conversion.kind ≠ .count) (elements : Option Nat) (input : Counted σ) :
    (input.after headway).convert rules (headway.conversions + index) conversion elements =
      ((input.convert rules index conversion elements).1.after headway,
        (input.convert rules index conversion elements).2.after headway) := by
  obtain ⟨suppress, width, length, kind⟩ := conversion
  cases kind with
  | decimal | unsigned | integer | octal | hex | pointer =>
    exact convertInteger_after headway _ width input
  | float => exact convertFloat_after headway _ width input
  | string swapped => exact convertText_after headway _ index .word elements width input
  | chars swapped => exact convertText_after headway _ index .characters elements width input
  | charClass set => exact convertText_after headway _ index (.members set) elements width input
  | count => contradiction
  | percent =>
    simp only [convert, takeLiteral_after]
    rfl

end Counted

end FormattedInput
