import FormattedInput.Number.Decimal
import FormattedInput.Scan.Integer

namespace FormattedInput

variable {σ : Type} {w : Width} [UnitSource σ w]

structure FloatSpan (w : Width) where
  sign : Option (CodeUnit w)
  whole : Text w
  fraction : Text w
  exponentSign : Option (CodeUnit w)
  exponent : Text w

namespace FloatSpan

def toDecimal (span : FloatSpan w) : Decimal :=
  ⟨span.sign.any CodeUnit.isMinus, Text.value 10 (span.whole ++ span.fraction),
   signed span.exponentSign (Text.value 10 span.exponent) - span.fraction.length⟩

end FloatSpan

namespace Field

def takeExponent (field : Field σ) : (Option (CodeUnit w) × Text w) × Field σ :=
  match field.takeIf (fun unit => unit.is 'e' || unit.is 'E') with
  | (none, field) => ((none, []), field)
  | (some marker, field) =>
    let sign := field.takeSign
    let digits := sign.2.takeWhile (CodeUnit.isDigit 10)
    if digits.1.isEmpty then
      ((none, []), { digits.2 with input := (digits.2.input.putBack? sign.1).putBack marker })
    else ((sign.1, digits.1), digits.2)

def takeFraction (point : Nat) (field : Field σ) : (Option (CodeUnit w) × Text w) × Field σ :=
  match field.takeIf (fun unit => unit.code == point) with
  | (none, field) => ((none, []), field)
  | (some separator, field) =>
    let digits := field.takeWhile (CodeUnit.isDigit 10)
    ((some separator, digits.1), digits.2)

end Field

namespace Counted

/-- Reads a decimal number of at most a width. The unit with the code of the
decimal point separates the fraction. -/
def takeDecimal (point : Nat) (width : Option Nat) (input : Counted σ) :
    Except Halt Decimal × Counted σ :=
  let sign := Field.takeSign ⟨input, width⟩
  let whole := sign.2.takeWhile (CodeUnit.isDigit 10)
  let fraction := whole.2.takeFraction point
  if whole.1.isEmpty && fraction.1.2.isEmpty then
    ((fraction.2.input.putBack? fraction.1.1).putBack? sign.1).fail
  else
    let exponent := fraction.2.takeExponent
    (.ok (FloatSpan.toDecimal ⟨sign.1, whole.1, fraction.1.2, exponent.1.1, exponent.1.2⟩),
     exponent.2.input)

end Counted

end FormattedInput
