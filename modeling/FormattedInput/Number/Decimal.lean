import FormattedInput.Number.Binary

namespace FormattedInput

structure Decimal where
  negative : Bool
  coefficient : Nat
  exponent : Int
deriving DecidableEq

namespace Decimal

/-- The pattern of the absolute value. A power of ten past the double range is
settled before it is raised: a nonzero coefficient is at least one, and it stays
below the power of ten that has as many digits as it has bits. -/
def magnitude (format : BinaryFormat) (number : Decimal) : Nat :=
  if number.coefficient = 0 then 0
  else if 310 ≤ number.exponent then format.infinity
  else if Nat.log2 number.coefficient + 1 + number.exponent ≤ -330 then 0
  else match number.exponent with
    | .ofNat power => format.round (number.coefficient * Nat.pow 10 power) 1
    | .negSucc power => format.round number.coefficient (Nat.pow 10 (power + 1))

def toDouble (number : Decimal) : Nat :=
  BinaryFormat.double.signed number.negative (number.magnitude .double)

/-- A single is rounded from the double, not from the spelling. -/
def toBits (number : Decimal) : BinaryFormat → Nat
  | .double => number.toDouble
  | .single => BinaryFormat.singleOfDouble number.toDouble

end Decimal

end FormattedInput
