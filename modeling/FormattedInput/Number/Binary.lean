/-!
IEEE 754 binary formats, as bit patterns. A magnitude is given as a fraction of
natural numbers and rounded once to the nearest pattern, a tie going to the even
one. The patterns of one sign are ordered like the values, so the pattern after
the largest finite one is infinity. -/
namespace FormattedInput

inductive BinaryFormat where
  | single
  | double
deriving DecidableEq

namespace BinaryFormat

def fractionBits : BinaryFormat → Nat
  | single => 23
  | double => 52

def exponentBits : BinaryFormat → Nat
  | single => 8
  | double => 11

def signBit (format : BinaryFormat) : Nat := Nat.pow 2 (format.fractionBits + format.exponentBits)

def infinity (format : BinaryFormat) : Nat :=
  (Nat.pow 2 format.exponentBits - 1) * Nat.pow 2 format.fractionBits

/-- The power of two that the last place of a subnormal counts. -/
def leastExponent (format : BinaryFormat) : Int :=
  2 - Nat.pow 2 (format.exponentBits - 1) - format.fractionBits

def signed (format : BinaryFormat) (negative : Bool) (magnitude : Nat) : Nat :=
  if negative then format.signBit + magnitude else magnitude

end BinaryFormat

/-- The natural number nearest to a fraction, the even one of two. -/
def roundEven (numerator denominator : Nat) : Nat :=
  let quotient := numerator / denominator
  let remainder := numerator % denominator
  if 2 * remainder < denominator then quotient
  else if denominator < 2 * remainder then quotient + 1
  else quotient + quotient % 2

def scaleFraction (numerator denominator : Nat) : Int → Nat × Nat
  | .ofNat power => (numerator * Nat.pow 2 power, denominator)
  | .negSucc power => (numerator, denominator * Nat.pow 2 (power + 1))

def binade (numerator denominator : Nat) : Int :=
  let guess : Int := Nat.log2 numerator - Nat.log2 denominator
  let scaled := scaleFraction numerator denominator (-guess)
  if scaled.2 ≤ scaled.1 then guess else guess - 1

namespace BinaryFormat

/-- The pattern nearest to a fraction. The step between patterns is set by the
binade and never smaller than that of the subnormals; a significand that rounds
up to the next power of two carries into the exponent by itself. -/
def round (format : BinaryFormat) (numerator denominator : Nat) : Nat :=
  if numerator = 0 then 0
  else
    let exponent := max format.leastExponent (binade numerator denominator - format.fractionBits)
    let scaled := scaleFraction numerator denominator (-exponent)
    min format.infinity
      ((exponent - format.leastExponent).toNat * Nat.pow 2 format.fractionBits
        + roundEven scaled.1 scaled.2)

def parts (format : BinaryFormat) (magnitude : Nat) : Nat × Int :=
  let field := magnitude / Nat.pow 2 format.fractionBits
  let fraction := magnitude % Nat.pow 2 format.fractionBits
  if field = 0 then (fraction, format.leastExponent)
  else (Nat.pow 2 format.fractionBits + fraction, format.leastExponent + field - 1)

def singleOfDouble (bits : Nat) : Nat :=
  let negative := decide (double.signBit ≤ bits)
  let magnitude := bits % double.signBit
  let rounded :=
    if double.infinity ≤ magnitude then single.infinity
    else
      let (significand, exponent) := double.parts magnitude
      let (numerator, denominator) := scaleFraction significand 1 exponent
      single.round numerator denominator
  single.signed negative rounded

end BinaryFormat

end FormattedInput
