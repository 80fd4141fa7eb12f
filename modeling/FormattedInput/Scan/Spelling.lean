import FormattedInput.Scan.Float

namespace FormattedInput

variable {w : Width}

def CodeUnit.toByte (unit : CodeUnit w) : Byte := .ofNat .narrow unit.code

namespace FloatSpan

def spelledSign (sign : Option (CodeUnit w)) : Text .narrow :=
  sign.toList.map fun unit => .ofNat .narrow (if unit.isMinus then '-' else '+').toNat

/-- The pieces put together again, with a period if there was a point. -/
def spelling (pointed : Bool) (span : FloatSpan w) : Text .narrow :=
  spelledSign span.sign ++ span.whole.map CodeUnit.toByte
    ++ (if pointed then [.ofNat .narrow '.'.toNat] else []) ++ span.fraction.map CodeUnit.toByte
    ++ if span.exponent.isEmpty then []
      else .ofNat .narrow 'e'.toNat
        :: (spelledSign span.exponentSign ++ span.exponent.map CodeUnit.toByte)

end FloatSpan

namespace Decimal

def cutSign : Text .narrow → Option Byte × Text .narrow
  | [] => (none, [])
  | unit :: text => if unit.isSign then (some unit, text) else (none, unit :: text)

/-- The number of a text that consists of digits only, of which there is one at least. -/
def digits? (text : Text .narrow) : Option Nat :=
  if !text.isEmpty && text.all (CodeUnit.isDigit 10) then some (text.value 10) else none

/-- The power of ten behind a marker, and none if nothing is there at all. -/
def power? : Text .narrow → Option Int
  | [] => some 0
  | _ :: text =>
    let cut := cutSign text
    (digits? cut.2).map (signed cut.1)

def beforePoint (unit : Byte) : Bool := !unit.is '.'

def beforeMarker (unit : Byte) : Bool := !(unit.is 'e' || unit.is 'E')

def cutPoint (text : Text .narrow) : Text .narrow × Text .narrow :=
  (text.takeWhile beforePoint, (text.dropWhile beforePoint).drop 1)

/-- Parses a whole text as one decimal number, which the first marker parts from its power of
ten. A digit must stand on one side of the period. -/
def parse? (text : Text .narrow) : Option Decimal :=
  let cut := cutSign text
  let halves := cutPoint (cut.2.takeWhile beforeMarker)
  match digits? (halves.1 ++ halves.2), power? (cut.2.dropWhile beforeMarker) with
  | some coefficient, some power =>
    some ⟨cut.1.any CodeUnit.isMinus, coefficient, power - halves.2.length⟩
  | _, _ => none

end Decimal

namespace Counted

variable {σ : Type} [UnitSource σ w]

def takeSpelling (point : Nat) (width : Option Nat) (input : Counted σ) :
    Except Halt (Text .narrow) × Counted σ :=
  let sign := Field.takeSign ⟨input, width⟩
  let whole := sign.2.takeWhile (CodeUnit.isDigit 10)
  let fraction := whole.2.takeFraction point
  if whole.1.isEmpty && fraction.1.2.isEmpty then
    ((fraction.2.input.putBack? fraction.1.1).putBack? sign.1).fail
  else
    let exponent := fraction.2.takeExponent
    let span : FloatSpan w := ⟨sign.1, whole.1, fraction.1.2, exponent.1.1, exponent.1.2⟩
    (.ok (span.spelling fraction.1.1.isSome), exponent.2.input)

/-- Takes a decimal number and parses its spelling. A spelling that does not parse would be a
mismatch behind what was consumed. -/
def takeParsed (point : Nat) (width : Option Nat) (input : Counted σ) :
    Except Halt Decimal × Counted σ :=
  match input.takeSpelling point width with
  | (.ok text, input) =>
    match Decimal.parse? text with
    | some number => (.ok number, input)
    | none => (.error (.mismatch input.consumed), input)
  | (.error halt, input) => (.error halt, input)

end Counted

end FormattedInput
