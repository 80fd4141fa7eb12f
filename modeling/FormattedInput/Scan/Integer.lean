import FormattedInput.Scan.Counted

namespace FormattedInput

inductive IntegerBase where
  | fixed (base : Nat)
  | announced
deriving DecidableEq

def wordOf (value : Int) : Nat := (value % UInt64.size).toNat

namespace CodeUnit

variable {w : Width}

def isMinus (unit : CodeUnit w) : Bool := unit.is '-'

def isSign (unit : CodeUnit w) : Bool := unit.is '+' || unit.isMinus

end CodeUnit

def signed {w : Width} (sign : Option (CodeUnit w)) (magnitude : Nat) : Int :=
  if sign.any CodeUnit.isMinus then -magnitude else magnitude

namespace Field

variable {σ : Type} {w : Width} [UnitSource σ w]

def takeSign (field : Field σ) : Option (CodeUnit w) × Field σ := field.takeIf CodeUnit.isSign

end Field

/-- What stands between the sign and the digits: a leading zero counts as a digit
unless a hexadecimal marker follows it. -/
structure BaseMark (w : Width) where
  base : Nat
  zero : Bool
  marker : Option (CodeUnit w)

namespace IntegerBase

variable {σ : Type} {w : Width} [UnitSource σ w]

def marked : IntegerBase → Bool
  | announced => true
  | fixed base => base == 16

def plainBase : IntegerBase → Nat
  | announced => 10
  | fixed base => base

def zeroBase : IntegerBase → Nat
  | announced => 8
  | fixed base => base

def takeMark (base : IntegerBase) (field : Field σ) : BaseMark w × Field σ :=
  if base.marked then
    match field.takeIf (fun unit => unit.is '0') with
    | (none, field) => (⟨base.plainBase, false, none⟩, field)
    | (some _, field) =>
      match field.takeIf (fun unit => unit.is 'x' || unit.is 'X') with
      | (some marker, field) => (⟨16, false, some marker⟩, field)
      | (none, field) => (⟨base.zeroBase, true, none⟩, field)
  else (⟨base.plainBase, false, none⟩, field)

end IntegerBase

namespace Counted

variable {σ : Type} {w : Width} [UnitSource σ w]

/-- Reads an integer of at most a width, as a word. The digits may denote any
number; the word holds it modulo two to the 64. -/
def takeInteger (base : IntegerBase) (width : Option Nat) (input : Counted σ) :
    Except Halt Nat × Counted σ :=
  let sign := Field.takeSign ⟨input, width⟩
  let mark := base.takeMark sign.2
  let digits := mark.2.takeWhile (CodeUnit.isDigit mark.1.base)
  let after := digits.2.input
  if digits.1.isEmpty && !mark.1.zero then
    match mark.1.marker with
    | some marker => (.ok 0, after.putBack marker)
    | none => (after.putBack? sign.1).fail
  else (.ok (wordOf (signed sign.1 (digits.1.value mark.1.base))), after)

end Counted

end FormattedInput
