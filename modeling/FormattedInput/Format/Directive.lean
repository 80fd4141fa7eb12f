import FormattedInput.CodeUnit
import FormattedInput.Number.Binary

namespace FormattedInput

inductive LengthModifier where
  | absent
  | char
  | short
  | long
  | longLong
  | longDouble
  | intMax
  | size
  | ptrDiff
  | int32
  | int64
  | ptrSize
  | wide
deriving DecidableEq

namespace LengthModifier

def spelling : LengthModifier → List Char
  | absent => []
  | char => ['h', 'h']
  | short => ['h']
  | long => ['l']
  | longLong => ['l', 'l']
  | longDouble => ['L']
  | intMax => ['j']
  | size => ['z']
  | ptrDiff => ['t']
  | int32 => ['I', '3', '2']
  | int64 => ['I', '6', '4']
  | ptrSize => ['I']
  | wide => ['w']

/-- The size of an integer destination. A long has 32 bits, a pointer 64. -/
def integerBits : LengthModifier → Nat
  | char => 8
  | short => 16
  | absent | long | longDouble | int32 | wide => 32
  | longLong | int64 | intMax | size | ptrDiff | ptrSize => 64

def floatFormat : LengthModifier → BinaryFormat
  | long | longLong | longDouble | int64 => .double
  | _ => .single

/-- The width a text conversion stores. Short forces narrow, long and wide force
wide; otherwise it is the call's width, or the other one for a swapped letter. -/
def textWidth (length : LengthModifier) (call : Width) (swapped : Bool) : Width :=
  match length, call, swapped with
  | short, _, _ => .narrow
  | long, _, _ | wide, _, _ => .wide
  | _, .narrow, false | _, .wide, true => .narrow
  | _, .narrow, true | _, .wide, false => .wide

end LengthModifier

/-- A set of unit codes, as inclusive ranges in the order they were spelled. -/
structure CharClass where
  negated : Bool
  ranges : List (Nat × Nat)
deriving DecidableEq

namespace CharClass

def accepts (set : CharClass) (code : Nat) : Bool :=
  set.ranges.any (fun range => range.1 ≤ code && code ≤ range.2) != set.negated

/-- The accepted codes below a bound, as runs that cannot be extended. -/
def runs (set : CharClass) (bound : Nat) : List (Nat × Nat) :=
  (List.range bound).foldr extend []
where
  extend (code : Nat) (runs : List (Nat × Nat)) : List (Nat × Nat) :=
    if set.accepts code then
      match runs with
      | (first, last) :: later =>
        if first = code + 1 then (code, last) :: later else (code, code) :: runs
      | [] => [(code, code)]
    else runs

end CharClass

/-- What a conversion reads. A swapped letter is the upper-case one, which stands
for text of the other width. -/
inductive ConversionKind where
  | decimal
  | integer
  | octal
  | unsigned
  | hex
  | float
  | string (swapped : Bool)
  | chars (swapped : Bool)
  | charClass (set : CharClass)
  | pointer
  | count
  | percent
deriving DecidableEq

/-- A conversion without a width may take any number of units, or one if it
reads single characters. -/
structure Conversion where
  suppress : Bool
  width : Option Nat
  length : LengthModifier
  kind : ConversionKind
deriving DecidableEq

namespace Conversion

def assigns (conversion : Conversion) : Bool :=
  !conversion.suppress && match conversion.kind with
    | .count | .percent => false
    | _ => true

end Conversion

inductive Directive where
  | whitespace
  | literal (code : Nat)
  | conversion (conversion : Conversion)
deriving DecidableEq

end FormattedInput
