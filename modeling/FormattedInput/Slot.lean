import FormattedInput.CodeUnit
import FormattedInput.Number.Binary

/-!
The destinations a call supplies. An integer slot is chosen by its size alone: its
signedness decides only how the stored bits read. A buffer keeps its length for
good, and a capacity is a number for the scan to read, never a place to store. -/
namespace FormattedInput

inductive IntegerSize where
  | byte
  | half
  | word
  | double
  | pointer
deriving DecidableEq

namespace IntegerSize

def bits : IntegerSize → Nat
  | byte => 8
  | half => 16
  | word => 32
  | double | pointer => 64

/-- A pointer-sized integer is named apart from the fixed size it happens to have. -/
def name : IntegerSize → String
  | pointer => "size"
  | size => toString size.bits

def all : List IntegerSize := [byte, half, word, double, pointer]

end IntegerSize

structure IntegerType where
  isSigned : Bool
  size : IntegerSize
deriving DecidableEq

namespace IntegerType

def bits (type : IntegerType) : Nat := type.size.bits

def name (type : IntegerType) : String :=
  (if type.isSigned then "i" else "u") ++ type.size.name

def all : List IntegerType :=
  IntegerSize.all.flatMap fun size => [⟨true, size⟩, ⟨false, size⟩]

def ofWord (type : IntegerType) (word : Nat) : Int :=
  if type.isSigned then Int.bmod word (Nat.pow 2 type.bits)
  else (word % Nat.pow 2 type.bits : Nat)

end IntegerType

inductive SlotKind where
  | integer (type : IntegerType)
  | float (format : BinaryFormat)
  | buffer (w : Width)
  | capacity
deriving DecidableEq

namespace SlotKind

def name : SlotKind → String
  | integer type => type.name
  | float .single => "f32"
  | float .double => "f64"
  | buffer w => w.name ++ " buffer"
  | capacity => "capacity"

end SlotKind

inductive Slot where
  | integer (type : IntegerType) (value : Int)
  | float (format : BinaryFormat) (bits : Nat)
  | buffer (w : Width) (units : Text w)
  | capacity (count : Nat)
deriving DecidableEq

namespace Slot

def kind : Slot → SlotKind
  | integer type _ => .integer type
  | float format _ => .float format
  | buffer w _ => .buffer w
  | capacity _ => .capacity

def size : Slot → Nat
  | buffer _ units => units.length
  | _ => 0

/-- Writes over the front of a buffer. What would go past the end is dropped. -/
def overwrite {w : Width} : Text w → Text w → Text w
  | [], old => old
  | _, [] => []
  | unit :: front, _ :: old => unit :: overwrite front old

theorem length_overwrite {w : Width} (front old : Text w) :
    (overwrite front old).length = old.length := by
  fun_induction overwrite front old with
  | case1 => rfl
  | case2 => rfl
  | case3 unit front first old ih => simp [ih]

end Slot

end FormattedInput
