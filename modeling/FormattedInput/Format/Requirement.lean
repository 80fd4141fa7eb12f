import FormattedInput.Format.Directive
import FormattedInput.Slot

namespace FormattedInput

inductive Requirement where
  | integer (bits : Nat)
  | float (format : BinaryFormat)
  | buffer (w : Width)
deriving DecidableEq

namespace Requirement

def name : Requirement → String
  | integer bits => toString bits ++ "-bit integer"
  | float format => (SlotKind.float format).name
  | buffer w => (SlotKind.buffer w).name

def accepts : Requirement → SlotKind → Bool
  | integer bits, .integer type => type.bits == bits
  | float needed, .float format => needed == format
  | buffer needed, .buffer w => needed == w
  | _, _ => false

end Requirement

namespace Conversion

/-- Only a percent sign in the input needs no destination. A pointer is an integer
of machine size whatever its length modifier. -/
def requirement? (call : Width) (conversion : Conversion) : Option Requirement :=
  match conversion.kind with
  | .decimal | .integer | .octal | .unsigned | .hex | .count =>
    some (.integer conversion.length.integerBits)
  | .pointer => some (.integer 64)
  | .float => some (.float conversion.length.floatFormat)
  | .string swapped | .chars swapped =>
    some (.buffer (conversion.length.textWidth call swapped))
  | .charClass _ => some (.buffer (conversion.length.textWidth call false))
  | .percent => none

end Conversion

end FormattedInput
