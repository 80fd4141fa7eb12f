import FormattedInput.CodePage
import FormattedInput.Number.Decimal
import FormattedInput.Slot

namespace FormattedInput

/-- A text that overflowed is cut: its units are there, but the first element is a
terminator. -/
inductive Content (w : Width) where
  | word (value : Nat)
  | decimal (number : Decimal)
  | text (units : Text w)
  | terminated (units : Text w)
  | cut (units : Text w)
deriving DecidableEq

namespace Slot

variable {w : Width}

/-- Stores a content into a slot of its kind, which keeps its size. Text is carried
to the width of the buffer unit by unit. -/
def store (page : CodePage) (content : Content w) (slot : Slot) : Slot :=
  match content, slot with
  | .word value, integer type _ => integer type (type.ofWord value)
  | .decimal number, float format _ => float format (number.toBits format)
  | .text units, buffer target old =>
    buffer target (overwrite (units.map (CodeUnit.convert page target)) old)
  | .terminated units, buffer target old =>
    buffer target (overwrite (units.map (CodeUnit.convert page target) ++ [.nul]) old)
  | .cut units, buffer target old =>
    buffer target (overwrite [.nul] (overwrite (units.map (CodeUnit.convert page target)) old))
  | _, slot => slot

end Slot

end FormattedInput
