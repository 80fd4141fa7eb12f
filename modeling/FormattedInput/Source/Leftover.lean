import FormattedInput.CodePage

namespace FormattedInput

variable {w : Width}

/-- The units put back come first, the latest of them in front, then the unit that
was looked at. -/
structure Leftover (w : Width) where
  lookahead : Option (CodeUnit w)
  pushed : List (CodeUnit w)
deriving DecidableEq

namespace Leftover

def empty : Leftover w := ⟨none, []⟩

def capacity : Nat := 4

def isEmpty (left : Leftover w) : Bool := left.lookahead.isNone && left.pushed.isEmpty

def units (left : Leftover w) : Text w := left.pushed ++ left.lookahead.toList

def convert (page : CodePage) (target : Width) (left : Leftover w) : Leftover target :=
  ⟨left.lookahead.map (CodeUnit.convert page target),
   left.pushed.map (CodeUnit.convert page target)⟩

end Leftover

end FormattedInput
