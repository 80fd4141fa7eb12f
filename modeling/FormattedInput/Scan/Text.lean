import FormattedInput.Format.Directive
import FormattedInput.Scan.Counted

namespace FormattedInput

inductive TextShape where
  | word
  | characters
  | members (set : CharClass)
deriving DecidableEq

namespace TextShape

variable {w : Width}

def accepts (shape : TextShape) (unit : CodeUnit w) : Bool :=
  match shape with
  | word => !unit.isSpace
  | characters => true
  | members set => set.accepts unit.code

def isTerminated : TextShape → Bool
  | characters => false
  | word | members _ => true

def width (shape : TextShape) (width : Option Nat) : Option Nat :=
  match shape with
  | characters => some (width.getD 1)
  | word | members _ => width

/-- How many units fit into a number of elements beside their terminator. -/
def room (shape : TextShape) (elements : Nat) : Nat :=
  if shape.isTerminated then elements - 1 else elements

/-- Whether a run is too short. Single characters must fill their width; any other
text needs one unit. -/
def lacks {σ : Type} (shape : TextShape) (run : Run σ w) : Bool :=
  match shape with
  | characters => run.width != some 0
  | word | members _ => run.units.isEmpty

end TextShape

inductive TextEnd where
  | complete
  | overflow
  | failed (halt : Halt)
deriving DecidableEq

namespace Counted

variable {σ : Type} {w : Width} [UnitSource σ w]

/-- Only a word skips whitespace first. -/
def dropLeading (shape : TextShape) (input : Counted σ) : Counted σ :=
  match shape with
  | .word => input.dropSpace
  | .characters | .members _ => input

/-- Reads a text that may be stored in a number of elements, or that is not
stored. Units consumed before the text failed remain consumed. -/
def takeText (shape : TextShape) (elements width : Option Nat) (input : Counted σ) :
    (Text w × TextEnd) × Counted σ :=
  let run := (input.dropLeading shape).takeRun shape.accepts (elements.map shape.room)
    (shape.width width)
  if run.overflows then ((run.units, .overflow), run.input)
  else if shape.lacks run then
    let stopped := run.input.unmatched
    ((run.units, .failed stopped.1), stopped.2)
  else ((run.units, .complete), run.input)

end Counted

end FormattedInput
