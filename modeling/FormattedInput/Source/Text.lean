import FormattedInput.Source.Basic

namespace FormattedInput

/-- A place in a text: what lies before it, the nearest unit first, and after it. -/
structure TextSource (w : Width) where
  before : Text w
  after : Text w
deriving DecidableEq

namespace TextSource

variable {w : Width}

def ofText (text : Text w) : TextSource w := ⟨[], text.beforeNul⟩

/-- At most this many units of a text, which still ends at a terminator. -/
def limited (length : Nat) (text : Text w) : TextSource w := ofText (text.take length)

def position (source : TextSource w) : Nat := source.before.length

def peek (source : TextSource w) : Option (CodeUnit w) := source.after.head?

def consume (source : TextSource w) : TextSource w :=
  match source.after with
  | [] => source
  | c :: after => ⟨c :: source.before, after⟩

/-- Steps back to the unit before this place, whichever unit is handed in. -/
def retreat (source : TextSource w) : TextSource w :=
  match source.before with
  | [] => source
  | c :: before => ⟨before, c :: source.after⟩

instance : UnitSource (TextSource w) w where
  peek source := (source.peek, source)
  consume := consume
  putBack _ := retreat
  supply source := source.after.length
  supply_consume := by
    intro source seen c looked
    obtain ⟨head, rfl⟩ := Prod.mk.inj looked
    obtain ⟨before, after⟩ := source
    cases after with
    | nil => contradiction
    | cons c after => simp [consume]

end TextSource

end FormattedInput
