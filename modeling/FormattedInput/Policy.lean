import FormattedInput.Arguments
import FormattedInput.Halt

/-!
How a call knows the room in a buffer. A plain call takes the buffer's length. A
secure call asks for a capacity right after every buffer and every count, and
stays within the smaller of capacity and length. -/
namespace FormattedInput

inductive Policy where
  | plain
  | secure
deriving DecidableEq

namespace Policy

def isSecure : Policy → Bool
  | plain => false
  | secure => true

def ofSecure (secure : Bool) : Policy := if secure then .secure else .plain

/-- Takes the capacity that follows a destination. A slot of another kind is taken
as well, though it is none. -/
def takeCapacity (index : Nat) (arguments : Arguments) : Except Violation Nat × Arguments :=
  match arguments.next with
  | (some (.capacity 0), arguments) => (.error (.zeroCapacity index), arguments)
  | (some (.capacity count), arguments) => (.ok count, arguments)
  | (_, arguments) => (.error (.missingCapacity index), arguments)

def bufferRoom (policy : Policy) (index size : Nat) (arguments : Arguments) :
    Except Violation Nat × Arguments :=
  match policy with
  | plain => (.ok size, arguments)
  | secure =>
    let taken := takeCapacity index arguments
    (taken.1.map (min · size), taken.2)

def takeCountCapacity (policy : Policy) (index : Nat) (arguments : Arguments) :
    Except Violation Unit × Arguments :=
  match policy with
  | plain => (.ok (), arguments)
  | secure =>
    let taken := takeCapacity index arguments
    (taken.1.map fun _ => (), taken.2)

/-- Input that does not fit its buffer is the caller's mistake only in a secure
call. -/
def overflow (policy : Policy) (index capacity : Nat) : Halt :=
  match policy with
  | plain => .destinationFull index capacity
  | secure => .violation (.bufferTooSmall index capacity)

end Policy

end FormattedInput
