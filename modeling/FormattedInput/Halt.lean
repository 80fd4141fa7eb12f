import FormattedInput.Format.Reading
import FormattedInput.Format.Requirement

namespace FormattedInput

inductive Violation where
  | missingArgument (index : Nat)
  | argumentType (index : Nat) (expected : Requirement) (found : SlotKind)
  | missingCapacity (index : Nat)
  | zeroCapacity (index : Nat)
  | bufferTooSmall (index capacity : Nat)
deriving DecidableEq

namespace Violation

/-- Whether the call still returns the assignments made before the violation. -/
def returnsCount : Violation → Bool
  | bufferTooSmall _ _ => true
  | _ => false

def message : Violation → String
  | missingArgument index =>
    "conversion #" ++ toString index ++ " has no destination argument"
  | argumentType index expected found =>
    "conversion #" ++ toString index ++ " stores " ++ expected.name
      ++ ", but the destination is " ++ found.name
  | missingCapacity index =>
    "conversion #" ++ toString index ++ " is missing its buffer capacity argument"
  | zeroCapacity index =>
    "conversion #" ++ toString index ++ " declared a buffer capacity of zero"
  | bufferTooSmall index capacity =>
    "conversion #" ++ toString index ++ " does not fit its buffer of " ++ toString capacity
      ++ " element(s)"

end Violation

inductive Halt where
  | mismatch (offset : Nat)
  | inputExhausted (offset : Nat)
  | destinationFull (index capacity : Nat)
  | invalidFormat (error : FormatError)
  | violation (broken : Violation)
deriving DecidableEq

namespace Halt

def isEndOfInput : Halt → Bool
  | inputExhausted _ => true
  | _ => false

def violation? : Halt → Option Violation
  | violation broken => some broken
  | _ => none

def message : Halt → String
  | mismatch offset => "input does not match the format at input offset " ++ toString offset
  | inputExhausted offset => "input exhausted at input offset " ++ toString offset
  | destinationFull index capacity =>
    "conversion #" ++ toString index ++ " stopped at the end of its " ++ toString capacity
      ++ "-element destination"
  | invalidFormat error => error.message
  | violation broken => broken.message

end Halt

end FormattedInput
