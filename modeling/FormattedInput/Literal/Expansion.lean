import FormattedInput.EntryPoint
import FormattedInput.Literal.Placeholder

namespace FormattedInput

inductive WrappedArgument where
  | destination (position : Nat)
  | capacity (position : Nat)
deriving DecidableEq

namespace Literal

def wrap (policy : Policy) (position : Nat) : List Placeholder → List WrappedArgument
  | [] => []
  | placeholder :: rest =>
    if placeholder.arity policy = 2 then
      .destination position :: .capacity (position + 1) :: wrap policy (position + 2) rest
    else .destination position :: wrap policy (position + 1) rest

def wrapArguments (policy : Policy) (literal : String) (count : Nat) :
    Except LiteralError (List WrappedArgument) :=
  match placeholders literal with
  | .error error => .error error
  | .ok found =>
    let expected := arity policy found
    if expected = count then .ok (wrap policy 0 found)
    else .error (.argumentCount policy expected count)

end Literal

structure Expansion (w : Width) where
  function : String
  format : Text w
  arguments : List WrappedArgument
deriving DecidableEq

namespace EntryPoint

/-- Expands a call of an entry point. The literal is encoded whole, with whatever
terminators it holds. -/
def expand (entry : EntryPoint) (name literal : String) (count : Nat) :
    Except LiteralError (Expansion entry.width) :=
  match Literal.wrapArguments (entry.policy.getD .plain) literal count with
  | .error error => .error error
  | .ok arguments => .ok ⟨name, .ofString entry.width literal, arguments⟩

end EntryPoint

end FormattedInput
