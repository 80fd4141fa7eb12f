import FormattedInput.Policy

namespace FormattedInput

structure Destination where
  place : Nat
  room : Nat
deriving DecidableEq

namespace Policy

def roomFor (policy : Policy) (index : Nat) (kind : ConversionKind) (slot : Slot)
    (arguments : Arguments) : Except Violation Nat × Arguments :=
  match kind with
  | .string _ | .chars _ | .charClass _ => policy.bufferRoom index slot.size arguments
  | .count =>
    let taken := policy.takeCountCapacity index arguments
    (taken.1.map fun _ => 0, taken.2)
  | _ => (.ok 0, arguments)

/-- Takes the destination of a conversion. A conversion that is suppressed, or that
needs none, takes nothing. -/
def destination (policy : Policy) (call : Width) (index : Nat) (conversion : Conversion)
    (arguments : Arguments) : Except Violation (Option Destination) × Arguments :=
  match conversion.suppress, conversion.requirement? call with
  | true, _ | _, none => (.ok none, arguments)
  | false, some requirement =>
    match arguments.next with
    | (none, after) => (.error (.missingArgument index), after)
    | (some slot, after) =>
      if requirement.accepts slot.kind then
        let taken := policy.roomFor index conversion.kind slot after
        (taken.1.map fun room => some ⟨arguments.taken, room⟩, taken.2)
      else (.error (.argumentType index requirement slot.kind), after)

end Policy

end FormattedInput
