import FormattedInput.Slot

namespace FormattedInput

structure Arguments where
  slots : List Slot
  taken : Nat
deriving DecidableEq

namespace Arguments

def ofSlots (slots : List Slot) : Arguments := ⟨slots, 0⟩

def remaining (arguments : Arguments) : Nat := arguments.slots.length - arguments.taken

def next (arguments : Arguments) : Option Slot × Arguments :=
  match arguments.slots[arguments.taken]? with
  | some slot => (some slot, { arguments with taken := arguments.taken + 1 })
  | none => (none, arguments)

def update (arguments : Arguments) (place : Nat) (store : Slot → Slot) : Arguments :=
  { arguments with slots := arguments.slots.modify place store }

end Arguments

end FormattedInput
