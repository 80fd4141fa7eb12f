import FormattedInput.Scan.Destination

namespace FormattedInput

namespace Arguments

@[simp] theorem slots_next (arguments : Arguments) : arguments.next.2.slots = arguments.slots := by
  unfold next
  split <;> rfl

theorem next_shown {arguments after : Arguments} {slot : Slot}
    (next : arguments.next = (some slot, after)) : arguments.slots[arguments.taken]? = some slot := by
  unfold Arguments.next at next
  split at next
  · rename_i shown
    cases next
    exact shown
  · cases next

end Arguments

namespace Policy

@[simp] theorem slots_takeCapacity (index : Nat) (arguments : Arguments) :
    (takeCapacity index arguments).2.slots = arguments.slots := by
  have same := arguments.slots_next
  unfold takeCapacity
  split <;> simp_all

@[simp] theorem slots_roomFor (policy : Policy) (index : Nat) (kind : ConversionKind) (slot : Slot)
    (arguments : Arguments) :
    (policy.roomFor index kind slot arguments).2.slots = arguments.slots := by
  cases policy <;> cases kind <;> simp [roomFor, bufferRoom, takeCountCapacity]

variable {policy : Policy} {call : Width} {index : Nat} {conversion : Conversion}
  {arguments : Arguments}

theorem slots_destination (policy : Policy) (call : Width) (index : Nat) (conversion : Conversion)
    (arguments : Arguments) :
    (policy.destination call index conversion arguments).2.slots = arguments.slots := by
  have same := arguments.slots_next
  unfold destination
  split
  · rfl
  · rfl
  · split
    · rename_i none
      rwa [none] at same
    · rename_i slot after some
      rw [some] at same
      split
      · simpa using same
      · exact same

theorem place_destination {destination : Option Destination} {after : Arguments}
    (taken : policy.destination call index conversion arguments = (.ok destination, after)) :
    destination.map Destination.place =
      if conversion.suppress || (conversion.requirement? call).isNone then none
      else some arguments.taken := by
  unfold Policy.destination at taken
  split at taken
  · rename_i suppressed
    obtain ⟨found, -⟩ := Prod.mk.inj taken
    cases found
    rw [suppressed, Bool.true_or, if_pos rfl, Option.map_none]
  · rename_i needless _
    obtain ⟨found, -⟩ := Prod.mk.inj taken
    cases found
    rw [needless, Option.isNone_none, Bool.or_true, if_pos rfl, Option.map_none]
  · rename_i plain required
    split at taken
    · simp at taken
    · rename_i slot rest next
      split at taken
      · obtain ⟨found, -⟩ := Prod.mk.inj taken
        cases room : (policy.roomFor index conversion.kind slot rest).1 with
        | error broken => simp [room, Except.map] at found
        | ok elements =>
          simp only [room, Except.map, Except.ok.injEq] at found
          simp [plain, required, ← found]
      · simp at taken

end Policy

end FormattedInput
