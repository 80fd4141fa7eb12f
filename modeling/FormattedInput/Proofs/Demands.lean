import FormattedInput.Proofs.Takings

namespace FormattedInput

namespace Conversion

def arity (policy : Policy) (asked : Conversion) : Nat :=
  if asked.suppress || asked.kind == .percent then 0
  else if policy.pairsCapacity asked.kind then 2 else 1

theorem requirement?_isNone (call : Width) (asked : Conversion) :
    (asked.requirement? call).isNone = (asked.kind == .percent) := by
  obtain ⟨suppress, width, length, kind⟩ := asked
  cases kind <;> rfl

end Conversion

def Directive.arity (policy : Policy) : Directive → Nat
  | conversion asked => asked.arity policy
  | whitespace | literal _ => 0

namespace Policy

/-- The conversions that take a destination, each with the place in the argument list where it
finds it. -/
def destinations (policy : Policy) (place : Nat) : List Directive → List (Nat × Conversion)
  | [] => []
  | directive :: later =>
    let behind := destinations policy (place + directive.arity policy) later
    match directive with
    | .conversion asked => if asked.arity policy = 0 then behind else (place, asked) :: behind
    | .whitespace | .literal _ => behind

theorem mem_destinations_rest (policy : Policy) (place : Nat) (directive : Directive)
    {later : List Directive} {entry : Nat × Conversion}
    (member : entry ∈ policy.destinations (place + directive.arity policy) later) :
    entry ∈ policy.destinations place (directive :: later) := by
  simp only [destinations]
  cases directive with
  | whitespace => exact member
  | literal code => exact member
  | conversion asked =>
    simp only
    split
    · exact member
    · exact List.mem_cons_of_mem _ member

theorem mem_destinations_first {policy : Policy} {asked : Conversion}
    (takes : asked.arity policy ≠ 0) (place : Nat) (later : List Directive) :
    (place, asked) ∈ policy.destinations place (.conversion asked :: later) := by
  simp only [destinations, if_neg takes]
  exact List.mem_cons_self

variable {policy : Policy} {call : Width} {index : Nat} {asked : Conversion}
  {arguments after : Arguments} {found : Option Destination}

theorem taken_roomFor_ok {kind : ConversionKind} {slot : Slot} {room : Nat}
    (granted : policy.roomFor index kind slot arguments = (.ok room, after)) :
    after.taken = arguments.taken + if policy.pairsCapacity kind then 1 else 0 := by
  have moved := policy.taken_roomFor index kind slot arguments
  rw [granted] at moved
  cases paired : policy.pairsCapacity kind with
  | false =>
    rw [paired] at moved
    exact moved
  | true =>
    rw [roomFor_capacity paired] at granted
    cases next : arguments.next with
    | mk first rest =>
      cases first with
      | some capacity =>
        rw [paired, next] at moved
        exact moved
      | none =>
        have missing : takeCapacity index arguments = (.error (.missingCapacity index), rest) := by
          rw [takeCapacity, next]
        rw [missing] at granted
        cases granted

theorem taken_granted
    (granted : policy.destination call index asked arguments = (.ok found, after)) :
    after.taken = arguments.taken + asked.arity policy := by
  have needs := asked.requirement?_isNone call
  unfold Conversion.arity
  rw [← needs]
  unfold destination at granted
  split at granted
  · rename_i suppressed
    cases granted
    rw [suppressed, Bool.true_or, if_pos rfl, Nat.add_zero]
  · rename_i needless _
    cases granted
    rw [needless, Option.isNone_none, Bool.or_true, if_pos rfl, Nat.add_zero]
  · rename_i requirement plain required
    rw [plain, required, Option.isNone_some, Bool.or_self, if_neg Bool.false_ne_true]
    have first := arguments.taken_next
    split at granted
    · cases granted
    · rename_i slot rest next
      rw [next, Option.toList_some, List.length_singleton] at first
      split at granted
      · cases taken : policy.roomFor index asked.kind slot rest with
        | mk room last =>
          rw [taken] at granted
          cases room with
          | error broken => cases granted
          | ok room =>
            cases granted
            rw [taken_roomFor_ok taken, first]
            split <;> rfl
      · cases granted

end Policy

namespace Slot

theorem kind_store {w : Width} (page : CodePage) (content : Content w) (slot : Slot) :
    (Slot.store page content slot).kind = slot.kind := by
  cases content <;> cases slot <;> rfl

end Slot

namespace Progress

variable {σ : Type} {w : Width} [UnitSource σ w]

theorem kinds_store (page : CodePage) (destination : Option Destination)
    (content : Option (Content w)) (arguments : Arguments) :
    (store page destination content arguments).slots.map Slot.kind =
      arguments.slots.map Slot.kind := by
  cases destination with
  | none => rfl
  | some destination =>
    cases content with
    | none => rfl
    | some content =>
      apply List.ext_getElem?
      intro position
      rw [List.getElem?_map, List.getElem?_map]
      simp only [store, Arguments.update, List.getElem?_modify]
      cases arguments.slots[position]? with
      | none => rfl
      | some slot =>
        simp only [Option.map_eq_map, Option.map_some]
        split
        · rw [Slot.kind_store]
        · rfl

theorem kinds_execute (rules : Rules) (directive : Directive) (progress : Progress σ) :
    (progress.execute rules directive).2.arguments.slots.map Slot.kind =
      progress.arguments.slots.map Slot.kind := by
  cases directive with
  | whitespace => rfl
  | literal code => rfl
  | conversion asked =>
    have kept := rules.policy.slots_destination w (progress.completed + 1) asked
      progress.arguments
    rw [execute, convert]
    split
    · rename_i refused
      rw [refused] at kept
      exact congrArg (List.map Slot.kind) kept
    · rename_i granted
      rw [granted] at kept
      simp only at kept ⊢
      split <;> simp only [record, kinds_store, kept]

theorem taken_goesOn {rules : Rules} {directive : Directive} {progress after : Progress σ}
    (ran : progress.execute rules directive = (none, after)) :
    after.arguments.taken = progress.arguments.taken + directive.arity rules.policy := by
  cases directive with
  | whitespace =>
    cases ran
    rfl
  | literal code =>
    obtain ⟨-, rfl⟩ := Prod.mk.inj ran
    rfl
  | conversion asked =>
    rw [execute, convert] at ran
    split at ran
    · cases ran
    · rename_i granted
      simp only at ran
      split at ran
      · cases ran
      · cases ran
        simp only [record, taken_store]
        exact Policy.taken_granted granted

end Progress

end FormattedInput
