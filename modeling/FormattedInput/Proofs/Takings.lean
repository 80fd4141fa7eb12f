import FormattedInput.Literal.Expansion
import FormattedInput.Proofs.Destination
import FormattedInput.Proofs.SecureScan

namespace FormattedInput

variable {σ : Type} {w : Width} [UnitSource σ w]

def ConversionKind.room (kind : ConversionKind) (size capacity : Nat) : Nat :=
  match kind with
  | string _ | chars _ | charClass _ => min capacity size
  | decimal | integer | octal | unsigned | hex | float | pointer | count | percent => 0

namespace Policy

def pairsCapacity (policy : Policy) (kind : ConversionKind) : Bool :=
  policy.isSecure && kind.takesCapacity

/-- The arguments that a conversion takes, each with what it is taken for. A capacity is
asked for only after a destination that fits. -/
def takings (policy : Policy) (call : Width) (conversion : Conversion) (arguments : Arguments) :
    List WrappedArgument :=
  match conversion.suppress, conversion.requirement? call with
  | true, _ | _, none => []
  | false, some requirement =>
    match arguments.next with
    | (none, _) => []
    | (some slot, after) =>
      .destination arguments.taken ::
        if requirement.accepts slot.kind && policy.pairsCapacity conversion.kind then
          after.next.1.toList.map fun _ => .capacity after.taken
        else []

end Policy

def Directive.takings (policy : Policy) (call : Width) (arguments : Arguments) :
    Directive → List WrappedArgument
  | conversion asked => policy.takings call asked arguments
  | whitespace | literal _ => []

/-- What each directive of a run takes from the arguments, up to the one that halts it. -/
def Progress.takings (rules : Rules) : List Directive → Progress σ → List (List WrappedArgument)
  | [], _ => []
  | directive :: directives, progress =>
    directive.takings rules.policy w progress.arguments ::
      match progress.execute rules directive with
      | (some _, _) => []
      | (none, after) => takings rules directives after

namespace Arguments

theorem taken_next (arguments : Arguments) :
    arguments.next.2.taken = arguments.taken + arguments.next.1.toList.length := by
  unfold next
  split <;> rfl

theorem next_within {arguments : Arguments} (within : arguments.taken ≤ arguments.slots.length) :
    arguments.next.2.taken ≤ arguments.next.2.slots.length := by
  unfold next
  split
  · rename_i slot shown
    exact (List.getElem?_eq_some_iff.mp shown).1
  · exact within

theorem drop_update {place count : Nat} (earlier : place < count) (store : Slot → Slot)
    (arguments : Arguments) :
    (arguments.update place store).slots.drop count = arguments.slots.drop count :=
  List.drop_modify_of_lt store place count arguments.slots earlier

end Arguments

namespace Policy

theorem taken_takeCapacity (index : Nat) (arguments : Arguments) :
    (takeCapacity index arguments).2.taken =
      arguments.taken + arguments.next.1.toList.length := by
  rw [← arguments.taken_next]
  unfold takeCapacity
  split
  · rename_i next
    rw [next]
  · rename_i next
    rw [next]
  · rename_i next
    rw [next]

section Room

variable {policy : Policy} {kind : ConversionKind}

theorem roomFor_alone (alone : policy.pairsCapacity kind = false) (index : Nat) (slot : Slot)
    (arguments : Arguments) :
    policy.roomFor index kind slot arguments =
      (.ok (kind.room slot.size slot.size), arguments) := by
  cases policy with
  | plain =>
    cases kind with
    | string swapped | chars swapped | charClass set =>
      rw [ConversionKind.room, Nat.min_self]
      rfl
    | decimal | integer | octal | unsigned | hex | float | pointer | count | percent => rfl
  | secure => cases kind <;> first | contradiction | rfl

theorem roomFor_capacity (paired : policy.pairsCapacity kind = true) (index : Nat) (slot : Slot)
    (arguments : Arguments) :
    policy.roomFor index kind slot arguments =
      ((takeCapacity index arguments).1.map (kind.room slot.size),
        (takeCapacity index arguments).2) := by
  cases policy with
  | plain => contradiction
  | secure =>
    cases kind with
    | string swapped | chars swapped | charClass set => rfl
    | count =>
      simp only [roomFor, takeCountCapacity]
      cases (takeCapacity index arguments).1 <;> rfl
    | decimal | integer | octal | unsigned | hex | float | pointer | percent => contradiction

end Room

theorem taken_roomFor (policy : Policy) (index : Nat) (kind : ConversionKind) (slot : Slot)
    (arguments : Arguments) :
    (policy.roomFor index kind slot arguments).2.taken = arguments.taken +
      if policy.pairsCapacity kind then arguments.next.1.toList.length else 0 := by
  cases paired : policy.pairsCapacity kind with
  | false =>
    rw [roomFor_alone paired]
    rfl
  | true =>
    rw [roomFor_capacity paired, if_pos rfl]
    exact taken_takeCapacity index arguments

theorem taken_destination (policy : Policy) (call : Width) (index : Nat) (conversion : Conversion)
    (arguments : Arguments) :
    (policy.destination call index conversion arguments).2.taken =
      arguments.taken + (policy.takings call conversion arguments).length := by
  cases suppressed : conversion.suppress with
  | true => simp only [destination, takings, suppressed, List.length_nil, Nat.add_zero]
  | false =>
    cases required : conversion.requirement? call with
    | none => simp only [destination, takings, suppressed, required, List.length_nil, Nat.add_zero]
    | some requirement =>
      have moved := arguments.taken_next
      cases next : arguments.next with | mk first after =>
      rw [next] at moved
      simp only [destination, takings, suppressed, required, next]
      cases first with
      | none => exact moved
      | some slot =>
        simp only [Option.toList_some, List.length_singleton] at moved
        have room := policy.taken_roomFor index conversion.kind slot after
        cases accepted : requirement.accepts slot.kind with
        | false => simpa [accepted] using moved
        | true =>
          simp only [if_true, Bool.true_and, List.length_cons, room, moved, accepted]
          split
          · simp only [List.length_map]
            omega
          · rfl

theorem destination_within {arguments : Arguments}
    (within : arguments.taken ≤ arguments.slots.length) (policy : Policy) (call : Width)
    (index : Nat) (conversion : Conversion) :
    (policy.destination call index conversion arguments).2.taken ≤ arguments.slots.length := by
  have first := arguments.taken_next
  have inside := Arguments.next_within within
  rw [Arguments.slots_next] at inside
  rw [taken_destination]
  unfold takings
  split
  · exact within
  · exact within
  · split
    · exact within
    · rename_i slot after next
      rw [next] at first inside
      have second := after.taken_next
      have same := arguments.slots_next
      rw [next] at same
      have further : after.next.2.taken ≤ arguments.slots.length := by
        have last : after.next.2.taken ≤ after.next.2.slots.length :=
          Arguments.next_within (by rw [same]; exact inside)
        rwa [Arguments.slots_next, same] at last
      simp only [Option.toList_some, List.length_singleton] at first
      simp only [List.length_cons]
      split
      · rw [List.length_map]
        omega
      · rw [List.length_nil]
        omega

section Stored

variable {policy : Policy} {call : Width} {index : Nat} {conversion : Conversion}
  {arguments after : Arguments} {stored : Destination}

theorem takings_stored
    (taken : policy.destination call index conversion arguments = (.ok (some stored), after)) :
    stored.place = arguments.taken ∧
      ∃ more, policy.takings call conversion arguments = .destination stored.place :: more := by
  have place := place_destination taken
  rw [Option.map_some] at place
  unfold destination at taken
  split at taken
  · cases taken
  · cases taken
  · rename_i plain required
    rw [plain, required, Option.isNone_some, Bool.or_self, if_neg Bool.false_ne_true] at place
    split at taken
    · cases taken
    · rename_i next
      rw [Option.some.inj place]
      exact ⟨rfl, _, by simp only [takings, plain, required, next]; rfl⟩

theorem granted_fits
    (taken : policy.destination call index conversion arguments = (.ok (some stored), after)) :
    ∃ requirement slot, conversion.requirement? call = some requirement ∧
      arguments.slots[arguments.taken]? = some slot ∧ requirement.accepts slot.kind = true := by
  unfold destination at taken
  split at taken
  · cases taken
  · cases taken
  · rename_i requirement plain required
    split at taken
    · cases taken
    · rename_i slot rest next
      split at taken
      · rename_i accepted
        exact ⟨requirement, slot, required, Arguments.next_shown next, accepted⟩
      · cases taken

theorem place_lt_taken
    (taken : policy.destination call index conversion arguments = (.ok (some stored), after)) :
    stored.place < after.taken := by
  have count := policy.taken_destination call index conversion arguments
  obtain ⟨place, more, first⟩ := takings_stored taken
  simp only [taken, first, List.length_cons] at count
  omega

end Stored

end Policy

namespace Progress

variable {page : CodePage} {destination : Option Destination} {content : Option (Content w)}
  {arguments : Arguments}

@[simp] theorem taken_store (page : CodePage) (destination : Option Destination)
    (content : Option (Content w)) (arguments : Arguments) :
    (store page destination content arguments).taken = arguments.taken := by
  cases destination <;> cases content <;> rfl

theorem untouched_store {place : Nat} (apart : ∀ stored ∈ destination, stored.place ≠ place) :
    (store page destination content arguments).slots[place]? = arguments.slots[place]? := by
  cases destination with
  | none => rfl
  | some stored =>
    cases content with
    | none => rfl
    | some content => exact List.getElem?_modify_ne _ _ (apart stored rfl)

theorem drop_store {count : Nat} (earlier : ∀ stored ∈ destination, stored.place < count) :
    (store page destination content arguments).slots.drop count = arguments.slots.drop count := by
  cases destination with
  | none => rfl
  | some stored =>
    cases content with
    | none => rfl
    | some content => exact Arguments.drop_update (earlier stored rfl) _ arguments

end Progress

namespace Progress

theorem taken_execute (rules : Rules) (directive : Directive) (progress : Progress σ) :
    (progress.execute rules directive).2.arguments.taken =
      progress.arguments.taken + (directive.takings rules.policy w progress.arguments).length := by
  cases directive with
  | whitespace => rfl
  | literal code => rfl
  | conversion conversion =>
    have count := rules.policy.taken_destination w (progress.completed + 1) conversion
      progress.arguments
    rw [execute, convert, Directive.takings, ← count]
    split
    · rename_i refused
      rw [refused]
    · rename_i granted
      rw [granted]
      simp only
      split <;> simp only [record, taken_store]

theorem taken_run (rules : Rules) (directives : List Directive) (progress : Progress σ) :
    (progress.run rules directives).2.arguments.taken =
      progress.arguments.taken + (progress.takings rules directives).flatten.length := by
  induction directives generalizing progress with
  | nil => rfl
  | cons directive directives ih =>
    have first := taken_execute rules directive progress
    rw [run, takings]
    cases executed : progress.execute rules directive with
    | mk halt after =>
      rw [executed] at first
      cases halt with
      | some halt => simpa using first
      | none =>
        simp only at first ⊢
        rw [ih, first, List.flatten_cons, List.length_append, Nat.add_assoc]

@[simp] theorem length_store (page : CodePage) (destination : Option Destination)
    (content : Option (Content w)) (arguments : Arguments) :
    (store page destination content arguments).slots.length = arguments.slots.length := by
  cases destination <;> cases content <;>
    simp only [store, Arguments.update, List.length_modify]

theorem execute_within (rules : Rules) (directive : Directive) {progress : Progress σ}
    (within : progress.arguments.taken ≤ progress.arguments.slots.length) :
    (progress.execute rules directive).2.arguments.taken ≤
      (progress.execute rules directive).2.arguments.slots.length := by
  cases directive with
  | whitespace => exact within
  | literal code => exact within
  | conversion conversion =>
    have inside := Policy.destination_within within rules.policy w (progress.completed + 1)
      conversion
    have kept := rules.policy.slots_destination w (progress.completed + 1) conversion
      progress.arguments
    rw [← kept] at inside
    rw [execute, convert]
    split
    · rename_i refused
      rwa [refused] at inside
    · rename_i granted
      rw [granted] at inside
      simp only
      split <;> simpa only [record, taken_store, length_store] using inside

theorem run_within (rules : Rules) (directives : List Directive) {progress : Progress σ}
    (within : progress.arguments.taken ≤ progress.arguments.slots.length) :
    (progress.run rules directives).2.arguments.taken ≤
      (progress.run rules directives).2.arguments.slots.length := by
  apply run_induction (fun before after =>
    before.arguments.taken ≤ before.arguments.slots.length →
      after.arguments.taken ≤ after.arguments.slots.length) _ _ _ directives progress within
  · intro progress same
    exact same
  · intro first second third step further start
    exact further (step start)
  · intro directive before start
    exact execute_within rules directive start

/-- A directive stores only into a slot that it takes itself. -/
theorem untouched_execute (rules : Rules) (directive : Directive) (progress : Progress σ)
    {place : Nat} (outside : place < progress.arguments.taken ∨
      (progress.execute rules directive).2.arguments.taken ≤ place) :
    (progress.execute rules directive).2.arguments.slots[place]? =
      progress.arguments.slots[place]? := by
  cases directive with
  | whitespace => rfl
  | literal code => rfl
  | conversion conversion =>
    have kept := rules.policy.slots_destination w (progress.completed + 1) conversion
      progress.arguments
    cases granted : rules.policy.destination w (progress.completed + 1) conversion
      progress.arguments with
    | mk destination arguments =>
      rw [granted] at kept
      have same : arguments.slots[place]? = progress.arguments.slots[place]? :=
        congrArg (·[place]?) kept
      simp only [execute, convert, granted] at outside ⊢
      cases destination with
      | error broken => exact same
      | ok destination =>
        -- What is stored goes to the first slot taken, which lies between the two bounds.
        have apart (beyond : place < progress.arguments.taken ∨ arguments.taken ≤ place) :
            ∀ stored ∈ destination, stored.place ≠ place := by
          rintro stored ⟨⟩ rfl
          have first := (Policy.takings_stored granted).1
          have last := Policy.place_lt_taken granted
          omega
        simp only at outside ⊢
        split
        · rename_i halted
          simp only [halted, taken_store] at outside
          exact (untouched_store (apart outside)).trans same
        · rename_i halted
          simp only [halted, record, taken_store] at outside
          exact (untouched_store (apart outside)).trans same

/-- The slots that were taken before a run, and those that it has not taken, stay as they
are. -/
theorem untouched_run (rules : Rules) (directives : List Directive) (progress : Progress σ)
    {place : Nat} (outside : place < progress.arguments.taken ∨
      (progress.run rules directives).2.arguments.taken ≤ place) :
    (progress.run rules directives).2.arguments.slots[place]? =
      progress.arguments.slots[place]? := by
  have steps : progress.arguments.taken ≤ (progress.run rules directives).2.arguments.taken ∧
      ((place < progress.arguments.taken ∨
          (progress.run rules directives).2.arguments.taken ≤ place) →
        (progress.run rules directives).2.arguments.slots[place]? =
          progress.arguments.slots[place]?) := by
    apply run_induction fun before after => before.arguments.taken ≤ after.arguments.taken ∧
      ((place < before.arguments.taken ∨ after.arguments.taken ≤ place) →
        after.arguments.slots[place]? = before.arguments.slots[place]?)
    · intro progress
      exact ⟨Nat.le_refl _, fun _ => rfl⟩
    · rintro first second third ⟨passed, kept⟩ ⟨passed', kept'⟩
      refine ⟨Nat.le_trans passed passed', fun apart => ?_⟩
      rw [kept' (by omega), kept (by omega)]
    · intro directive before
      have moved := taken_execute rules directive before
      exact ⟨by omega, untouched_execute rules directive before⟩
  exact steps.2 outside

theorem left_run (rules : Rules) (directives : List Directive) (progress : Progress σ) :
    let after := (progress.run rules directives).2.arguments
    after.slots.drop after.taken = progress.arguments.slots.drop after.taken := by
  intro after
  apply List.ext_getElem?
  intro position
  rw [List.getElem?_drop, List.getElem?_drop]
  exact progress.untouched_run rules directives (.inr (Nat.le_add_right after.taken position))

end Progress

end FormattedInput
