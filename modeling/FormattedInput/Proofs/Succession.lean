import FormattedInput.Proofs.Headway
import FormattedInput.Proofs.Takings

namespace FormattedInput

variable {σ : Type} {w : Width} [UnitSource σ w]

def Slot.withWord (value : Nat) : Slot → Slot
  | integer type _ => integer type (type.ofWord value)
  | slot => slot

theorem Slot.store_word (page : CodePage) (value : Nat) :
    Slot.store page (.word value : Content w) = withWord value := by
  funext slot
  cases slot <;> rfl

theorem Slot.withWord_withWord (first second : Nat) :
    withWord second ∘ withWord first = withWord second := by
  funext slot
  cases slot <;> rfl

def Directive.counted (progress : Progress σ) : Directive → List (Nat × Nat)
  | conversion asked =>
    if asked.kind = .count ∧ asked.suppress = false then
      [(progress.arguments.taken, progress.input.consumed)]
    else []
  | whitespace | literal _ => []

def Progress.counted (rules : Rules) : List Directive → Progress σ → List (Nat × Nat)
  | [], _ => []
  | directive :: directives, progress =>
    match progress.execute rules directive with
    | (some _, _) => []
    | (none, after) => directive.counted progress ++ counted rules directives after

/-- Stores every count again, with more units counted before it. -/
def restate (more : Nat) (counts : List (Nat × Nat)) (slots : List Slot) : List Slot :=
  counts.foldl (fun slots entry => slots.modify entry.1 (Slot.withWord (more + entry.2))) slots

theorem restate_append (more : Nat) (first second : List (Nat × Nat)) (slots : List Slot) :
    restate more (first ++ second) slots = restate more second (restate more first slots) :=
  List.foldl_append

theorem restate_modify (more : Nat) {counts : List (Nat × Nat)} {place : Nat}
    (apart : ∀ entry ∈ counts, entry.1 ≠ place) (change : Slot → Slot) (slots : List Slot) :
    restate more counts (slots.modify place change) =
      (restate more counts slots).modify place change := by
  induction counts generalizing slots with
  | nil => rfl
  | cons entry counts ih =>
    have here : place ≠ entry.1 := (apart entry List.mem_cons_self).symm
    have there := fun entry member => apart entry (List.mem_cons_of_mem _ member)
    simp only [restate, List.foldl_cons, List.modify_modify_ne _ _ slots here]
    exact ih there _

theorem drop_restate (more : Nat) {counts : List (Nat × Nat)} {place : Nat}
    (earlier : ∀ entry ∈ counts, entry.1 < place) (slots : List Slot) :
    (restate more counts slots).drop place = slots.drop place := by
  induction counts generalizing slots with
  | nil => rfl
  | cons entry counts ih =>
    have here : entry.1 < place := earlier entry List.mem_cons_self
    have there := fun entry member => earlier entry (List.mem_cons_of_mem _ member)
    have changed := List.drop_modify_of_lt (Slot.withWord (more + entry.2)) entry.1 place slots here
    exact (ih there _).trans changed

/-- The same slots are still to be taken from both lists, from the first at places further
on. -/
structure Arguments.Behind (passed : Nat) (whole part : Arguments) : Prop where
  taken : whole.taken = passed + part.taken
  left : whole.slots.drop whole.taken = part.slots.drop part.taken

def Destination.behind (passed : Nat) (destination : Destination) : Destination :=
  { destination with place := passed + destination.place }

section Taking

variable {passed : Nat} {whole part : Arguments}

theorem Arguments.next_behind (behind : Behind passed whole part) :
    whole.next.1 = part.next.1 ∧ Behind passed whole.next.2 part.next.2 := by
  have shown : whole.slots[whole.taken]? = part.slots[part.taken]? := by
    rw [← List.head?_drop, ← List.head?_drop, behind.left]
  unfold next
  rw [shown]
  cases part.slots[part.taken]? with
  | none => exact ⟨rfl, behind⟩
  | some slot =>
    refine ⟨rfl, congrArg (· + 1) behind.taken, ?_⟩
    simp only
    rw [← List.tail_drop, behind.left, List.tail_drop]

namespace Policy

variable (headway : Headway)

theorem takeCapacity_behind (behind : whole.Behind passed part) (index : Nat) :
    (takeCapacity (headway.conversions + index) whole).1 =
        (takeCapacity index part).1.mapError (Violation.after headway) ∧
      (takeCapacity (headway.conversions + index) whole).2.Behind passed
        (takeCapacity index part).2 := by
  obtain ⟨same, further⟩ := Arguments.next_behind behind
  unfold takeCapacity
  generalize whole.next = taken at same further ⊢
  generalize part.next = taken' at same further ⊢
  obtain ⟨first, rest⟩ := taken
  obtain ⟨second, rest'⟩ := taken'
  obtain rfl : first = second := same
  cases first with
  | none => exact ⟨rfl, further⟩
  | some slot =>
    cases slot with
    | capacity count => cases count <;> exact ⟨rfl, further⟩
    | integer type value | float format bits | buffer target units => exact ⟨rfl, further⟩

theorem roomFor_behind (policy : Policy) (behind : whole.Behind passed part) (index : Nat)
    (kind : ConversionKind) (slot : Slot) :
    (policy.roomFor (headway.conversions + index) kind slot whole).1 =
        (policy.roomFor index kind slot part).1.mapError (Violation.after headway) ∧
      (policy.roomFor (headway.conversions + index) kind slot whole).2.Behind passed
        (policy.roomFor index kind slot part).2 := by
  obtain ⟨same, further⟩ := takeCapacity_behind headway behind index
  cases paired : policy.pairsCapacity kind with
  | false =>
    rw [roomFor_alone paired, roomFor_alone paired]
    exact ⟨rfl, behind⟩
  | true =>
    rw [roomFor_capacity paired, roomFor_capacity paired, same]
    refine ⟨?_, further⟩
    cases (takeCapacity index part).1 <;> rfl

theorem destination_behind (policy : Policy) (behind : whole.Behind passed part) (call : Width)
    (index : Nat) (conversion : Conversion) :
    (policy.destination call (headway.conversions + index) conversion whole).1 =
        ((policy.destination call index conversion part).1.map
          (Option.map (Destination.behind passed))).mapError (Violation.after headway) ∧
      (policy.destination call (headway.conversions + index) conversion whole).2.Behind passed
        (policy.destination call index conversion part).2 := by
  obtain ⟨same, further⟩ := Arguments.next_behind behind
  have place := behind.taken
  unfold destination
  cases conversion.suppress with
  | true => exact ⟨rfl, behind⟩
  | false =>
    cases conversion.requirement? call with
    | none => exact ⟨rfl, behind⟩
    | some requirement =>
      simp only
      generalize whole.next = taken at same further ⊢
      generalize part.next = taken' at same further ⊢
      obtain ⟨first, rest⟩ := taken
      obtain ⟨second, rest'⟩ := taken'
      obtain rfl : first = second := same
      cases first with
      | none => exact ⟨rfl, further⟩
      | some slot =>
        simp only
        cases requirement.accepts slot.kind with
        | false => exact ⟨rfl, further⟩
        | true =>
          obtain ⟨room, last⟩ := roomFor_behind headway policy further index conversion.kind slot
          simp only [if_true, room, place]
          refine ⟨?_, last⟩
          cases (policy.roomFor index conversion.kind slot rest').1 <;> rfl

end Policy

end Taking

/-- The arguments of a run that takes over: what was taken before stands in front, and the
counts stored since tell more units. -/
structure Arguments.Restated (more : Nat) (front : List Slot) (counts : List (Nat × Nat))
    (whole part : Arguments) : Prop where
  slots : whole.slots = front ++ restate more counts part.slots
  taken : whole.taken = front.length + part.taken
  earlier : ∀ entry ∈ counts, entry.1 < part.taken

section Storing

variable {more : Nat} {front : List Slot} {counts : List (Nat × Nat)} {whole part : Arguments}

theorem Arguments.Restated.behind (restated : Restated more front counts whole part) :
    whole.Behind front.length part where
  taken := restated.taken
  left := by
    rw [restated.slots, restated.taken, List.drop_length_add_append,
      drop_restate more restated.earlier]

theorem Policy.destination_restated (headway : Headway) (policy : Policy)
    (restated : whole.Restated more front counts part) (call : Width) (index : Nat)
    (conversion : Conversion) :
    (policy.destination call (headway.conversions + index) conversion whole).1 =
        ((policy.destination call index conversion part).1.map
          (Option.map (Destination.behind front.length))).mapError (Violation.after headway) ∧
      (policy.destination call (headway.conversions + index) conversion whole).2.Restated more
        front counts (policy.destination call index conversion part).2 := by
  obtain ⟨same, further⟩ := destination_behind headway policy restated.behind call index conversion
  have moved := policy.taken_destination call index conversion part
  refine ⟨same, ?_, further.taken, ?_⟩
  · rw [slots_destination, slots_destination, restated.slots]
  · intro entry member
    have before := restated.earlier entry member
    omega

theorem Arguments.modify_behind (change : Slot → Slot) (place : Nat) (slots : List Slot) :
    (front ++ slots).modify (front.length + place) change =
      front ++ slots.modify place change :=
  List.modifyTailIdx_add (List.modifyHead change) place front slots

namespace Progress

theorem store_restated (restated : whole.Restated more front counts part) (page : CodePage)
    {destination : Option Destination} (content : Option (Content w))
    (apart : ∀ stored ∈ destination, ∀ entry ∈ counts, entry.1 ≠ stored.place) :
    (store page (destination.map (Destination.behind front.length)) content whole).Restated more
      front counts (store page destination content part) := by
  cases destination with
  | none => exact restated
  | some stored =>
    cases content with
    | none => exact restated
    | some content =>
      refine ⟨?_, restated.taken, restated.earlier⟩
      simp only [store, Option.map_some, Destination.behind, Arguments.update, restated.slots,
        Arguments.modify_behind, restate_modify more (apart stored rfl)]

theorem store_count_restated (restated : whole.Restated more front counts part) (page : CodePage)
    {stored : Destination} (apart : ∀ entry ∈ counts, entry.1 ≠ stored.place)
    (passed : stored.place < part.taken) (count : Nat) :
    (store page (some (stored.behind front.length)) (some (.word (more + count) : Content w))
        whole).Restated more front (counts ++ [(stored.place, count)])
      (store page (some stored) (some (.word count : Content w)) part) := by
  refine ⟨?_, restated.taken, ?_⟩
  · have twice := List.modify_modify_eq (Slot.withWord count) (Slot.withWord (more + count))
      stored.place (restate more counts part.slots)
    rw [Slot.withWord_withWord] at twice
    simp only [store, Destination.behind, Arguments.update, restated.slots, Slot.store_word,
      Arguments.modify_behind, restate_append, restate_modify more apart]
    exact congrArg (front ++ ·) twice.symm
  · intro entry member
    rcases List.mem_append.mp member with earlier | last
    · exact restated.earlier entry earlier
    · obtain rfl := List.mem_singleton.mp last
      exact passed

end Progress

end Storing

/-- A run that takes over, beside the run from the start that does the same. -/
structure Progress.Succeeds (headway : Headway) (assigned : Nat) (front : List Slot)
    (counts : List (Nat × Nat)) (whole part : Progress σ) : Prop where
  input : whole.input = part.input.after headway
  arguments : whole.arguments.Restated headway.consumed front counts part.arguments
  completed : whole.completed = headway.conversions + part.completed
  assigned : whole.assigned = assigned + part.assigned

namespace Progress

variable {headway : Headway} {assigned : Nat} {front : List Slot} {counts : List (Nat × Nat)}
  {whole part : Progress σ}

theorem Succeeds.record (succeeds : Succeeds headway assigned front counts whole part)
    (conversion : Conversion) :
    Succeeds headway assigned front counts (whole.record conversion) (part.record conversion) where
  input := succeeds.input
  arguments := succeeds.arguments
  completed := congrArg (· + 1) succeeds.completed
  assigned := by
    simp only [Progress.record, succeeds.assigned]
    split <;> rfl

/-- The counts stored once a directive has been executed. A directive that halts stores
none. -/
def countedBy (rules : Rules) (directive : Directive) (progress : Progress σ) :
    List (Nat × Nat) :=
  match progress.execute rules directive with
  | (some _, _) => []
  | (none, _) => directive.counted progress

def StepSucceeds (headway : Headway) (assigned : Nat) (front : List Slot)
    (counts : List (Nat × Nat)) (whole part : Option Halt × Progress σ) : Prop :=
  whole.1 = part.1.map (Halt.after headway) ∧
    Succeeds headway assigned front counts whole.2 part.2

theorem convert_count (rules : Rules) {conversion : Conversion} (counts : conversion.kind = .count)
    (index : Nat) (elements : Option Nat) (input : Counted σ) :
    input.convert rules index conversion elements =
      (⟨some (.word input.consumed), none⟩, input) := by
  simp only [Counted.convert, counts]

theorem counted_other {conversion : Conversion} (other : conversion.kind ≠ .count)
    (progress : Progress σ) : (Directive.conversion conversion).counted progress = [] :=
  if_neg fun both => other both.1

theorem countedBy_granted {rules : Rules} {conversion : Conversion}
    {destination : Option Destination} {arguments : Arguments}
    (granted : rules.policy.destination w (part.completed + 1) conversion part.arguments =
      (.ok destination, arguments)) :
    countedBy rules (.conversion conversion) part =
      (Directive.conversion conversion).counted part := by
  unfold countedBy
  simp only [execute, convert, granted]
  by_cases counting : conversion.kind = .count
  · simp only [convert_count rules counting]
  · rw [counted_other counting]
    split <;> rfl

theorem store_counted {source : Type} {progress : Progress source} {conversion : Conversion}
    (counting : conversion.kind = .count) {policy : Policy} {index more : Nat}
    {destination : Option Destination} {further after : Arguments}
    (granted : policy.destination w index conversion progress.arguments = (.ok destination, after))
    (earlier : ∀ entry ∈ counts, entry.1 < progress.arguments.taken)
    (restated : further.Restated more front counts after) (page : CodePage) :
    (store page (destination.map (Destination.behind front.length))
        (some (.word (more + progress.input.consumed) : Content w)) further).Restated more front
      (counts ++ (Directive.conversion conversion).counted progress)
      (store page destination (some (.word progress.input.consumed : Content w)) after) := by
  have required : (conversion.requirement? w).isNone = false := by
    rw [Conversion.requirement?, counting]
    rfl
  have place := Policy.place_destination granted
  rw [required, Bool.or_false] at place
  cases suppressed : conversion.suppress with
  | true =>
    rw [suppressed, if_pos rfl] at place
    obtain rfl := Option.map_eq_none_iff.mp place
    have uncounted : (Directive.conversion conversion).counted progress = [] :=
      if_neg fun both => Bool.noConfusion (suppressed.symm.trans both.2)
    rw [uncounted, List.append_nil]
    exact restated
  | false =>
    rw [suppressed, if_neg Bool.false_ne_true] at place
    obtain ⟨stored, rfl, placed⟩ := Option.map_eq_some_iff.mp place
    have told : (Directive.conversion conversion).counted progress =
        [(stored.place, progress.input.consumed)] := by
      rw [placed]
      exact if_pos ⟨counting, suppressed⟩
    -- The counts told before stand in slots taken before.
    have apart : ∀ entry ∈ counts, entry.1 ≠ stored.place := by
      intro entry member
      rw [placed]
      exact Nat.ne_of_lt (earlier entry member)
    rw [told]
    exact store_count_restated restated page apart (Policy.place_lt_taken granted) _

/-- Both conversions halt alike and leave the input alike. What they store differs only if
it is a count. -/
theorem granted_succeeds (succeeds : Succeeds headway assigned front counts whole part)
    {rules : Rules} {conversion : Conversion} {destination : Option Destination}
    {further after : Arguments}
    (granted : rules.policy.destination w (part.completed + 1) conversion part.arguments =
      (.ok destination, after))
    (restated : further.Restated headway.consumed front counts after) :
    let room := destination.map Destination.room
    let read := part.input.convert rules (part.completed + 1) conversion room
    ∃ content : Option (Content w),
      (part.input.after headway).convert rules (headway.conversions + (part.completed + 1))
          conversion room =
        (⟨content, read.1.halt.map (Halt.after headway)⟩, read.2.after headway) ∧
      (store rules.locale.page (destination.map (Destination.behind front.length)) content
          further).Restated headway.consumed front
        (counts ++ (Directive.conversion conversion).counted part)
        (store rules.locale.page destination read.1.content after) := by
  intro room read
  by_cases counting : conversion.kind = .count
  · have counted := store_counted counting granted succeeds.arguments.earlier restated
      rules.locale.page
    simp only [read, convert_count rules counting]
    exact ⟨_, rfl, counted⟩
  · have apart : ∀ stored ∈ destination, ∀ entry ∈ counts, entry.1 ≠ stored.place := by
      rintro stored ⟨⟩ entry member
      rw [(Policy.takings_stored granted).1]
      exact Nat.ne_of_lt (succeeds.arguments.earlier entry member)
    have stored := store_restated restated rules.locale.page read.1.content apart
    rw [Counted.convert_after headway rules (part.completed + 1) counting,
      counted_other counting, List.append_nil]
    exact ⟨_, rfl, stored⟩

theorem convert_succeeds (succeeds : Succeeds headway assigned front counts whole part)
    (rules : Rules) (conversion : Conversion) :
    StepSucceeds headway assigned front
      (counts ++ countedBy rules (.conversion conversion) part) (whole.convert rules conversion)
      (part.convert rules conversion) := by
  have index : whole.completed + 1 = headway.conversions + (part.completed + 1) := by
    rw [succeeds.completed, Nat.add_assoc]
  obtain ⟨same, further⟩ := rules.policy.destination_restated headway succeeds.arguments w
    (part.completed + 1) conversion
  rw [convert, index]
  cases granted : rules.policy.destination w (part.completed + 1) conversion part.arguments with
  | mk destination after =>
    rw [granted] at same further
    generalize rules.policy.destination w (headway.conversions + (part.completed + 1)) conversion
      whole.arguments = taken at same further ⊢
    obtain ⟨destination', after'⟩ := taken
    cases destination with
    | error broken =>
      obtain rfl : destination' = .error (broken.after headway) := same
      simp only [countedBy, execute, convert, granted, List.append_nil]
      exact ⟨rfl, succeeds.input, further, succeeds.completed, succeeds.assigned⟩
    | ok destination =>
      obtain rfl : destination' = .ok (destination.map (Destination.behind front.length)) := same
      have room : (destination.map (Destination.behind front.length)).map Destination.room =
          destination.map Destination.room := by cases destination <;> rfl
      obtain ⟨content, read, stored⟩ := granted_succeeds succeeds granted further
      rw [countedBy_granted granted]
      simp only [convert, granted, room, succeeds.input, read]
      generalize part.input.convert rules (part.completed + 1) conversion
        (destination.map Destination.room) = read at stored ⊢
      have continued : Succeeds headway assigned front
          (counts ++ (Directive.conversion conversion).counted part)
          ⟨read.2.after headway, store rules.locale.page
            (destination.map (Destination.behind front.length)) content after',
            whole.completed, whole.assigned, whole.events⟩
          ⟨read.2, store rules.locale.page destination read.1.content after, part.completed,
            part.assigned, part.events⟩ :=
        ⟨rfl, stored, succeeds.completed, succeeds.assigned⟩
      cases read.1.halt with
      | some halt => exact ⟨rfl, continued⟩
      | none => exact ⟨rfl, continued.record conversion⟩

theorem execute_succeeds (succeeds : Succeeds headway assigned front counts whole part)
    (rules : Rules) (directive : Directive) :
    StepSucceeds headway assigned front (counts ++ countedBy rules directive part)
      (whole.execute rules directive) (part.execute rules directive) := by
  cases directive with
  | whitespace =>
    simp only [countedBy, Directive.counted, execute, List.append_nil]
    refine ⟨rfl, ?_, succeeds.arguments, succeeds.completed, succeeds.assigned⟩
    rw [succeeds.input]
    exact Counted.dropSpace_after headway part.input
  | literal code =>
    have none : countedBy rules (.literal code) part = [] := by
      unfold countedBy
      split <;> rfl
    simp only [none, execute, List.append_nil, succeeds.input, Counted.takeLiteral_after]
    exact ⟨rfl, rfl, succeeds.arguments, succeeds.completed, succeeds.assigned⟩
  | conversion conversion => exact convert_succeeds succeeds rules conversion

theorem run_succeeds (succeeds : Succeeds headway assigned front counts whole part)
    (rules : Rules) (directives : List Directive) :
    StepSucceeds headway assigned front (counts ++ part.counted rules directives)
      (whole.run rules directives) (part.run rules directives) := by
  induction directives generalizing whole part counts with
  | nil =>
    rw [counted, List.append_nil]
    exact ⟨rfl, succeeds⟩
  | cons directive directives ih =>
    obtain ⟨same, further⟩ := execute_succeeds succeeds rules directive
    rw [counted, run, run]
    unfold countedBy at further
    generalize whole.execute rules directive = ran at same further ⊢
    generalize part.execute rules directive = ran' at same further ⊢
    obtain ⟨halt, whole⟩ := ran
    obtain ⟨halt', part⟩ := ran'
    obtain rfl := same
    cases halt' with
    | some halt => exact ⟨rfl, further⟩
    | none =>
      have later := ih further
      rw [List.append_assoc] at later
      exact later

end Progress

end FormattedInput
