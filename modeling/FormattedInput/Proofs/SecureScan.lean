import FormattedInput.Proofs.Running
import FormattedInput.Proofs.Storing
import FormattedInput.Scan.Report
import FormattedInput.Source.Text

/-!
The secure policy is the plain policy over shorter buffers. A secure call hands in a
capacity after every slot that a text conversion or a count takes; a plain call with
those buffers cut to their capacities takes the same slots in step with it, finds the
same room in them and stores the same. The two differ only in how a text that has no
room halts the scan. -/
namespace FormattedInput

variable {w : Width}

/-- How a secure scan reports what halts a plain one. -/
def Halt.secured : Halt → Halt
  | destinationFull index capacity => .violation (.bufferTooSmall index capacity)
  | halt => halt

theorem Halt.secured_onInput {halt : Halt} (onInput : halt.isOnInput = true) :
    halt.secured = halt := by
  cases halt <;> first | rfl | contradiction

namespace ConversionKind

def takesCapacity : ConversionKind → Bool
  | string _ | chars _ | charClass _ | count => true
  | decimal | integer | octal | unsigned | hex | float | pointer | percent => false

end ConversionKind

/-- Whether the slot that the directive takes is followed by a capacity in a secure
call, if it takes one. -/
def Directive.capacityMark? (call : Width) (directive : Directive) : Option Bool :=
  match directive with
  | .conversion asked =>
    if asked.suppress || (asked.requirement? call).isNone then none
    else some asked.kind.takesCapacity
  | .whitespace | .literal _ => none

def capacityMarks (call : Width) (directives : List Directive) : List Bool :=
  directives.filterMap (Directive.capacityMark? call)

structure PairedSlot where
  slot : Slot
  capacity : Option Nat

namespace PairedSlot

def secure (paired : PairedSlot) : List Slot :=
  paired.slot :: paired.capacity.toList.map .capacity

/-- What a plain call hands in whose buffers are no longer than the capacities. -/
def plain (paired : PairedSlot) : Slot :=
  match paired.capacity with
  | none => paired.slot
  | some count => paired.slot.shorten count

def beyond (paired : PairedSlot) : Option (Σ w, Text w) :=
  paired.capacity.bind paired.slot.beyond

def pair (capacity : Nat → Nat) (marks : List Bool) (slots : List Slot) : List PairedSlot :=
  slots.mapIdx fun place slot =>
    ⟨slot, if marks[place]? = some true then some (capacity place) else none⟩

/-- The slots have positive capacities where they are marked and none where not. -/
def Fits : List Bool → List PairedSlot → Prop
  | mark :: marks, first :: rest =>
    first.capacity.isSome = mark ∧ (∀ count ∈ first.capacity, 0 < count) ∧ Fits marks rest
  | _, _ => True

theorem fits_pair {capacity : Nat → Nat} (positive : ∀ place, 0 < capacity place)
    (marks : List Bool) (slots : List Slot) : Fits marks (pair capacity marks slots) := by
  induction slots generalizing capacity marks with
  | nil => cases marks <;> exact trivial
  | cons slot slots ih =>
    cases marks with
    | nil => exact trivial
    | cons mark marks =>
      rw [pair, List.mapIdx_cons]
      refine ⟨?_, ?_, ih (fun place => positive (place + 1)) marks⟩
      · cases mark <;> rfl
      · intro count given
        cases mark with
        | false => simp at given
        | true =>
          obtain rfl : capacity 0 = count := by simpa using given
          exact positive 0

theorem kind_plain (paired : PairedSlot) : paired.plain.kind = paired.slot.kind := by
  unfold plain
  split
  · rfl
  · exact Slot.kind_shorten _ _

theorem plain_store (page : CodePage) (content : Content w) (paired : PairedSlot) :
    plain { paired with slot := Slot.store page content paired.slot } =
      Slot.store page content paired.plain := by
  obtain ⟨slot, capacity⟩ := paired
  cases capacity with
  | none => rfl
  | some count => exact (Slot.store_shorten page content count slot).symm

theorem beyond_store (page : CodePage) {content : Content w} (paired : PairedSlot)
    (short : ∀ count ∈ paired.capacity, content.extent ≤ count) :
    beyond { paired with slot := Slot.store page content paired.slot } = paired.beyond := by
  obtain ⟨slot, capacity⟩ := paired
  cases capacity with
  | none => rfl
  | some count => exact Slot.beyond_store page (short count rfl) slot

end PairedSlot

structure Arguments.Shadows (done rest : List PairedSlot) (secure plain : Arguments) : Prop where
  secureSlots : secure.slots = (done ++ rest).flatMap PairedSlot.secure
  secureTaken : secure.taken = (done.flatMap PairedSlot.secure).length
  plainSlots : plain.slots = (done ++ rest).map PairedSlot.plain
  plainTaken : plain.taken = done.length

namespace Arguments.Shadows

variable {done rest : List PairedSlot} {secure plain : Arguments}

theorem next_nil (shadows : Shadows done [] secure plain) :
    secure.next = (none, secure) ∧ plain.next = (none, plain) := by
  have secured : secure.slots[secure.taken]? = none := by
    rw [shadows.secureSlots, shadows.secureTaken, List.append_nil]
    exact List.getElem?_eq_none (Nat.le_refl _)
  have shown : plain.slots[plain.taken]? = none := by
    rw [shadows.plainSlots, shadows.plainTaken, List.append_nil]
    exact List.getElem?_eq_none (Nat.le_of_eq (List.length_map _))
  simp only [next, secured, shown]
  exact ⟨trivial, trivial⟩

theorem next_cons {first : PairedSlot} (shadows : Shadows done (first :: rest) secure plain) :
    secure.next = (some first.slot, { secure with taken := secure.taken + 1 }) ∧
      plain.next = (some first.plain, { plain with taken := plain.taken + 1 }) := by
  have secured : secure.slots[secure.taken]? = some first.slot := by
    rw [shadows.secureSlots, shadows.secureTaken, List.flatMap_append,
      List.getElem?_append_right (Nat.le_refl _), Nat.sub_self]
    rfl
  have shown : plain.slots[plain.taken]? = some first.plain := by
    rw [shadows.plainSlots, shadows.plainTaken, List.map_append,
      List.getElem?_append_right (Nat.le_of_eq (List.length_map _)), List.length_map, Nat.sub_self]
    rfl
  simp only [next, secured, shown]
  exact ⟨trivial, trivial⟩

theorem next_capacity {slot : Slot} {count : Nat}
    (shadows : Shadows done (⟨slot, some count⟩ :: rest) secure plain) :
    next { secure with taken := secure.taken + 1 } =
      (some (.capacity count), { secure with taken := secure.taken + 2 }) := by
  have secured : secure.slots[secure.taken + 1]? = some (.capacity count) := by
    rw [shadows.secureSlots, shadows.secureTaken, List.flatMap_append,
      List.getElem?_append_right (Nat.le_add_right _ _), Nat.add_sub_cancel_left]
    rfl
  simp only [next, secured]

theorem pass {first : PairedSlot} (shadows : Shadows done (first :: rest) secure plain) :
    Shadows (done ++ [first]) rest
      { secure with taken := secure.taken + 1 + first.capacity.toList.length }
      { plain with taken := plain.taken + 1 } where
  secureSlots := by rw [List.append_assoc]; exact shadows.secureSlots
  secureTaken := by
    simp [shadows.secureTaken, PairedSlot.secure, Nat.add_assoc, Nat.add_comm 1]
  plainSlots := by rw [List.append_assoc]; exact shadows.plainSlots
  plainTaken := by rw [List.length_append, ← shadows.plainTaken]; rfl

theorem modify_between {α : Type} (front : List α) (middle : α) (back : List α) (change : α → α) :
    (front ++ middle :: back).modify front.length change = front ++ change middle :: back :=
  List.modifyTailIdx_add (List.modifyHead change) 0 front (middle :: back)

theorem store {first : PairedSlot} (page : CodePage) (content : Content w)
    (shadows : Shadows (done ++ [first]) rest secure plain) :
    Shadows (done ++ [{ first with slot := Slot.store page content first.slot }]) rest
      (secure.update (done.flatMap PairedSlot.secure).length (Slot.store page content))
      (plain.update done.length (Slot.store page content)) where
  secureSlots := by
    have split (middle : PairedSlot) : (done ++ [middle] ++ rest).flatMap PairedSlot.secure =
        done.flatMap PairedSlot.secure ++ middle.slot ::
          (middle.capacity.toList.map .capacity ++ rest.flatMap PairedSlot.secure) := by
      simp [PairedSlot.secure]
    rw [update, shadows.secureSlots, split, split, modify_between]
  secureTaken := by
    rw [update, shadows.secureTaken]
    simp [PairedSlot.secure]
  plainSlots := by
    have split (middle : PairedSlot) : (done ++ [middle] ++ rest).map PairedSlot.plain =
        done.map PairedSlot.plain ++ middle.plain :: rest.map PairedSlot.plain := by simp
    have place : done.length = (done.map PairedSlot.plain).length := (List.length_map _).symm
    rw [update, shadows.plainSlots, split, split, place, modify_between, PairedSlot.plain_store]
  plainTaken := by
    rw [update, shadows.plainTaken, List.length_append, List.length_append]
    rfl

end Arguments.Shadows

theorem Policy.takeCapacity_next (index : Nat) {count : Nat} {arguments after : Arguments}
    (positive : 0 < count) (next : arguments.next = (some (.capacity count), after)) :
    takeCapacity index arguments = (.ok count, after) := by
  cases count with
  | zero => contradiction
  | succ count => simp only [takeCapacity, next]

theorem roomFor_alike {done rest : List PairedSlot} {secure plain : Arguments} (index : Nat)
    {kind : ConversionKind} {first : PairedSlot}
    (shadows : secure.Shadows done (first :: rest) plain)
    (marked : first.capacity.isSome = kind.takesCapacity)
    (positive : ∀ count ∈ first.capacity, 0 < count) :
    ∃ room further,
      Policy.secure.roomFor index kind first.slot { secure with taken := secure.taken + 1 } =
        (.ok room, further) ∧
      Policy.plain.roomFor index kind first.plain { plain with taken := plain.taken + 1 } =
        (.ok room, { plain with taken := plain.taken + 1 }) ∧
      further.Shadows (done ++ [first]) rest { plain with taken := plain.taken + 1 } ∧
      ∀ count ∈ first.capacity, max room 1 ≤ count := by
  have passed := shadows.pass
  obtain ⟨slot, capacity⟩ := first
  cases capacity with
  | none =>
    refine ⟨0, _, ?_, ?_, passed, fun _ given => nomatch given⟩
    · cases kind <;> first | rfl | contradiction
    · cases kind <;> first | rfl | contradiction
  | some count =>
    have enough := positive count rfl
    have taken := Policy.takeCapacity_next index enough shadows.next_capacity
    have size : (PairedSlot.plain ⟨slot, some count⟩).size = min count slot.size :=
      Slot.size_shorten count slot
    cases kind with
    | string swapped | chars swapped | charClass set =>
      refine ⟨min count slot.size, _, ?_, ?_, passed, ?_⟩
      · simp only [Policy.roomFor, Policy.bufferRoom, taken]
        rfl
      · simp only [Policy.roomFor, Policy.bufferRoom, size]
      · intro other given
        obtain rfl := Option.some.inj given
        omega
    | count =>
      refine ⟨0, _, ?_, rfl, passed, ?_⟩
      · simp only [Policy.roomFor, Policy.takeCountCapacity, taken]
        rfl
      · intro other given
        obtain rfl := Option.some.inj given
        omega
    | decimal | integer | octal | unsigned | hex | float | pointer | percent => contradiction

/-- The two policies take the same destination, or refuse for the same reason. -/
inductive TakesAlike (done rest : List PairedSlot) (marks : List Bool) :
    Except Violation (Option Destination) × Arguments →
    Except Violation (Option Destination) × Arguments → Prop where
  | nothing {secure plain : Arguments} (shadows : secure.Shadows done rest plain)
      (fits : PairedSlot.Fits marks rest) :
    TakesAlike done rest marks (.ok none, secure) (.ok none, plain)
  | refused {broken : Violation} {secure plain : Arguments}
      (secured : secure.slots = (done ++ rest).flatMap PairedSlot.secure)
      (shown : plain.slots = (done ++ rest).map PairedSlot.plain) :
    TakesAlike done rest marks (.error broken, secure) (.error broken, plain)
  | slot {first : PairedSlot} {later : List PairedSlot} {room : Nat} {secure plain : Arguments}
      (split : rest = first :: later) (shadows : secure.Shadows (done ++ [first]) later plain)
      (fits : PairedSlot.Fits marks later) (inside : ∀ count ∈ first.capacity, max room 1 ≤ count) :
    TakesAlike done rest marks
      (.ok (some ⟨(done.flatMap PairedSlot.secure).length, room⟩), secure)
      (.ok (some ⟨done.length, room⟩), plain)

theorem destination_alike {done rest : List PairedSlot} {secure plain : Arguments} (index : Nat)
    {conversion : Conversion} {marks : List Bool}
    (fits : PairedSlot.Fits
      (((Directive.conversion conversion).capacityMark? w).toList ++ marks) rest)
    (shadows : secure.Shadows done rest plain) :
    TakesAlike done rest marks (Policy.secure.destination w index conversion secure)
      (Policy.plain.destination w index conversion plain) := by
  cases suppressed : conversion.suppress with
  | true =>
    simp only [Directive.capacityMark?, suppressed, Bool.true_or, if_true, Option.toList_none,
      List.nil_append] at fits
    simp only [Policy.destination, suppressed]
    exact .nothing shadows fits
  | false =>
    cases required : conversion.requirement? w with
    | none =>
      simp only [Directive.capacityMark?, required, Option.isNone_none, Bool.or_true, if_true,
        Option.toList_none, List.nil_append] at fits
      simp only [Policy.destination, suppressed, required]
      exact .nothing shadows fits
    | some requirement =>
      simp only [Directive.capacityMark?, suppressed, required, Option.isNone_some, Bool.or_self,
        Bool.false_eq_true, if_false, Option.toList_some, List.singleton_append] at fits
      simp only [Policy.destination, suppressed, required]
      cases rest with
      | nil =>
        obtain ⟨secured, shown⟩ := shadows.next_nil
        simp only [secured, shown]
        exact .refused shadows.secureSlots shadows.plainSlots
      | cons first later =>
        obtain ⟨secured, shown⟩ := shadows.next_cons
        obtain ⟨marked, positive, further⟩ := fits
        -- Both lists stand at the same slot, and cutting it has not changed its kind.
        simp only [secured, shown, first.kind_plain]
        split
        · obtain ⟨room, after, found, found', passed, inside⟩ :=
            roomFor_alike index shadows marked positive
          simp only [found, found']
          rw [shadows.plainTaken] at passed ⊢
          rw [shadows.secureTaken]
          exact .slot rfl passed further inside
        · exact .refused shadows.secureSlots shadows.plainSlots

namespace Counted

variable {σ : Type} [UnitSource σ w]

theorem takeLiteral_secured (code : Nat) (input : Counted σ) :
    (input.takeLiteral code).1.map Halt.secured = (input.takeLiteral code).1 := by
  cases matched : (input.takeLiteral code).1 with
  | none => rfl
  | some halt =>
    have onInput := (takeLiteral_unmatched (Prod.ext matched rfl)).onInput
    rw [Option.map_some, Halt.secured_onInput onInput]

theorem convert_secured (locale : Locale) (index : Nat) (conversion : Conversion)
    (elements : Option Nat) (input : Counted σ) :
    let plain := input.convert ⟨.plain, locale⟩ index conversion elements
    input.convert ⟨.secure, locale⟩ index conversion elements =
      (⟨plain.1.content, plain.1.halt.map Halt.secured⟩, plain.2) := by
  obtain ⟨suppress, width, length, kind⟩ := conversion
  cases kind with
  | decimal | unsigned | integer | octal | hex | pointer =>
    simp only [convert, convertInteger]
    split
    · rfl
    · rename_i failed
      rw [Option.map_some, Halt.secured_onInput (takeInteger_unmatched failed).onInput]
  | float =>
    simp only [convert, convertFloat]
    split
    · rfl
    · rename_i failed
      rw [Option.map_some, Halt.secured_onInput (takeDecimal_unmatched failed).onInput]
  | string swapped | chars swapped | charClass set =>
    simp only [convert, convertText]
    split
    · rfl
    · rfl
    · rename_i failed
      rw [Option.map_some, Halt.secured_onInput (takeText_unmatched failed).onInput]
  | count => rfl
  | percent =>
    simp only [convert, takeLiteral_secured]

end Counted

/-- The slots have the capacities that they had, and their buffers hold beyond them what
they held. -/
structure PairedSlot.Kept (start final : List PairedSlot) : Prop where
  capacities : final.map PairedSlot.capacity = start.map PairedSlot.capacity
  beyond : final.map PairedSlot.beyond = start.map PairedSlot.beyond

namespace Progress

variable {σ : Type} [UnitSource σ w]

structure Shadows (start done rest : List PairedSlot) (secure plain : Progress σ) : Prop where
  input : secure.input = plain.input
  completed : secure.completed = plain.completed
  assigned : secure.assigned = plain.assigned
  arguments : secure.arguments.Shadows done rest plain.arguments
  kept : PairedSlot.Kept start (done ++ rest)

structure EndsAlike (start : List PairedSlot) (secure plain : Progress σ) : Prop where
  input : secure.input = plain.input
  assigned : secure.assigned = plain.assigned
  slots : ∃ final, secure.arguments.slots = final.flatMap PairedSlot.secure ∧
    plain.arguments.slots = final.map PairedSlot.plain ∧ PairedSlot.Kept start final

theorem Shadows.endsAlike {start done rest : List PairedSlot} {secure plain : Progress σ}
    (shadows : Shadows start done rest secure plain) : EndsAlike start secure plain where
  input := shadows.input
  assigned := shadows.assigned
  slots := ⟨_, shadows.arguments.secureSlots, shadows.arguments.plainSlots, shadows.kept⟩

/-- Two outcomes of one step that agree but for the policy's halt. If the plain scan goes
on, so does the secure one, with slots that fit the marks to come. -/
structure StepsAlike (start : List PairedSlot) (marks : List Bool)
    (secure plain : Option Halt × Progress σ) : Prop where
  halt : secure.1 = plain.1.map Halt.secured
  ends : EndsAlike start secure.2 plain.2
  resumes : plain.1 = none →
    ∃ done rest, Shadows start done rest secure.2 plain.2 ∧ PairedSlot.Fits marks rest

variable {start done rest : List PairedSlot} {secure plain : Progress σ} {marks : List Bool}

theorem stepsAlike_read (conversion : Conversion) (halt : Option Halt)
    (shadows : Shadows start done rest secure plain) (fits : PairedSlot.Fits marks rest) :
    StepsAlike start marks
      (match halt.map Halt.secured with
        | some halt => (some halt, secure)
        | none => (none, secure.record conversion))
      (match halt with
        | some halt => (some halt, plain)
        | none => (none, plain.record conversion)) := by
  cases halt with
  | some halt => exact ⟨rfl, shadows.endsAlike, nofun⟩
  | none =>
    have recorded : Shadows start done rest (secure.record conversion) (plain.record conversion) :=
      ⟨shadows.input, congrArg (· + 1) shadows.completed,
        by simp only [record, shadows.assigned], shadows.arguments, shadows.kept⟩
    exact ⟨rfl, recorded.endsAlike, fun _ => ⟨done, rest, recorded, fits⟩⟩

theorem convert_alike (locale : Locale) {conversion : Conversion}
    (fits : PairedSlot.Fits
      (((Directive.conversion conversion).capacityMark? w).toList ++ marks) rest)
    (shadows : Shadows start done rest secure plain) :
    StepsAlike start marks (secure.convert ⟨.secure, locale⟩ conversion)
      (plain.convert ⟨.plain, locale⟩ conversion) := by
  have alike := destination_alike (plain.completed + 1) fits shadows.arguments
  unfold convert
  simp only [shadows.completed, shadows.input, Counted.convert_secured]
  generalize Policy.secure.destination w (plain.completed + 1) conversion secure.arguments = taken
    at alike
  generalize Policy.plain.destination w (plain.completed + 1) conversion plain.arguments = taken'
    at alike
  cases alike with
  | nothing passed further =>
    simp only [Option.map_none, store]
    exact stepsAlike_read conversion _ ⟨rfl, rfl, shadows.assigned, passed, shadows.kept⟩ further
  | refused secured shown =>
    simp only
    exact ⟨rfl, ⟨rfl, shadows.assigned, _, secured, shown, shadows.kept⟩, nofun⟩
  | @slot first later room after after' split passed further inside =>
    subst split
    have kept := shadows.kept
    simp only [Option.map_some]
    cases stored : (plain.input.convert ⟨.plain, locale⟩ (plain.completed + 1) conversion
        (some room)).1.content with
    | none =>
      rw [← List.singleton_append, ← List.append_assoc] at kept
      exact stepsAlike_read conversion _ ⟨rfl, rfl, shadows.assigned, passed, kept⟩ further
    | some content =>
      have reach := Counted.extent_convert stored
      have written := passed.store locale.page content
      -- What was stored reaches no further than the capacity.
      have same : PairedSlot.Kept start (done ++
          [{ first with slot := Slot.store locale.page content first.slot }] ++ later) := by
        have untouched := PairedSlot.beyond_store locale.page first
          fun count given => Nat.le_trans reach (inside count given)
        constructor
        · simpa using kept.capacities
        · simpa [untouched] using kept.beyond
      exact stepsAlike_read conversion _ ⟨rfl, rfl, shadows.assigned, written, same⟩ further

theorem capacityMarks_cons (call : Width) (directive : Directive) (directives : List Directive) :
    capacityMarks call (directive :: directives) =
      (directive.capacityMark? call).toList ++ capacityMarks call directives := by
  unfold capacityMarks
  rw [List.filterMap_cons]
  cases directive.capacityMark? call <;> rfl

theorem execute_alike (locale : Locale) (directive : Directive)
    (fits : PairedSlot.Fits ((directive.capacityMark? w).toList ++ marks) rest)
    (shadows : Shadows start done rest secure plain) :
    StepsAlike start marks (secure.execute ⟨.secure, locale⟩ directive)
      (plain.execute ⟨.plain, locale⟩ directive) := by
  cases directive with
  | whitespace =>
    have moved : Shadows start done rest { secure with input := secure.input.dropSpace }
        { plain with input := plain.input.dropSpace } :=
      ⟨congrArg Counted.dropSpace shadows.input, shadows.completed, shadows.assigned,
        shadows.arguments, shadows.kept⟩
    exact ⟨rfl, moved.endsAlike, fun _ => ⟨done, rest, moved, fits⟩⟩
  | literal code =>
    have same := shadows.input
    have moved : Shadows start done rest
        { secure with input := (secure.input.takeLiteral code).2 }
        { plain with input := (plain.input.takeLiteral code).2 } :=
      ⟨by rw [same], shadows.completed, shadows.assigned, shadows.arguments, shadows.kept⟩
    refine ⟨?_, moved.endsAlike, fun _ => ⟨done, rest, moved, fits⟩⟩
    simp only [execute, Counted.takeLiteral_secured, same]
  | conversion conversion => exact convert_alike locale fits shadows

theorem run_alike (locale : Locale) (directives : List Directive)
    (fits : PairedSlot.Fits (capacityMarks w directives) rest)
    (shadows : Shadows start done rest secure plain) :
    let secured := secure.run ⟨.secure, locale⟩ directives
    let shown := plain.run ⟨.plain, locale⟩ directives
    secured.1 = shown.1.map Halt.secured ∧ EndsAlike start secured.2 shown.2 := by
  -- The slots taken so far and those to come change from one directive to the next.
  induction directives generalizing done rest secure plain with
  | nil => exact ⟨rfl, shadows.endsAlike⟩
  | cons directive directives ih =>
    rw [capacityMarks_cons] at fits
    obtain ⟨halt, ends, resumes⟩ := execute_alike locale directive fits shadows
    simp only [run]
    generalize secure.execute ⟨.secure, locale⟩ directive = secured at halt ends resumes
    generalize plain.execute ⟨.plain, locale⟩ directive = shown at halt ends resumes
    obtain ⟨stopped, after⟩ := shown
    obtain ⟨stopped', after'⟩ := secured
    cases stopped with
    | some found =>
      obtain rfl : stopped' = some found.secured := halt
      exact ⟨rfl, ends⟩
    | none =>
      obtain rfl : stopped' = none := halt
      obtain ⟨done, rest, further, fits⟩ := resumes rfl
      exact ih fits further

theorem runFormat_alike (locale : Locale) (reading : Format.Reading)
    (fits : PairedSlot.Fits (capacityMarks w (reading.steps.map Prod.fst)) rest)
    (shadows : Shadows start done rest secure plain) :
    let secured := secure.runFormat ⟨.secure, locale⟩ reading
    let shown := plain.runFormat ⟨.plain, locale⟩ reading
    secured.1 = shown.1.map Halt.secured ∧ EndsAlike start secured.2 shown.2 := by
  obtain ⟨halt, ends⟩ := run_alike locale (reading.steps.map Prod.fst) fits shadows
  simp only [runFormat]
  generalize secure.run ⟨.secure, locale⟩ (reading.steps.map Prod.fst) = secured at halt ends
  generalize plain.run ⟨.plain, locale⟩ (reading.steps.map Prod.fst) = shown at halt ends
  obtain ⟨stopped, after⟩ := shown
  obtain ⟨stopped', after'⟩ := secured
  cases stopped with
  | some found =>
    obtain rfl : stopped' = some found.secured := halt
    exact ⟨rfl, ends⟩
  | none =>
    obtain rfl : stopped' = none := halt
    refine ⟨?_, ends⟩
    cases reading.error <;> rfl

end Progress

theorem Report.returnValue_secured {secure plain : Report}
    (assigned : secure.assigned = plain.assigned)
    (halt : secure.halt = plain.halt.map Halt.secured) :
    secure.returnValue = plain.returnValue := by
  unfold returnValue
  rw [assigned, halt]
  cases plain.halt with
  | none => rfl
  | some halt => cases halt <;> rfl

/-- Let capacities follow the slots of a plain call that its format pairs with them, and
let the buffers of the plain call be cut to them. The secure scan then returns, counts,
consumes and stores what the plain one does and halts as it does, but that a full
destination is a violation. What lies beyond a capacity stays. -/
theorem secure_scan_alike {σ : Type} [UnitSource σ w] (locale : Locale) (format : Text w)
    (slots : List Slot) (capacity : Nat → Nat) (positive : ∀ place, 0 < capacity place)
    (source : σ) :
    let marks := capacityMarks w ((Format.read format).steps.map Prod.fst)
    let paired := PairedSlot.pair capacity marks slots
    let secure := scan ⟨.secure, locale⟩ format (paired.flatMap PairedSlot.secure) source
    let plain := scan ⟨.plain, locale⟩ format (paired.map PairedSlot.plain) source
    secure.report.returnValue = plain.report.returnValue ∧
    secure.report.assigned = plain.report.assigned ∧
    secure.report.consumed = plain.report.consumed ∧
    secure.source = plain.source ∧
    secure.report.halt = plain.report.halt.map Halt.secured ∧
    ∃ final, secure.slots = final.flatMap PairedSlot.secure ∧
      plain.slots = final.map PairedSlot.plain ∧ PairedSlot.Kept paired final := by
  intro marks paired secure plain
  have fits : PairedSlot.Fits marks paired := PairedSlot.fits_pair positive marks slots
  have started : Progress.Shadows paired [] paired
      (Progress.start w ⟨.secure, locale⟩ (paired.flatMap PairedSlot.secure) source)
      (Progress.start w ⟨.plain, locale⟩ (paired.map PairedSlot.plain) source) :=
    ⟨rfl, rfl, rfl, ⟨rfl, rfl, rfl, rfl⟩, rfl, rfl⟩
  obtain ⟨halt, ends⟩ := Progress.runFormat_alike locale (Format.read format) fits started
  have assigned : secure.report.assigned = plain.report.assigned := ends.assigned
  have halted : secure.report.halt = plain.report.halt.map Halt.secured := halt
  exact ⟨Report.returnValue_secured assigned halted, assigned,
    congrArg Counted.consumed ends.input, congrArg Counted.source ends.input, halted, ends.slots⟩

theorem secure_word_overflows :
    let format := Text.ofString .narrow "%s"
    let marks := capacityMarks .narrow ((Format.read format).steps.map Prod.fst)
    let paired := PairedSlot.pair (fun _ => 2) marks [.buffer .narrow [.nul, .nul, .nul]]
    let source := TextSource.ofText (Text.ofString .narrow "abc")
    (∀ place : Nat, 0 < (fun _ => 2) place) ∧
      (scan ⟨.secure, .c⟩ format (paired.flatMap PairedSlot.secure) source).report.halt =
        some (.violation (.bufferTooSmall 1 2)) := by
  intro format marks paired source
  have positive : ∀ place : Nat, 0 < (fun _ => 2) place := fun _ => Nat.zero_lt_two
  obtain ⟨-, -, -, -, halt, -⟩ := secure_scan_alike .c format
    [.buffer .narrow [.nul, .nul, .nul]] (fun _ => 2) positive source
  have full : (scan ⟨.plain, .c⟩ format (paired.map PairedSlot.plain) source).report.halt =
      some (.destinationFull 1 2) := by decide +kernel
  exact ⟨positive, halt.trans (congrArg (Option.map Halt.secured) full)⟩

end FormattedInput
