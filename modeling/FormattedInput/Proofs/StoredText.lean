import FormattedInput.Proofs.Destination
import FormattedInput.Proofs.LongestPrefix
import FormattedInput.Proofs.Storing
import FormattedInput.Proofs.TextScan
import Mathlib.Data.List.Infix

namespace FormattedInput

variable {w : Width}

def ConversionKind.shape? : ConversionKind → Option TextShape
  | string _ => some .word
  | chars _ => some .characters
  | charClass set => some (.members set)
  | decimal | integer | octal | unsigned | hex | float | pointer | count | percent => none

def TextShape.terminator (w : Width) (shape : TextShape) : Text w :=
  if shape.isTerminated then [.nul] else []

/-- How a text conversion ends that may store into some elements of a buffer: the units it takes
of the front that it accepts, what the buffer holds then, and why the scan stops there. -/
inductive TextStored (rules : Rules) (index capacity : Nat) (shape : TextShape)
    (width : Option Nat) (start : Counted (TextSource w)) (front : Text w) {target : Width}
    (old : Text target) : Nat → Text target → Option Halt → Prop where
  | nothing (terminated : shape.isTerminated = true) (empty : front = []) :
    TextStored rules index capacity shape width start front old 0 old
      (some (if start.rest = [] then .inputExhausted start.consumed
        else .mismatch start.consumed))
  | overflow {fitting : Nat} (some_ : shape.isTerminated = true → front ≠ [])
      (full : capacity < front.length + (shape.terminator target).length)
      (fills : fitting = capacity - (shape.terminator target).length) :
    TextStored rules index capacity shape width start front old fitting
      (((front.take fitting).map (CodeUnit.convert rules.locale.page target)
        ++ old.drop fitting).set 0 .nul)
      (some (rules.policy.overflow index capacity))
  | whole {need : Nat} (some_ : shape.isTerminated = true → front ≠ [])
      (needs : need = front.length + (shape.terminator target).length) (fits : need ≤ capacity)
      (filled : shape = .characters → front.length = width.getD 1) :
    TextStored rules index capacity shape width start front old front.length
      (front.map (CodeUnit.convert rules.locale.page target) ++ shape.terminator target
        ++ old.drop need) none
  | short (single : shape = .characters) (fits : front.length ≤ capacity)
      (lacks : front.length < width.getD 1) :
    TextStored rules index capacity shape width start front old front.length
      (front.map (CodeUnit.convert rules.locale.page target) ++ old.drop front.length)
      (some (.inputExhausted (start.consumed + front.length)))

theorem TextShape.room_terminator (target : Width) (shape : TextShape) (capacity : Nat) :
    shape.room capacity = capacity - (shape.terminator target).length := by
  cases shape <;> rfl

namespace Slot

variable {page : CodePage} {units : Text w} {target : Width} {old : Text target}

theorem overwrite_converted (fits : units.length ≤ old.length) :
    overwrite (units.map (CodeUnit.convert page target)) old =
      units.map (CodeUnit.convert page target) ++ old.drop units.length := by
  have inside : (units.map (CodeUnit.convert page target)).length ≤ old.length := by
    rwa [List.length_map]
  rw [overwrite_front inside, List.length_map]

theorem store_cut (fits : units.length ≤ old.length) :
    store page (.cut units) (.buffer target old) =
      .buffer target
        ((units.map (CodeUnit.convert page target) ++ old.drop units.length).set 0 .nul) := by
  rw [store, overwrite_converted fits]
  cases units.map (CodeUnit.convert page target) ++ old.drop units.length <;> rfl

theorem store_text (fits : units.length ≤ old.length) :
    store page (.text units) (.buffer target old) =
      .buffer target (units.map (CodeUnit.convert page target) ++ old.drop units.length) := by
  rw [store, overwrite_converted fits]

theorem store_complete {shape : TextShape}
    (fits : units.length + (shape.terminator target).length ≤ old.length) :
    store page (if shape.isTerminated then .terminated units else .text units)
        (.buffer target old) =
      .buffer target (units.map (CodeUnit.convert page target) ++ shape.terminator target ++
        old.drop (units.length + (shape.terminator target).length)) := by
  have inside : (units.map (CodeUnit.convert page target) ++
      shape.terminator target).length ≤ old.length := by
    rwa [List.length_append, List.length_map]
  have stored := overwrite_front inside
  rw [List.length_append, List.length_map] at stored
  rw [← stored, TextShape.terminator]
  cases shape.isTerminated with
  | true => rfl
  | false =>
    simp only [Bool.false_eq_true, if_false, List.append_nil]
    rfl

end Slot

namespace Policy

theorem bufferRoom_within {policy : Policy} {index size capacity : Nat}
    {arguments granted : Arguments}
    (grants : policy.bufferRoom index size arguments = (.ok capacity, granted)) :
    capacity ≤ size ∧ (capacity = 0 → size = 0) := by
  cases policy with
  | plain =>
    cases grants
    exact ⟨Nat.le_refl size, id⟩
  | secure =>
    obtain ⟨given, -⟩ := Prod.mk.inj grants
    unfold takeCapacity at given
    split at given
    · contradiction
    · rename_i count rest some_ shown
      have bounded : min count size = capacity := Except.ok.inj given
      have positive : count ≠ 0 := some_
      omega
    · contradiction

end Policy

namespace Counted

variable {shape : TextShape} {capacity : Nat} {width : Option Nat}
  {start : Counted (TextSource w)}

/-- The units in sight that a text of the shape may take one after the other. -/
def textFront (shape : TextShape) (width : Option Nat) (start : Counted (TextSource w)) : Text w :=
  (Text.upTo (shape.width width) start.rest).takeWhile shape.accepts

def textRun (shape : TextShape) (width : Option Nat) (start : Counted (TextSource w)) :
    Run (TextSource w) w :=
  let front := start.textFront shape width
  ⟨front, false, (shape.width width).map (· - front.length), start.advance front.length⟩

theorem longest_textFront (shape : TextShape) (width : Option Nat)
    (start : Counted (TextSource w)) :
    (Text.upTo (shape.width width) start.rest).Longest
      (fun front => ∀ unit ∈ front, shape.accepts unit = true) (start.textFront shape width) :=
  Text.longest_run shape.accepts _

theorem textFront_characters (width : Option Nat) (start : Counted (TextSource w)) :
    start.textFront .characters width = start.rest.take (width.getD 1) :=
  List.takeWhile_eq_self_iff.mpr fun _ _ => rfl

theorem textFront_short (short : (start.textFront .characters width).length < width.getD 1) :
    start.textFront .characters width = start.rest := by
  rw [textFront_characters] at short ⊢
  rw [List.length_take] at short
  exact List.take_of_length_le (by omega)

theorem lacks_textRun :
    shape.lacks (start.textRun shape width) = true ↔
      shape.isTerminated = true ∧ start.textFront shape width = [] ∨
        shape = .characters ∧ (start.textFront shape width).length < width.getD 1 := by
  cases shape with
  | word | members set => simp [TextShape.lacks, textRun, TextShape.isTerminated]
  | characters =>
    simp [TextShape.lacks, textRun, TextShape.isTerminated, TextShape.width,
      Nat.sub_eq_zero_iff_le]

theorem takeRun_overflow (full : shape.room capacity < (start.textFront shape width).length) :
    start.takeRun shape.accepts (some (shape.room capacity)) (shape.width width) =
      ⟨(start.textFront shape width).take (shape.room capacity), true,
        (shape.width width).map (· - shape.room capacity),
        start.advance (shape.room capacity)⟩ := by
  have cut := List.length_take_of_le (Nat.le_of_lt full)
  rw [textFront] at full cut ⊢
  simp only [takeRun_text, Text.upTo_some, cut, full, decide_true]

theorem takeRun_fits (fits : (start.textFront shape width).length ≤ shape.room capacity) :
    start.takeRun shape.accepts (some (shape.room capacity)) (shape.width width) =
      start.textRun shape width := by
  have whole := List.take_of_length_le fits
  rw [textFront] at whole
  simp only [takeRun_text, Text.upTo_some, textRun, textFront, whole, Nat.lt_irrefl, decide_false]

/-- What was read is stored in one of the ways to end, and the input is as far on. -/
def StoresText (rules : Rules) (index capacity : Nat) (shape : TextShape) (width : Option Nat)
    (start : Counted (TextSource w)) {target : Width} (old : Text target)
    (read : Result w × Counted (TextSource w)) : Prop :=
  ∃ took stored content, read.1.content = some content ∧
    Slot.store rules.locale.page content (.buffer target old) = .buffer target stored ∧
    read.2 = start.advance took ∧
    TextStored rules index capacity shape width start (start.textFront shape width) old took
      stored read.1.halt

section Storing

variable {rules : Rules} {index : Nat} {target : Width} {old : Text target}
  (inside : capacity ≤ old.length)
include inside

theorem overflow_stored (full : shape.room capacity < (start.textFront shape width).length) :
    StoresText rules index capacity shape width start old
      (⟨some (.cut ((start.textFront shape width).take (shape.room capacity))),
        some (rules.policy.overflow index capacity)⟩, start.advance (shape.room capacity)) := by
  have room := shape.room_terminator target capacity
  have cut := List.length_take_of_le (Nat.le_of_lt full)
  refine ⟨_, _, _, rfl, Slot.store_cut (by omega), rfl, ?_⟩
  rw [cut]
  refine .overflow ?_ (by omega) room
  intro _ empty
  rw [empty] at full
  exact Nat.not_lt_zero _ full

theorem lacking_stored (fits : (start.textFront shape width).length ≤ shape.room capacity)
    (lacks : shape.lacks (start.textRun shape width) = true) :
    StoresText rules index capacity shape width start old
      (⟨some (.text (start.textFront shape width)),
        some (start.textRun shape width).input.unmatched.1⟩,
        (start.textRun shape width).input.unmatched.2) := by
  rcases lacks_textRun.mp lacks with ⟨terminated, empty⟩ | ⟨rfl, short⟩
  · refine ⟨0, old, _, rfl, ?_, ?_, ?_⟩
    · rw [empty]
      rfl
    · rw [textRun, empty]
      exact unmatched_stays start
    · rw [textRun, empty, List.length_nil, advance_zero, unmatched_text]
      exact .nothing terminated rfl
  · have exhausted : (start.textRun .characters width).input.unmatched.1 =
        .inputExhausted (start.consumed + (start.textFront .characters width).length) := by
      rw [textRun, textFront_short short]
      exact unmatched_end start
    refine ⟨_, _, _, rfl, Slot.store_text (fits.trans inside), unmatched_stays _, ?_⟩
    rw [exhausted]
    exact .short rfl fits short

theorem whole_stored (fits : (start.textFront shape width).length ≤ shape.room capacity)
    (lacks : ¬ shape.lacks (start.textRun shape width) = true) :
    StoresText rules index capacity shape width start old
      (⟨some (if shape.isTerminated then .terminated (start.textFront shape width)
          else .text (start.textFront shape width)), none⟩,
        (start.textRun shape width).input) := by
  have some_ : shape.isTerminated = true → start.textFront shape width ≠ [] :=
    fun terminated empty => lacks (lacks_textRun.mpr (.inl ⟨terminated, empty⟩))
  -- A terminator has room because the front is not empty: its room is one short of the capacity.
  have needs : (start.textFront shape width).length + (shape.terminator target).length ≤
      capacity := by
    rw [shape.room_terminator target] at fits
    cases terminated : shape.isTerminated with
    | true =>
      have positive := List.length_pos_iff.mpr (some_ terminated)
      omega
    | false =>
      rw [TextShape.terminator, if_neg (Bool.eq_false_iff.mp terminated)] at fits ⊢
      exact fits
  refine ⟨_, _, _, rfl, Slot.store_complete (needs.trans inside), rfl,
    .whole some_ rfl needs ?_⟩
  rintro rfl
  have enough := fun short => lacks (lacks_textRun.mpr (.inr ⟨rfl, short⟩))
  have most := List.length_take_le (width.getD 1) start.rest
  rw [← textFront_characters] at most
  exact Nat.le_antisymm most (Nat.not_lt.mp enough)

/-- A text is read and stored in one of the ways to end, by the front that it accepts. -/
theorem convertText_stored (rules : Rules) (index : Nat) (shape : TextShape) (width : Option Nat)
    (input : Counted (TextSource w)) :
    StoresText rules index capacity shape width (input.dropLeading shape) old
      (input.convertText rules.policy index shape (some capacity) width) := by
  rw [convertText, takeText, Option.map_some]
  generalize input.dropLeading shape = start
  by_cases full : shape.room capacity < (start.textFront shape width).length
  · rw [takeRun_overflow full]
    exact overflow_stored inside full
  · have fits := Nat.not_lt.mp full
    rw [takeRun_fits fits]
    by_cases lacks : shape.lacks (start.textRun shape width) = true
    · simp only [lacks, if_true]
      exact lacking_stored inside fits lacks
    · simp only [lacks]
      exact whole_stored inside fits lacks

end Storing

end Counted

namespace Policy

theorem destination_buffer {policy : Policy} {index : Nat} {conversion : Conversion}
    {shape : TextShape} {target : Width} {old : Text target} {capacity : Nat}
    {arguments after granted : Arguments} (reads : conversion.kind.shape? = some shape)
    (stores : conversion.suppress = false)
    (asks : conversion.requirement? w = some (.buffer target))
    (next : arguments.next = (some (.buffer target old), after))
    (grants : policy.bufferRoom index old.length after = (.ok capacity, granted)) :
    policy.destination w index conversion arguments =
      (.ok (some ⟨arguments.taken, capacity⟩), granted) := by
  have accepted : (Requirement.buffer target).accepts (Slot.buffer target old).kind = true :=
    beq_self_eq_true target
  have room : policy.roomFor index conversion.kind (.buffer target old) after =
      (.ok capacity, granted) := by
    cases kind : conversion.kind with
    | string swapped | chars swapped | charClass set => exact grants
    | decimal | integer | octal | unsigned | hex | float | pointer | count | percent =>
      rw [kind] at reads
      contradiction
  simp only [destination, stores, asks, next, accepted, if_true, room, Except.map]

end Policy

namespace Counted

theorem dropLeading_leading {kind : ConversionKind} {shape : TextShape}
    (reads : kind.shape? = some shape) (input : Counted (TextSource w)) :
    input.dropLeading shape = input.advance (kind.leading input.rest) := by
  cases kind with
  | string swapped =>
    cases reads
    exact dropSpace_leading rfl input
  | chars swapped | charClass set =>
    cases reads
    exact (advance_zero input).symm
  | decimal | integer | octal | unsigned | hex | float | pointer | count | percent =>
    contradiction

theorem convert_shape {conversion : Conversion} {shape : TextShape}
    (reads : conversion.kind.shape? = some shape) (rules : Rules) (index : Nat)
    (elements : Option Nat) (input : Counted (TextSource w)) :
    input.convert rules index conversion elements =
      input.convertText rules.policy index shape elements conversion.width := by
  obtain ⟨suppress, width, length, kind⟩ := conversion
  cases kind with
  | string swapped | chars swapped | charClass set =>
    cases reads
    rfl
  | decimal | integer | octal | unsigned | hex | float | pointer | count | percent =>
    contradiction

end Counted

namespace Progress

theorem convert_granted {rules : Rules} {conversion : Conversion}
    {progress : Progress (TextSource w)} {destination : Option Destination} {granted : Arguments}
    (taken : rules.policy.destination w (progress.completed + 1) conversion progress.arguments =
      (.ok destination, granted)) :
    let read := progress.input.convert rules (progress.completed + 1) conversion
      (destination.map Destination.room)
    let result := progress.convert rules conversion
    result.1 = read.1.halt ∧ result.2.input = read.2 ∧
      result.2.arguments = store rules.locale.page destination read.1.content granted := by
  simp only [convert, taken]
  generalize progress.input.convert rules (progress.completed + 1) conversion
    (destination.map Destination.room) = read
  cases halted : read.1.halt with
  | some halt => exact ⟨rfl, rfl, rfl⟩
  | none => exact ⟨rfl, rfl, rfl⟩

theorem store_within {page : CodePage} {content : Content w} {capacity : Nat} {target : Width}
    {old stored : Text target} (short : content.extent ≤ max capacity 1)
    (some_ : capacity = 0 → old.length = 0)
    (changed : Slot.store page content (.buffer target old) = .buffer target stored) :
    stored.length = old.length ∧ stored.drop capacity = old.drop capacity := by
  have length : stored.length = old.length := by
    have size := Slot.size_store page content (.buffer target old)
    rwa [changed] at size
  refine ⟨length, ?_⟩
  cases capacity with
  | zero =>
    have empty := some_ rfl
    rw [List.length_eq_zero_iff.mp empty, List.length_eq_zero_iff.mp (length.trans empty)]
  | succ capacity =>
    rw [Nat.max_eq_left (Nat.le_add_left 1 capacity)] at short
    have kept := Slot.beyond_store page short (.buffer target old)
    rw [changed] at kept
    exact eq_of_heq (Sigma.mk.inj (Option.some.inj kept)).2

/-- A text conversion stores exactly the longest beginning that it accepts, or what fits of it,
and writes nothing behind the elements that the policy granted. -/
theorem text_stored (rules : Rules) {conversion : Conversion} {shape : TextShape}
    {target : Width} {old : Text target} {capacity : Nat} {after granted : Arguments}
    (progress : Progress (TextSource w)) (reads : conversion.kind.shape? = some shape)
    (stores : conversion.suppress = false)
    (asks : conversion.requirement? w = some (.buffer target))
    (next : progress.arguments.next = (some (.buffer target old), after))
    (grants : rules.policy.bufferRoom (progress.completed + 1) old.length after =
      (.ok capacity, granted)) :
    let start := progress.input.advance (conversion.kind.leading progress.input.rest)
    let result := progress.convert rules conversion
    ∃ front took stored,
      (Text.upTo (shape.width conversion.width) start.rest).Longest
        (fun text => ∀ unit ∈ text, shape.accepts unit = true) front ∧
      TextStored rules (progress.completed + 1) capacity shape conversion.width start front old
        took stored result.1 ∧
      result.2.input = start.advance took ∧
      result.2.arguments.taken = granted.taken ∧
      result.2.arguments.slots =
        progress.arguments.slots.set progress.arguments.taken (.buffer target stored) ∧
      stored.length = old.length ∧ stored.drop capacity = old.drop capacity := by
  intro start result
  obtain ⟨inside, some_⟩ := Policy.bufferRoom_within grants
  have begins : progress.input.dropLeading shape = start :=
    Counted.dropLeading_leading reads progress.input
  obtain ⟨took, stored, content, read, changed, moved, ending⟩ :=
    Counted.convertText_stored inside rules (progress.completed + 1) shape conversion.width
      progress.input
  have short : content.extent ≤ max capacity 1 := Counted.extent_convertText read
  obtain ⟨length, kept⟩ := store_within short some_ changed
  rw [begins] at moved ending
  have took_next := Policy.destination_buffer reads stores asks next grants
  have same : granted.slots = progress.arguments.slots := by
    have taken := rules.policy.slots_destination w (progress.completed + 1) conversion
      progress.arguments
    rwa [took_next] at taken
  have slots : granted.slots.modify progress.arguments.taken
      (Slot.store rules.locale.page content) =
        progress.arguments.slots.set progress.arguments.taken (.buffer target stored) := by
    rw [same, List.modify_eq_set_getElem?, Arguments.next_shown next]
    exact congrArg _ changed
  obtain ⟨halt, input, arguments⟩ := convert_granted took_next
  rw [Option.map_some, Counted.convert_shape reads] at halt input arguments
  rw [read] at arguments
  have taken : result.2.arguments.taken = granted.taken :=
    (congrArg Arguments.taken arguments).trans rfl
  exact ⟨start.textFront shape conversion.width, took, stored,
    Counted.longest_textFront shape conversion.width start, halt ▸ ending, input.trans moved,
    taken, (congrArg Arguments.slots arguments).trans slots, length, kept⟩

theorem long_word_stored :
    let old := Text.ofString .narrow "abcdefgh"
    let word : Conversion := ⟨false, none, .absent, .string false⟩
    let start := Progress.start .narrow ⟨.secure, .c⟩ [.buffer .narrow old, .capacity 4]
      (TextSource.ofText (Text.ofString .narrow " hello"))
    let result := start.convert ⟨.secure, .c⟩ word
    result.1 = some (.violation (.bufferTooSmall 1 4)) ∧ result.2.input.consumed = 4 ∧
      ∃ stored, result.2.arguments.slots = [.buffer .narrow stored, .capacity 4] ∧
        stored.head? = some .nul ∧ stored.length = 8 ∧ stored.drop 4 = old.drop 4 := by
  intro old word start result
  have reads : word.kind.shape? = some .word := rfl
  obtain ⟨front, took, stored, -, -, -, -, slots, length, kept⟩ :=
    text_stored ⟨.secure, .c⟩ start reads rfl rfl rfl rfl
  refine ⟨by decide +kernel, by decide +kernel, stored, slots, ?_, length, kept⟩
  have computed : result.2.arguments.slots =
      [.buffer .narrow (.nul :: Text.ofString .narrow "eldefgh"), .capacity 4] := by
    decide +kernel
  rw [slots] at computed
  cases computed
  rfl

end Progress

end FormattedInput
