import FormattedInput.Proofs.PrintedFormat
import FormattedInput.Proofs.PrintedNumber
import FormattedInput.Proofs.Storing

namespace FormattedInput

variable {w : Width}

def Policy.capacities (policy : Policy) (capacity : Nat) : List Slot :=
  if policy.isSecure then [.capacity capacity] else []

/-- A value as it is printed, with the slots that it is to be scanned into and what they held
before. -/
inductive PrintedField (w : Width) where
  | integer (style : NumberStyle) (length : LengthModifier) (type : IntegerType) (value old : Int)
  | word (units old : Text w) (capacity : Nat)

namespace PrintedField

def text : PrintedField w → Text w
  | integer style _ _ value _ => .ofChars w (style.letters value)
  | word units _ _ => units

def asked : PrintedField w → Conversion
  | integer style length _ _ _ => ⟨false, none, length, style.kind⟩
  | word _ _ _ => ⟨false, none, .absent, .string false⟩

def slots (policy : Policy) : PrintedField w → List Slot
  | integer _ _ type _ old => [.integer type old]
  | word _ old capacity => .buffer w old :: policy.capacities capacity

def stored (policy : Policy) : PrintedField w → List Slot
  | integer _ _ type value _ => [.integer type value]
  | word units old capacity =>
    .buffer w (units ++ .nul :: old.drop (units.length + 1)) :: policy.capacities capacity

/-- A type has its value and the size of the modifier. A word has no blank in it, and its buffer
has room for a terminator behind it. -/
def Fits (policy : Policy) : PrintedField w → Prop
  | integer _ length type value _ => length.integerBits = type.bits ∧ type.Holds value
  | word units old capacity =>
    units ≠ [] ∧ (∀ unit ∈ units, unit.code ≠ 0 ∧ unit.isSpace = false) ∧
      units.length < old.length ∧ (policy.isSecure = true → units.length < capacity)

instance (policy : Policy) : (field : PrintedField w) → Decidable (field.Fits policy)
  | integer _ _ _ _ _ => inferInstanceAs (Decidable (_ ∧ _))
  | word _ _ _ => inferInstanceAs (Decidable (_ ∧ _ ∧ _ ∧ _))

end PrintedField

inductive Printed : List (PrintedField w) → Text w → Prop where
  | nothing : Printed [] []
  | last (field : PrintedField w) : Printed [field] field.text
  | further {field next : PrintedField w} {fields : List (PrintedField w)} {gap rest : Text w}
    (apart : gap ≠ []) (spaces : ∀ unit ∈ gap, unit.isSpace = true)
    (later : Printed (next :: fields) rest) :
    Printed (field :: next :: fields) (field.text ++ gap ++ rest)

theorem CodeUnit.isSpace_nulFree {unit : CodeUnit w} (space : unit.isSpace = true) :
    unit.code ≠ 0 := by
  intro nul
  cases w with
  | narrow => simp [isSpace, isSpace.asciiSpace, nul] at space
  | wide => simp [isSpace, isSpace.asciiSpace, nul] at space

namespace Format

def spaced (conversions : List Conversion) : List Directive :=
  (conversions.map .conversion).intersperse .whitespace

theorem spaced_further (asked next : Conversion) (conversions : List Conversion) :
    spaced (asked :: next :: conversions) =
      .conversion asked :: .whitespace :: spaced (next :: conversions) := rfl

theorem head_spaced (asked : Conversion) (conversions : List Conversion) :
    (spaced (asked :: conversions)).head? = some (.conversion asked) := by
  cases conversions <;> rfl

theorem print_spaced (conversions : List Conversion) :
    print w (spaced conversions) =
      (Text.ofChars w [' ']).intercalate (conversions.map (Conversion.spelling w)) := by
  induction conversions with
  | nil => rfl
  | cons asked conversions ih =>
    cases conversions with
    | nil =>
      simp only [List.map_cons, List.map_nil, List.intercalate_singleton]
      exact List.flatMap_singleton _ _
    | cons next conversions =>
      rw [spaced_further, print, List.flatMap_cons, List.flatMap_cons, ← print, ih]
      simp only [List.map_cons, List.intercalate_cons_cons, Directive.spelling, List.append_assoc]

theorem printable_spaced {conversions : List Conversion}
    (readable : ∀ asked ∈ conversions, Directive.Readable w (.conversion asked)) :
    Printable w (spaced conversions) := by
  induction conversions with
  | nil => exact ⟨nofun, .nil⟩
  | cons asked conversions ih =>
    obtain ⟨first, others⟩ := List.forall_mem_cons.mp readable
    cases conversions with
    | nil => exact ⟨List.forall_mem_singleton.mpr first, .singleton _⟩
    | cons next conversions =>
      obtain ⟨later, apart⟩ := ih others
      rw [spaced_further]
      constructor
      · exact List.forall_mem_cons.mpr ⟨first, List.forall_mem_cons.mpr ⟨trivial, later⟩⟩
      · apply List.isChain_cons.mpr
        refine ⟨fun _ _ => nofun, List.isChain_cons.mpr ⟨?_, apart⟩⟩
        intro behind member _ same
        rw [head_spaced, same] at member
        cases member

end Format

namespace PrintedField

variable {policy : Policy} {field : PrintedField w}

theorem text_ne_nil (fits : field.Fits policy) : field.text ≠ [] := by
  cases field with
  | integer style length type value old =>
    rw [text, style.ofChars_letters]
    exact List.append_ne_nil_of_right_ne_nil _ (style.spells value.natAbs).ne_nil
  | word units old capacity => exact fits.1

theorem text_visible (fits : field.Fits policy) :
    ∀ unit ∈ field.text, unit.code ≠ 0 ∧ unit.isSpace = false := by
  cases field with
  | integer style length type value old =>
    intro unit member
    obtain ⟨above, below⟩ := style.letters_code value unit member
    exact ⟨Nat.ne_of_gt (Nat.zero_lt_of_lt above), CodeUnit.visible_code above below⟩
  | word units old capacity => exact fits.2.1

theorem head_visible (fits : field.Fits policy) (more : Text w) :
    ∀ unit ∈ (field.text ++ more).head?, unit.isSpace = false := fun unit first =>
  (text_visible fits unit (Text.head_front (text_ne_nil fits) unit first)).2

theorem assigns_asked (field : PrintedField w) : field.asked.assigns = true := by
  cases field with
  | integer style length type value old => cases style <;> rfl
  | word units old capacity => rfl

theorem readable_asked (field : PrintedField w) :
    Directive.Readable w (.conversion field.asked) := by
  cases field with
  | integer style length type value old => cases style <;> exact ⟨nofun, nofun⟩
  | word units old capacity => exact ⟨nofun, nofun⟩

theorem length_stored (policy : Policy) (field : PrintedField w) :
    (field.stored policy).length = (field.slots policy).length := by
  cases field <;> rfl

end PrintedField

namespace Printed

variable {policy : Policy} {field : PrintedField w} {fields : List (PrintedField w)}
  {input : Text w}

theorem head_visible (printed : Printed (field :: fields) input) (fits : field.Fits policy) :
    ∀ unit ∈ input.head?, unit.isSpace = false := by
  cases printed with
  | last field => exact List.append_nil field.text ▸ field.head_visible fits []
  | further apart spaces later =>
    rw [List.append_assoc]
    exact field.head_visible fits _

theorem nulFree (printed : Printed fields input) (fits : ∀ field ∈ fields, field.Fits policy) :
    ∀ unit ∈ input, unit.code ≠ 0 := by
  induction printed with
  | nothing => exact nofun
  | last field =>
    intro unit member
    exact (field.text_visible (fits field List.mem_cons_self) unit member).1
  | further apart spaces later ih =>
    rename_i field next fields gap rest
    obtain ⟨first, others⟩ := List.forall_mem_cons.mp fits
    intro unit member
    rcases List.mem_append.mp member with front | behind
    · rcases List.mem_append.mp front with text | between
      · exact (field.text_visible first unit text).1
      · exact CodeUnit.isSpace_nulFree (spaces unit between)
    · exact ih others unit behind

end Printed

namespace Slot

theorem store_terminated (page : CodePage) {units old : Text w} (room : units.length < old.length) :
    store page (.terminated units) (.buffer w old) =
      .buffer w (units ++ .nul :: old.drop (units.length + 1)) := by
  have same : units.map (CodeUnit.convert page w) = units := by
    cases w <;> exact List.map_id units
  have count : (units ++ [CodeUnit.nul]).length = units.length + 1 := List.length_append
  rw [store, same, overwrite_front (count ▸ room), count, List.append_assoc]
  rfl

end Slot

namespace Arguments

variable {front behind : List Slot} {slot : Slot}

theorem next_here : (⟨front ++ slot :: behind, front.length⟩ : Arguments).next =
    (some slot, ⟨front ++ slot :: behind, front.length + 1⟩) := by
  simp [next]

theorem update_here (taken : Nat) (store : Slot → Slot) :
    (⟨front ++ slot :: behind, taken⟩ : Arguments).update front.length store =
      ⟨front ++ store slot :: behind, taken⟩ := by
  have changed : (front ++ slot :: behind).modify front.length store =
      front ++ store slot :: behind := by
    induction front with
    | nil => rfl
    | cons first front ih => exact congrArg (first :: ·) ih
  rw [update, changed]

end Arguments

namespace Counted

variable {input : Counted (TextSource w)} {more : Text w}

theorem takeText_word {units : Text w} {room : Nat} (shown : input.rest = units ++ more)
    (some_ : units ≠ []) (visible : ∀ unit ∈ units, unit.isSpace = false) (apart : more.Detached)
    (fits : units.length < room) :
    input.takeText .word (some room) none = ((units, .complete), input.advance units.length) := by
  have dropped : input.dropSpace = input := dropSpace_visible fun unit first =>
    visible unit (Text.head_front some_ unit (shown ▸ first))
  have accepted : (units ++ more).takeWhile TextShape.word.accepts = units := by
    apply Text.takeWhile_front
    · intro unit member
      rw [TextShape.accepts, visible unit member, Bool.not_false]
    · intro unit member
      rw [TextShape.accepts, apart unit member, Bool.not_true]
  have inside : units.take (room - 1) = units := List.take_of_length_le (by omega)
  have lacks : units.isEmpty = false := List.isEmpty_eq_false_iff.mpr some_
  have bound : TextShape.word.room room = room - 1 := rfl
  simp only [takeText, dropLeading, dropped, takeRun_text, TextShape.width,
    Text.upTo_none, shown, accepted, Option.map_some, bound, Text.upTo_some, inside,
    Nat.lt_irrefl, decide_false, Bool.false_eq_true, if_false, TextShape.lacks, lacks]

end Counted

namespace Policy

variable {policy : Policy} {index : Nat} {front behind : List Slot}

theorem destination_number (policy : Policy) (index : Nat) (style : NumberStyle)
    {length : LengthModifier} {type : IntegerType} (size : length.integerBits = type.bits)
    (old : Int) (front behind : List Slot) :
    policy.destination w index ⟨false, none, length, style.kind⟩
        ⟨front ++ .integer type old :: behind, front.length⟩ =
      (.ok (some ⟨front.length, 0⟩), ⟨front ++ .integer type old :: behind, front.length + 1⟩) := by
  have required : Conversion.requirement? w ⟨false, none, length, style.kind⟩ =
      some (.integer type.bits) := by
    rw [← size]
    cases style <;> rfl
  have alone : policy.pairsCapacity style.kind = false := by cases policy <;> cases style <;> rfl
  have roomless : style.kind.room 0 0 = 0 := by cases style <;> rfl
  have fits : (Requirement.integer type.bits).accepts (Slot.integer type old).kind = true :=
    beq_self_eq_true type.bits
  simp only [destination, required, Arguments.next_here, fits, if_true, roomFor_alone alone,
    Slot.size, roomless]
  rfl

theorem destination_word (policy : Policy) (index : Nat) {count capacity : Nat} {old : Text w}
    (room : count < old.length) (declared : policy.isSecure = true → count < capacity)
    (front behind : List Slot) :
    ∃ elements, count < elements ∧
      policy.destination w index ⟨false, none, .absent, .string false⟩
          ⟨front ++ .buffer w old :: (policy.capacities capacity ++ behind), front.length⟩ =
        (.ok (some ⟨front.length, elements⟩),
          ⟨front ++ .buffer w old :: (policy.capacities capacity ++ behind),
            front.length + ((policy.capacities capacity).length + 1)⟩) := by
  have required : Conversion.requirement? w ⟨false, none, .absent, .string false⟩ =
      some (.buffer w) := by cases w <;> rfl
  have fits : (Requirement.buffer w).accepts (Slot.buffer w old).kind = true :=
    beq_self_eq_true w
  simp only [destination, required, Arguments.next_here, fits, if_true]
  cases policy with
  | plain => exact ⟨old.length, room, rfl⟩
  | secure =>
    have inside : count < capacity := declared rfl
    refine ⟨min capacity old.length, Nat.lt_min.mpr ⟨inside, room⟩, ?_⟩
    have split : front ++ .buffer w old :: (Policy.secure.capacities capacity ++ behind) =
        (front ++ [.buffer w old]) ++ .capacity capacity :: behind := by
      rw [List.append_assoc]
      rfl
    have next : front.length + 1 = (front ++ [Slot.buffer w old]).length := by
      rw [List.length_append, List.length_singleton]
    have paired : Policy.secure.pairsCapacity (.string false) = true := rfl
    have taken (slots : List Slot) (same : slots = front ++ [.buffer w old] ++
        .capacity capacity :: behind) : takeCapacity index ⟨slots, front.length + 1⟩ =
          (.ok capacity, ⟨slots, front.length + 1 + 1⟩) := by
      rw [same, next, takeCapacity, Arguments.next_here]
      cases capacity with
      | zero => contradiction
      | succ capacity => rfl
    rw [roomFor_capacity paired, taken _ split]
    rfl

end Policy

namespace Progress

theorem execute_completes {σ : Type} [UnitSource σ w] {rules : Rules} {asked : Conversion}
    {before : Progress σ} {destination : Destination} {arguments : Arguments}
    {content : Content w} {input : Counted σ}
    (granted : rules.policy.destination w (before.completed + 1) asked before.arguments =
      (.ok (some destination), arguments))
    (read : before.input.convert rules (before.completed + 1) asked (some destination.room) =
      (⟨some content, none⟩, input)) :
    before.execute rules (.conversion asked) = (none, record asked { before with
      input
      arguments := arguments.update destination.place (Slot.store rules.locale.page content) }) := by
  simp only [execute, convert, granted, Option.map_some, read, store]

variable {rules : Rules} {before : Progress (TextSource w)} {front behind : List Slot}
  {more : Text w}

/-- A field is scanned whole and stores what was printed. -/
theorem execute_field {field : PrintedField w} (fits : field.Fits rules.policy)
    (shown : before.input.rest = field.text ++ more) (apart : more.Detached)
    (holds : before.arguments = ⟨front ++ (field.slots rules.policy ++ behind), front.length⟩) :
    ∃ after, before.execute rules (.conversion field.asked) = (none, after) ∧
      after.input = before.input.advance field.text.length ∧
      after.arguments = ⟨front ++ (field.stored rules.policy ++ behind),
        front.length + (field.slots rules.policy).length⟩ ∧
      after.assigned = before.assigned + 1 := by
  have assigned (progress : Progress (TextSource w)) :
      (progress.record field.asked).assigned = progress.assigned + 1 := by
    rw [record, if_pos field.assigns_asked]
  cases field with
  | integer style length type value old =>
    obtain ⟨size, holding⟩ := fits
    have granted := rules.policy.destination_number (w := w) (before.completed + 1) style size old
      front behind
    have read : before.input.convert rules (before.completed + 1)
        ⟨false, none, length, style.kind⟩ (some 0) = before.input.convertInteger style.base none := by
      cases style <;> rfl
    rw [Counted.convertInteger_printed style value shown apart] at read
    have whole := execute_completes (holds ▸ granted) read
    rw [Arguments.update_here, Slot.store, type.ofWord_wordOf holding] at whole
    exact ⟨_, whole, rfl, rfl, assigned _⟩
  | word units old capacity =>
    obtain ⟨some_, visible, room, declared⟩ := fits
    obtain ⟨elements, inside, granted⟩ := rules.policy.destination_word (before.completed + 1)
      room declared front behind
    have taken := Counted.takeText_word shown some_ (fun unit member => (visible unit member).2)
      apart inside
    have read : before.input.convert rules (before.completed + 1)
        ⟨false, none, .absent, .string false⟩ (some elements) =
          (⟨some (.terminated units), none⟩, before.input.advance units.length) := by
      simp only [Counted.convert, Counted.convertText, taken]
      rfl
    have whole := execute_completes (holds ▸ granted) read
    rw [Arguments.update_here, Slot.store_terminated rules.locale.page room] at whole
    exact ⟨_, whole, rfl, rfl, assigned _⟩

theorem run_printed {fields : List (PrintedField w)} {input : Text w}
    (printed : Printed fields input) (fits : ∀ field ∈ fields, field.Fits rules.policy)
    (shown : before.input.rest = input)
    (holds : before.arguments =
      ⟨front ++ fields.flatMap (PrintedField.slots rules.policy), front.length⟩) :
    ∃ after, before.run rules (Format.spaced (fields.map PrintedField.asked)) = (none, after) ∧
      after.input = before.input.advance input.length ∧
      after.arguments.slots = front ++ fields.flatMap (PrintedField.stored rules.policy) ∧
      after.assigned = before.assigned + fields.length := by
  -- What was stored so far stands in front of the slots that are still to be taken.
  induction printed generalizing before front with
  | nothing =>
    refine ⟨before, rfl, rfl, ?_, rfl⟩
    rw [holds]
    rfl
  | last field =>
    have alone : before.input.rest = field.text ++ [] := shown.trans (List.append_nil _).symm
    obtain ⟨after, executed, input, arguments, assigned⟩ :=
      execute_field (fits field List.mem_cons_self) alone nofun holds
    refine ⟨after, ?_, input, congrArg Arguments.slots arguments, assigned⟩
    simp only [List.map_cons, List.map_nil, Format.spaced, List.intersperse_singleton, run, executed]
  | further apart spaces later ih =>
    rename_i field next fields gap rest
    obtain ⟨first, others⟩ := List.forall_mem_cons.mp fits
    rw [List.append_assoc] at shown
    have bounded : (gap ++ rest).Detached := fun unit first =>
      spaces unit (Text.head_front apart unit first)
    obtain ⟨middle, executed, input, arguments, assigned⟩ :=
      execute_field first shown bounded holds
    have behind : middle.input.rest = gap ++ rest := by
      rw [input, Counted.rest_advance, shown]
      exact List.drop_left
    let ready : Progress (TextSource w) := { middle with input := middle.input.dropSpace }
    have dropped : ready.input = middle.input.advance gap.length :=
      Counted.dropSpace_shown behind spaces
        (later.head_visible (others next List.mem_cons_self))
    have left : ready.input.rest = rest := by
      rw [dropped, Counted.rest_advance, behind]
      exact List.drop_left
    have granted : ready.arguments = ⟨(front ++ field.stored rules.policy) ++
        (next :: fields).flatMap (PrintedField.slots rules.policy),
          (front ++ field.stored rules.policy).length⟩ := by
      rw [List.append_assoc, List.length_append, PrintedField.length_stored]
      exact arguments
    obtain ⟨after, ran, input', stored, assigned'⟩ := ih others left granted
    refine ⟨after, ?_, ?_, ?_, ?_⟩
    · simp only [List.map_cons, Format.spaced_further, run, executed]
      exact ran
    · rw [input', dropped, input, Counted.advance_advance, Counted.advance_advance,
        List.length_append, List.length_append, Nat.add_assoc]
    · rw [stored, List.append_assoc]
      rfl
    · have same : ready.assigned = middle.assigned := rfl
      rw [List.length_cons]
      omega

end Progress

/-- Printed values scan back. Integers of any slot type, printed in decimal, octal or hexadecimal,
and words that have room for a terminator are scanned from a line that holds them with any
whitespace between them, by the format that spells their conversions with a blank between them:
each slot holds the value that was printed, each buffer the word with a terminator, and nothing
of the line is left. -/
theorem printed_fields_scan_back (rules : Rules) {fields : List (PrintedField w)} {input : Text w}
    (fits : ∀ field ∈ fields, field.Fits rules.policy) (printed : Printed fields input)
    (few : fields.length ≤ 2147483647) :
    let format : Text w :=
      (Text.ofChars w [' ']).intercalate (fields.map fun field => field.asked.spelling w)
    let done := scan rules format (fields.flatMap (PrintedField.slots rules.policy))
      (TextSource.ofText input)
    done.report.returnValue = fields.length ∧ done.report.halt = none ∧
      done.slots = fields.flatMap (PrintedField.stored rules.policy) ∧
      done.report.consumed = input.length ∧ done.source.after = [] := by
  intro format done
  let start := Progress.start w rules (fields.flatMap (PrintedField.slots rules.policy))
    (TextSource.ofText input)
  have whole : input.beforeNul = input := Text.beforeNul_nulFree (printed.nulFree fits)
  have readable : ∀ asked ∈ fields.map PrintedField.asked,
      Directive.Readable w (.conversion asked) :=
    List.forall_mem_map.mpr fun field _ => field.readable_asked
  have printable := Format.printable_spaced readable
  have spelled : format = Format.print w (Format.spaced (fields.map PrintedField.asked)) := by
    rw [Format.print_spaced, List.map_map]
    rfl
  have nulFree : format.beforeNul = format :=
    Text.beforeNul_nulFree (spelled ▸ Format.nulFree_print printable.readable)
  -- The format is read back as the conversions it was spelled from, with blanks between.
  obtain ⟨directives, sound⟩ := Format.readFrom_printed printable 0
  rw [← spelled, ← nulFree] at directives sound
  have opened : start.input.rest = input := whole
  have given : start.arguments =
      ⟨[] ++ fields.flatMap (PrintedField.slots rules.policy), ([] : List Slot).length⟩ := rfl
  obtain ⟨after, ran, ended, stored, assigned⟩ := Progress.run_printed printed fits opened given
  rw [← directives] at ran
  have finished : start.runFormat rules (Format.read format) = (none, after) :=
    (Progress.runFormat_sound rules sound start).trans ran
  have count : after.assigned = fields.length := assigned.trans (Nat.zero_add _)
  have report : done.report.halt = none := congrArg Prod.fst finished
  have total : done.report.assigned = fields.length :=
    (congrArg (fun ended => ended.2.assigned) finished).trans count
  have last : (⟨done.source, done.report.consumed⟩ : Counted (TextSource w)) =
      start.input.advance input.length :=
    (congrArg (fun ended => ended.2.input) finished).trans ended
  obtain ⟨source, consumed⟩ := Counted.mk.inj last
  refine ⟨?_, report, ?_, consumed.trans (Nat.zero_add _), ?_⟩
  · have bound : Int32.maxValue.toInt = 2147483647 := rfl
    simp only [Report.returnValue, report, total, bound]
    omega
  · exact (congrArg (fun ended => ended.2.arguments.slots) finished).trans stored
  · rw [source]
    exact List.drop_eq_nil_of_le (Nat.le_of_eq (congrArg List.length opened))

/-- The least and the greatest value of two types, a word that fills its buffer, and a zero. -/
theorem extremes_scan_back :
    let least : PrintedField .narrow := .integer .announced .char ⟨true, .byte⟩ (-128) 0
    let greatest : PrintedField .narrow :=
      .integer (.hex true true) .longLong ⟨false, .double⟩ 18446744073709551615 0
    let word : PrintedField .narrow :=
      .word (Text.ofString .narrow "ab") (Text.ofString .narrow "xyz") 9
    let zero : PrintedField .narrow := .integer .announced .absent ⟨false, .word⟩ 0 1
    let fields := [least, greatest, word, zero]
    let input := Text.ofString .narrow "-128\t0XFFFFFFFFFFFFFFFF \nab 0"
    let done := scan ⟨.secure, .c⟩ (Text.ofString .narrow "%hhi %llx %s %i")
      (fields.flatMap (PrintedField.slots .secure)) (TextSource.ofText input)
    (∀ field ∈ fields, field.Fits .secure) ∧ Printed fields input ∧ fields.length ≤ 2147483647 ∧
      done.report.returnValue = 4 ∧
      done.slots = [.integer ⟨true, .byte⟩ (-128),
        .integer ⟨false, .double⟩ 18446744073709551615,
        .buffer .narrow (Text.ofString .narrow "ab" ++ [.nul]), .capacity 9,
        .integer ⟨false, .word⟩ 0] ∧
      done.source.after = [] := by
  intro least greatest word zero fields input done
  have fits : ∀ field ∈ fields, field.Fits .secure := by decide +kernel
  have gap (letters : List Char) (some_ : Text.ofChars .narrow letters ≠ [])
      (spaces : ∀ unit ∈ Text.ofChars .narrow letters, unit.isSpace = true)
      {field next : PrintedField .narrow} {later : List (PrintedField .narrow)}
      {rest : Text .narrow} (printed : Printed (next :: later) rest) :
      Printed (field :: next :: later) (field.text ++ Text.ofChars .narrow letters ++ rest) :=
    .further some_ spaces printed
  have printed : Printed fields (least.text ++ Text.ofChars .narrow ['\t'] ++ (greatest.text ++
      Text.ofChars .narrow [' ', '\n'] ++ (word.text ++ Text.ofChars .narrow [' '] ++
        zero.text))) :=
    gap _ (by decide) (by decide) (gap _ (by decide) (by decide)
      (gap _ (by decide) (by decide) (.last zero)))
  have same : least.text ++ Text.ofChars .narrow ['\t'] ++ (greatest.text ++
      Text.ofChars .narrow [' ', '\n'] ++ (word.text ++ Text.ofChars .narrow [' '] ++
        zero.text)) = input := by decide +kernel
  rw [same] at printed
  have few : fields.length ≤ 2147483647 := by decide
  obtain ⟨returned, -, stored, -, ended⟩ :=
    printed_fields_scan_back ⟨.secure, .c⟩ fits printed few
  have format : (Text.ofChars .narrow [' ']).intercalate (fields.map fun field =>
      field.asked.spelling .narrow) = Text.ofString .narrow "%hhi %llx %s %i" := by decide +kernel
  rw [format] at returned stored ended
  exact ⟨fits, printed, few, returned, stored.trans (by decide +kernel), ended⟩

end FormattedInput
