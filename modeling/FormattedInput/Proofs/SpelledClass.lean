import FormattedInput.Proofs.FormatWalk
import FormattedInput.Proofs.PrintedFormat

namespace FormattedInput

variable {w : Width}

/-- A member, or a range between two bounds of which either may be the lower one. -/
inductive ClassItem (w : Width) where
  | single (unit : CodeUnit w)
  | range (first last : CodeUnit w)
deriving DecidableEq

namespace ClassItem

def spelling : ClassItem w → Text w
  | single unit => [unit]
  | range first last => [first, .ofNat w '-'.toNat, last]

def Inside (unit : CodeUnit w) : Prop := unit.code ≠ 0 ∧ unit.is ']' = false

/-- No item begins with a dash, but a range may end with one. -/
def WellSpelled : ClassItem w → Prop
  | single unit => Inside unit ∧ unit.is '-' = false
  | range first last => Inside first ∧ first.is '-' = false ∧ Inside last

instance (unit : CodeUnit w) : Decidable (Inside unit) := inferInstanceAs (Decidable (_ ∧ _))

instance : DecidablePred (WellSpelled (w := w))
  | single _ => inferInstanceAs (Decidable (_ ∧ _))
  | range _ _ => inferInstanceAs (Decidable (_ ∧ _))

def Covers (code : Nat) : ClassItem w → Prop
  | single unit => code = unit.code
  | range first last => min first.code last.code ≤ code ∧ code ≤ max first.code last.code

instance (code : Nat) : DecidablePred (Covers (w := w) code)
  | single _ => inferInstanceAs (Decidable (_ = _))
  | range _ _ => inferInstanceAs (Decidable (_ ∧ _))

def bounds : ClassItem w → Nat × Nat
  | single unit => (unit.code, unit.code)
  | range first last => (min first.code last.code, max first.code last.code)

theorem covers_iff (code : Nat) (item : ClassItem w) :
    item.Covers code ↔ item.bounds.1 ≤ code ∧ code ≤ item.bounds.2 := by
  cases item with
  | single unit =>
    simp only [Covers, bounds]
    omega
  | range first last => exact Iff.rfl

theorem inside_dash : Inside (CodeUnit.ofNat w '-'.toNat) := by
  constructor
  · rw [CodeUnit.code_ofAscii (by decide)]
    decide
  · exact CodeUnit.is_ofAscii (by decide) ']'

theorem inside_spelling {item : ClassItem w} (spelled : item.WellSpelled) :
    ∀ unit ∈ item.spelling, Inside unit := by
  cases item with
  | single unit => exact List.forall_mem_singleton.mpr spelled.1
  | range first last =>
    simp only [spelling, List.forall_mem_cons]
    exact ⟨spelled.1, inside_dash, spelled.2.2, nofun⟩

end ClassItem

/-- What a class lists: a closing bracket and a dash that stand in front, then items, then a dash
in front of the bracket that closes the class. -/
structure ClassMembers (w : Width) where
  bracket : Bool
  dash : Bool
  items : List (ClassItem w)
  lastDash : Bool
  wellSpelled : ∀ item ∈ items, item.WellSpelled

namespace ClassMembers

def mark (w : Width) (letter : Char) (there : Bool) : Text w :=
  .ofChars w (if there then [letter] else [])

def listed (members : ClassMembers w) : Text w :=
  mark w '-' members.dash ++ (members.items.flatMap ClassItem.spelling ++
    mark w '-' members.lastDash)

def spelling (members : ClassMembers w) : Text w := mark w ']' members.bracket ++ members.listed

def Lists (members : ClassMembers w) (code : Nat) : Prop :=
  members.bracket ∧ code = ']'.toNat ∨ (members.dash ∨ members.lastDash) ∧ code = '-'.toNat ∨
    ∃ item ∈ members.items, item.Covers code

instance (members : ClassMembers w) (code : Nat) : Decidable (members.Lists code) :=
  inferInstanceAs (Decidable (_ ∨ _))

def markRanges (letter : Char) (there : Bool) : List (Nat × Nat) :=
  if there then [(letter.toNat, letter.toNat)] else []

def ranges (members : ClassMembers w) : List (Nat × Nat) :=
  markRanges ']' members.bracket ++ (markRanges '-' members.dash ++
    (members.items.map ClassItem.bounds ++ markRanges '-' members.lastDash))

theorem mem_markRanges {letter : Char} {there : Bool} {code : Nat} :
    (∃ range ∈ markRanges letter there, range.1 ≤ code ∧ code ≤ range.2) ↔
      there ∧ code = letter.toNat := by
  cases there with
  | false => simp [markRanges]
  | true =>
    simp only [markRanges, if_true, List.mem_singleton, exists_eq_left, true_and]
    omega

theorem lists_iff (members : ClassMembers w) (code : Nat) :
    members.Lists code ↔ ∃ range ∈ members.ranges, range.1 ≤ code ∧ code ≤ range.2 := by
  have items : (∃ range ∈ members.items.map ClassItem.bounds, range.1 ≤ code ∧ code ≤ range.2) ↔
      ∃ item ∈ members.items, item.Covers code := by
    simp only [List.mem_map, exists_exists_and_eq_and, ClassItem.covers_iff]
  simp only [ranges, List.mem_append, or_and_right, exists_or, mem_markRanges, items, Lists]
  rw [or_assoc, or_comm (a := members.lastDash = true ∧ _)]

theorem inside_listed (members : ClassMembers w) :
    ∀ unit ∈ members.listed, ClassItem.Inside unit := by
  have dash (there : Bool) : ∀ unit ∈ mark w '-' there, ClassItem.Inside unit := by
    cases there with
    | false =>
      rw [mark, if_neg Bool.false_ne_true, Text.ofChars_nil]
      exact List.forall_mem_nil _
    | true =>
      rw [mark, if_pos rfl, Text.ofChars_ascii (by decide)]
      exact List.forall_mem_singleton.mpr ClassItem.inside_dash
  simp only [listed, List.forall_mem_append, List.forall_mem_flatMap]
  exact ⟨dash _, fun item member => ClassItem.inside_spelling (members.wellSpelled item member),
    dash _⟩

end ClassMembers

/-- A class behind its opening bracket. It lists something, and a caret stands in front only to
negate it. -/
structure ClassBody (w : Width) where
  negated : Bool
  members : ClassMembers w
  nonempty : members.spelling ≠ []
  caret : negated = false → ∀ unit ∈ members.spelling.head?, unit.is '^' = false

namespace ClassBody

open ClassMembers (mark)

def spelling (body : ClassBody w) : Text w :=
  mark w '^' body.negated ++ (body.members.spelling ++ .ofChars w [']'])

theorem nulFree_spelling (body : ClassBody w) : ∀ unit ∈ body.spelling, unit.code ≠ 0 := by
  have marked {letter : Char} (plain : 0 < letter.toNat ∧ letter.toNat < 128) (there : Bool) :
      ∀ unit ∈ mark w letter there, unit.code ≠ 0 := by
    apply Format.nulFree_ofChars
    cases there with
    | false => exact List.forall_mem_nil _
    | true => exact List.forall_mem_singleton.mpr plain
  simp only [spelling, ClassMembers.spelling, List.forall_mem_append]
  exact ⟨marked (by decide) _,
    ⟨marked (by decide) _, fun unit member => (body.members.inside_listed unit member).1⟩,
    marked (by decide) true⟩

end ClassBody

namespace Format

open ClassMembers (mark markRanges)

/-- What follows a member that begins no range: a dash only if the class ends behind it. -/
def Apart (more : Text w) : Prop :=
  ∀ dash last later, more = dash :: last :: later → ¬ (dash.is '-' && !last.is ']') = true

theorem apart_head {more : Text w} (other : ∀ unit ∈ more.head?, unit.is '-' = false) :
    Apart more := by
  rintro dash last later rfl
  rw [other dash rfl, Bool.false_and]
  exact Bool.false_ne_true

theorem readRanges_item {item : ClassItem w} (spelled : item.WellSpelled) {more : Text w}
    (apart : Apart more) :
    readRanges (item.spelling ++ more) =
      (readRanges more).map fun (ranges, rest) => (item.bounds :: ranges, rest) := by
  cases item with
  | single unit => exact readRanges_alone (Bool.eq_false_iff.mp spelled.1.2) apart
  | range first last => exact readRanges_between spelled.1.2 spelled.2.2.2 more

theorem apart_item {item : ClassItem w} (spelled : item.WellSpelled) (more : Text w) :
    Apart (item.spelling ++ more) := by
  apply apart_head
  cases item with
  | single unit =>
    rintro _ ⟨⟩
    exact spelled.2
  | range first last =>
    rintro _ ⟨⟩
    exact spelled.2.1

theorem apart_items {items : List (ClassItem w)} (spelled : ∀ item ∈ items, item.WellSpelled)
    {more : Text w} (apart : Apart more) :
    Apart (items.flatMap ClassItem.spelling ++ more) := by
  cases items with
  | nil => exact apart
  | cons item items =>
    rw [List.flatMap_cons, List.append_assoc]
    exact apart_item (spelled item List.mem_cons_self) _

theorem readRanges_items {items : List (ClassItem w)}
    (spelled : ∀ item ∈ items, item.WellSpelled) {more : Text w} (apart : Apart more) :
    readRanges (items.flatMap ClassItem.spelling ++ more) =
      (readRanges more).map fun (ranges, rest) => (items.map ClassItem.bounds ++ ranges, rest) := by
  induction items with
  | nil => exact Option.map_id'.symm
  | cons item items ih =>
    obtain ⟨first, others⟩ := List.forall_mem_cons.mp spelled
    rw [List.flatMap_cons, List.append_assoc, readRanges_item first (apart_items others apart),
      ih others, Option.map_map]
    rfl

theorem readRanges_dash (there : Bool) {more : Text w} (apart : Apart more) :
    readRanges (mark w '-' there ++ more) =
      (readRanges more).map fun (ranges, rest) => (markRanges '-' there ++ ranges, rest) := by
  cases there with
  | false =>
    rw [mark, if_neg Bool.false_ne_true, Text.ofChars_nil]
    exact Option.map_id'.symm
  | true =>
    have opens : (CodeUnit.ofNat w '-'.toNat).is ']' = false := CodeUnit.is_ofAscii (by decide) ']'
    have code : (CodeUnit.ofNat w '-'.toNat).code = '-'.toNat := CodeUnit.code_ofAscii (by decide)
    rw [mark, if_pos rfl, Text.ofChars_ascii (by decide), List.singleton_append,
      readRanges_alone (Bool.eq_false_iff.mp opens) apart, code]
    rfl

theorem apart_close (there : Bool) (back : Text w) :
    Apart (mark w '-' there ++ (.ofChars w [']'] ++ back)) := by
  have other : (CodeUnit.ofNat w ']'.toNat).is '-' = false := CodeUnit.is_ofAscii (by decide) '-'
  have closes : (CodeUnit.ofNat w ']'.toNat).is ']' = true := CodeUnit.is_ofAscii (by decide) ']'
  rw [mark, Text.ofChars_ascii (by decide : ']'.toNat < 128)]
  cases there with
  | false =>
    rw [if_neg Bool.false_ne_true, Text.ofChars_nil]
    apply apart_head
    rintro _ ⟨⟩
    exact other
  | true =>
    rw [if_pos rfl, Text.ofChars_ascii (by decide)]
    rintro dash last later ⟨⟩
    rw [closes, Bool.not_true, Bool.and_false]
    exact Bool.false_ne_true

theorem readRanges_listed (members : ClassMembers w) (back : Text w) :
    readRanges (members.listed ++ (.ofChars w [']'] ++ back)) =
      some (markRanges '-' members.dash ++ (members.items.map ClassItem.bounds ++
        markRanges '-' members.lastDash), back) := by
  have closes : (CodeUnit.ofNat w ']'.toNat).is ']' = true := CodeUnit.is_ofAscii (by decide) ']'
  have ended : readRanges (.ofChars w [']'] ++ back) = some ([], back) := by
    rw [Text.ofChars_ascii (by decide)]
    exact readRanges_closed closes back
  have final : Apart (.ofChars w [']'] ++ back) := by
    have alone := apart_close false back
    rwa [mark, if_neg Bool.false_ne_true, Text.ofChars_nil] at alone
  have last := apart_close members.lastDash back
  rw [ClassMembers.listed, List.append_assoc, List.append_assoc,
    readRanges_dash members.dash (apart_items members.wellSpelled last),
    readRanges_items members.wellSpelled last, readRanges_dash members.lastDash final, ended]
  simp only [Option.map_some, List.append_nil]

theorem readClass_body (body : ClassBody w) (back : Text w) :
    readClass (body.spelling ++ back) = some (⟨body.negated, body.members.ranges⟩, back) := by
  obtain ⟨negated, members, nonempty, caret⟩ := body
  -- Neither mark in front is read where it is not spelled, since a member stands there.
  have uncaret (plain : negated = false) : ∀ unit ∈ (mark w ']' members.bracket ++
      (members.listed ++ (.ofChars w [']'] ++ back))).head?, unit.is '^' = false := by
    have front : mark w ']' members.bracket ++ members.listed = members.spelling := rfl
    rw [← List.append_assoc, front, List.head?_append_of_ne_nil _ nonempty]
    exact caret plain
  have unbracket (plain : members.bracket = false) :
      ∀ unit ∈ (members.listed ++ (.ofChars w [']'] ++ back)).head?, unit.is ']' = false := by
    have going : members.listed ≠ [] := by
      rwa [ClassMembers.spelling, plain, mark, if_neg Bool.false_ne_true, Text.ofChars_nil]
        at nonempty
    rw [List.head?_append_of_ne_nil _ going]
    intro unit first
    exact (members.inside_listed unit (List.mem_of_head? first)).2
  have negates := readMark_spelled (by decide) negated uncaret
  have leads := readMark_spelled (by decide) members.bracket unbracket
  have split : ClassBody.spelling ⟨negated, members, nonempty, caret⟩ ++ back =
      mark w '^' negated ++ (mark w ']' members.bracket ++
        (members.listed ++ (.ofChars w [']'] ++ back))) := by
    simp only [ClassBody.spelling, ClassMembers.spelling, List.append_assoc]
  rw [split]
  unfold mark at negates leads ⊢
  simp only [readClass, negates, leads, readRanges_listed]
  rfl

theorem readDirective_class {asked : Conversion} (fits : FitsWidth asked.width) {more rest : Text w}
    {set : CharClass} (found : readClass more = some (set, rest)) :
    readDirective (.ofChars w ('%' :: asked.marks ++ ['[']) ++ more) =
      .ok (.conversion { asked with kind := .charClass set }, rest) := by
  have opens : (CodeUnit.ofNat w '['.toNat).is '[' = true := CodeUnit.is_ofAscii (by decide) '['
  have ends : EndsMarks (CodeUnit.ofNat w '['.toNat) := endsMarks_letter (.charClass set)
  rw [Text.ofChars_append, Text.ofChars_cons, List.append_assoc, List.append_assoc,
    Text.ofChars_ascii (by decide : '['.toNat < 128), List.singleton_append,
    readDirective_percent, readConversion_marks fits ends, if_pos opens, found]

/-- A class accepts exactly the codes that its body lists, or those that it does not list if it is
negated, and it ends with the bracket behind its body: what follows is left unread. So does the
walk through a format, whatever marks stand in front of the class. -/
theorem class_read_as_spelled {asked : Conversion} (fits : FitsWidth asked.width)
    (body : ClassBody w) (offset : Nat) (back : Text w) :
    let opening : Text w := .ofChars w ('%' :: asked.marks ++ ['['])
    ∃ set : CharClass, readClass (body.spelling ++ back) = some (set, back) ∧
      Walk.next ⟨(opening ++ body.spelling ++ back).beforeNul, offset⟩ =
        some (.ok (.conversion { asked with kind := .charClass set }),
          ⟨back.beforeNul, offset + (opening ++ body.spelling).length⟩) ∧
      ∀ code, set.accepts code = true ↔ (body.members.Lists code ↔ body.negated = false) := by
  intro opening
  refine ⟨⟨body.negated, body.members.ranges⟩, readClass_body body back, ?_, fun code => ?_⟩
  · have nulFree : ∀ unit ∈ opening ++ body.spelling, unit.code ≠ 0 := by
      rw [List.forall_mem_append]
      refine ⟨nulFree_ofChars fun letter member => ?_, body.nulFree_spelling⟩
      rw [List.mem_append, List.mem_cons, List.mem_singleton] at member
      rcases member with (rfl | mark) | rfl
      · decide
      · exact marks_plain asked letter mark
      · decide
    have read := readDirective_class fits (readClass_body body back.beforeNul)
    rw [← List.append_assoc] at read
    rw [Text.beforeNul_append nulFree, next_ok read]
    simp only [List.length_append, Nat.add_sub_cancel]
  · rw [CharClass.accepts, ClassMembers.lists_iff, bne_iff_ne]
    cases body.negated <;> simp [List.any_eq_true]

/-- Behind a bracket and a dash in front, the range from the caret down to the dash takes the
dash that follows as its own bound, and the dash at the end is a member. -/
theorem crowded_class_read :
    let text : String → Text .narrow := .ofString .narrow
    let unit : Char → CodeUnit .narrow := fun letter => .ofNat .narrow letter.toNat
    let asked : Conversion := ⟨true, some 3, .long, .percent⟩
    let members : ClassMembers .narrow :=
      ⟨true, true, [.single (unit 'a'), .range (unit '^') (unit '-'), .single (unit 'z')], true,
        by decide +kernel⟩
    FitsWidth asked.width ∧ ∃ set : CharClass,
      Walk.next ⟨text "%*3l[^]-a^--z-]!", 0⟩ =
        some (.ok (.conversion ⟨true, some 3, .long, .charClass set⟩), ⟨text "!", 15⟩) ∧
      (∀ code, set.accepts code = true ↔ ¬ members.Lists code) ∧
      set.accepts 'Z'.toNat = false ∧ set.accepts 'b'.toNat = true := by
  intro text unit asked members
  have fits : FitsWidth asked.width := by
    rintro _ ⟨⟩
    decide
  let body : ClassBody .narrow := ⟨true, members, by decide +kernel, nofun⟩
  obtain ⟨set, -, walked, accepts⟩ := class_read_as_spelled fits body 0 (text "!")
  have outside (code : Nat) : set.accepts code = true ↔ ¬ members.Lists code := by
    simpa [body] using accepts code
  have spelled :
      (.ofChars .narrow ('%' :: asked.marks ++ ['[']) ++ body.spelling ++ text "!").beforeNul =
      text "%*3l[^]-a^--z-]!" := by decide +kernel
  have behind : (⟨(text "!").beforeNul, 0 + (.ofChars .narrow ('%' :: asked.marks ++ ['[']) ++
      body.spelling).length⟩ : Walk .narrow) = ⟨text "!", 15⟩ := by decide +kernel
  refine ⟨fits, set, ?_, outside, ?_, (outside _).mpr (by decide +kernel)⟩
  · rw [← spelled, walked, behind]
  · rw [Bool.eq_false_iff, ne_eq, outside, not_not]
    decide +kernel

end Format

end FormattedInput
