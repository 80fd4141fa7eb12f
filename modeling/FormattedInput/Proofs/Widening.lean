import FormattedInput.Proofs.Lookahead
import FormattedInput.Source.Text

namespace FormattedInput

namespace CodeUnit

def widened (unit : Byte) : CodeUnit .wide :=
  ⟨unit.code, Nat.lt_trans unit.code_lt (by decide)⟩

@[simp] theorem code_widened (unit : Byte) : unit.widened.code = unit.code := rfl

@[simp] theorem is_widened (unit : Byte) (letter : Char) :
    unit.widened.is letter = unit.is letter := rfl

@[simp] theorem digit?_widened (base : Nat) (unit : Byte) :
    unit.widened.digit? base = unit.digit? base := rfl

@[simp] theorem isDigit_widened (base : Nat) (unit : Byte) :
    unit.widened.isDigit base = unit.isDigit base := rfl

theorem isSpace_widened {unit : Byte} (ascii : unit.isAscii = true) :
    unit.widened.isSpace = unit.isSpace := by
  have below : unit.widened.code < 128 := of_decide_eq_true ascii
  have far : ([0x85, 0xA0, 0x1680, 0x2028, 0x2029, 0x202F, 0x205F, 0x3000].contains
      unit.widened.code) = false := by
    simp only [List.contains_cons, List.contains_nil, Bool.or_false, Bool.or_eq_false_iff,
      beq_eq_false_iff_ne]
    omega
  have low : decide (0x2000 ≤ unit.widened.code) = false := decide_eq_false (by omega)
  have wide : unit.widened.isSpace = isSpace.asciiSpace unit.widened.code := by
    rw [isSpace, far, low, Bool.false_and, Bool.or_false, Bool.or_false]
  exact wide

end CodeUnit

namespace Text

def IsAscii (text : Text .narrow) : Prop := ∀ unit ∈ text, unit.isAscii = true

instance (text : Text .narrow) : Decidable text.IsAscii :=
  inferInstanceAs (Decidable (∀ unit ∈ text, unit.isAscii = true))

def widened (text : Text .narrow) : Text .wide := text.map CodeUnit.widened

@[simp] theorem widened_nil : widened [] = [] := rfl

@[simp] theorem widened_cons (unit : Byte) (text : Text .narrow) :
    widened (unit :: text) = unit.widened :: widened text := rfl

@[simp] theorem length_widened (text : Text .narrow) : (widened text).length = text.length :=
  List.length_map _

@[simp] theorem isEmpty_widened (text : Text .narrow) :
    (widened text).isEmpty = text.isEmpty := List.isEmpty_map

theorem widened_append (front back : Text .narrow) :
    widened (front ++ back) = widened front ++ widened back := List.map_append

@[simp] theorem value_widened (base : Nat) (text : Text .narrow) :
    (widened text).value base = text.value base := by
  rw [value, value, widened, List.foldl_map]
  rfl

theorem beforeNul_widened (text : Text .narrow) :
    (widened text).beforeNul = widened text.beforeNul := by
  rw [beforeNul, beforeNul, widened, widened, List.takeWhile_map]
  rfl

theorem takeWhile_widened {keep : Byte → Bool} {keep' : CodeUnit .wide → Bool} {text : Text .narrow}
    (alike : ∀ unit ∈ text, keep' unit.widened = keep unit) :
    (widened text).takeWhile keep' = widened (text.takeWhile keep) := by
  induction text with
  | nil => rfl
  | cons unit text ih =>
    obtain ⟨here, later⟩ := List.forall_mem_cons.mp alike
    rw [widened_cons, List.takeWhile_cons, List.takeWhile_cons, here, ih later]
    split <;> rfl

theorem dropWhile_widened {keep : Byte → Bool} {keep' : CodeUnit .wide → Bool} {text : Text .narrow}
    (alike : ∀ unit ∈ text, keep' unit.widened = keep unit) :
    (widened text).dropWhile keep' = widened (text.dropWhile keep) := by
  induction text with
  | nil => rfl
  | cons unit text ih =>
    obtain ⟨here, later⟩ := List.forall_mem_cons.mp alike
    rw [widened_cons, List.dropWhile_cons, List.dropWhile_cons, here, ih later]
    split <;> rfl

end Text

namespace Format

open Text (widened)

theorem strip?_widened (letters : List Char) (text : Text .narrow) :
    strip? letters (widened text) = (strip? letters text).map widened := by
  induction letters generalizing text with
  | nil => rfl
  | cons letter letters ih =>
    cases text with
    | nil => rfl
    | cons unit text =>
      rw [Text.widened_cons, strip?, strip?, CodeUnit.is_widened]
      split
      · exact ih text
      · rfl

theorem readMark_widened (letter : Char) (text : Text .narrow) :
    readMark letter (widened text) =
      ((readMark letter text).1, widened (readMark letter text).2) := by
  rw [readMark, readMark, strip?_widened]
  cases strip? [letter] text <;> rfl

theorem readWidth_widened (text : Text .narrow) :
    readWidth (widened text) = ((readWidth text).1, widened (readWidth text).2) := by
  have alike : ∀ unit ∈ text, unit.widened.isDigit 10 = unit.isDigit 10 := fun _ _ => rfl
  rw [readWidth, readWidth, Text.takeWhile_widened alike, Text.dropWhile_widened alike,
    Text.value_widened]

theorem readModifier_widened (text : Text .narrow) :
    readModifier (widened text) = ((readModifier text).1, widened (readModifier text).2) := by
  have same : (fun modifier : LengthModifier =>
      (strip? modifier.spelling (widened text)).map fun rest => (modifier, rest)) =
      Option.map (fun found => (found.1, widened found.2)) ∘ fun modifier =>
        (strip? modifier.spelling text).map fun rest => (modifier, rest) := by
    funext modifier
    rw [strip?_widened, Option.map_map, Function.comp_apply, Option.map_map]
    rfl
  rw [readModifier, readModifier, same, ← List.map_findSome?]
  cases modifiers.findSome? fun modifier =>
    (strip? modifier.spelling text).map fun rest => (modifier, rest) <;> rfl

theorem readRanges_widened (text : Text .narrow) :
    readRanges (widened text) =
      (readRanges text).map fun found => (found.1, widened found.2) := by
  fun_induction readRanges text with
  | case1 => rfl
  | case2 low text closes =>
    have closed : low.widened.is ']' = true := closes
    exact readRanges_closed closed (widened text)
  | case3 low opens dash high more spells ih =>
    rw [Text.widened_cons, Text.widened_cons, Text.widened_cons, readRanges,
      CodeUnit.is_widened, if_neg opens]
    simp only [CodeUnit.is_widened, CodeUnit.code_widened, spells, if_true, ih, Option.map_map]
    rfl
  | case4 low opens dash high more single ih =>
    have opened : ¬ low.widened.is ']' = true := opens
    have apart : ∀ dash' high' more', widened (dash :: high :: more) = dash' :: high' :: more' →
        ¬ (dash'.is '-' && !high'.is ']') = true := by
      rintro dash' high' more' ⟨⟩
      exact single
    rw [Text.widened_cons, readRanges_alone opened apart, ih, Option.map_map, Option.map_map]
    rfl
  | case5 low opens text single ih =>
    have opened : ¬ low.widened.is ']' = true := opens
    have apart : ∀ dash' high' more', widened text = dash' :: high' :: more' →
        ¬ (dash'.is '-' && !high'.is ']') = true := by
      intro dash' high' more' spelled
      obtain _ | ⟨dash, _ | ⟨high, more⟩⟩ := text
      · cases spelled
      · cases spelled
      · exact absurd rfl (single dash high more)
    rw [Text.widened_cons, readRanges_alone opened apart, ih, Option.map_map, Option.map_map]
    rfl

theorem readClass_widened (text : Text .narrow) :
    readClass (widened text) = (readClass text).map fun found => (found.1, widened found.2) := by
  rw [readClass, readClass, readMark_widened]
  simp only [readMark_widened, readRanges_widened, Option.map_map]
  rfl

theorem readConversion_widened (text : Text .narrow) :
    readConversion (widened text) =
      (readConversion text).map fun found => (found.1, widened found.2) := by
  rw [readConversion, readConversion, readMark_widened]
  simp only [readWidth_widened, readModifier_widened]
  cases (readModifier (readWidth (readMark '*' text).2).2).2 with
  | nil => rfl
  | cons letter more =>
    have known : kind? letter.widened = kind? letter := rfl
    simp only [Text.widened_cons, CodeUnit.is_widened, readClass_widened, known,
      CodeUnit.code_widened]
    split
    · cases readClass more <;> rfl
    · cases kind? letter <;> rfl

theorem readDirective_widened {text : Text .narrow} (ascii : text.IsAscii) :
    readDirective (widened text) =
      (readDirective text).map fun found => (found.1, widened found.2) := by
  cases text with
  | nil => rfl
  | cons first more =>
    obtain ⟨here, later⟩ := List.forall_mem_cons.mp ascii
    have spaces : (widened more).dropWhile CodeUnit.isSpace =
        widened (more.dropWhile CodeUnit.isSpace) :=
      Text.dropWhile_widened fun unit member => CodeUnit.isSpace_widened (later unit member)
    rw [Text.widened_cons, readDirective, readDirective, CodeUnit.isSpace_widened here,
      CodeUnit.is_widened, CodeUnit.code_widened, readConversion_widened, spaces]
    split
    · rfl
    · split <;> rfl

theorem readFrom_widened (offset : Nat) {text : Text .narrow} (ascii : text.IsAscii) :
    readFrom offset (widened text) = readFrom offset text := by
  fun_induction readFrom offset text with
  | case1 offset text ends =>
    obtain rfl := List.isEmpty_iff.mp ends
    exact readFrom_nil offset
  | case2 offset text going fault failed =>
    have nonempty : widened text ≠ [] := by simpa [widened] using going
    apply readFrom_error offset nonempty
    rw [readDirective_widened ascii, failed]
    rfl
  | case3 offset text going directive rest read stop later =>
    rename_i ih
    obtain ⟨front, split, -⟩ := readDirective_local read
    have behind : rest <:+ text := ⟨front, split.symm⟩
    have wide : readDirective (widened text) = .ok (directive, widened rest) := by
      rw [readDirective_widened ascii, read]
      rfl
    have same := ih fun unit member => ascii unit (behind.subset member)
    rw [readFrom_ok offset wide, Text.length_widened, Text.length_widened, same]

/-- A format of ASCII units consists of the same directives in both widths. -/
theorem read_widened {format : Text .narrow} (ascii : format.IsAscii) :
    read (widened format) = read format := by
  rw [read, read, Text.beforeNul_widened]
  exact readFrom_widened 0 fun unit member => ascii unit ((List.takeWhile_subset _) member)

end Format

end FormattedInput
