import FormattedInput.Scan.Float
import FormattedInput.Scan.Text
import FormattedInput.Source.Text

/-!
Reading a text in memory, in closed form. Every reader moves forward over units
that it looked at and gives back only units that it took, so where it ends is a
distance from where it began, and the count of consumed units is that distance. -/
namespace FormattedInput

variable {w : Width}

namespace Text

/-- The units that a limit leaves in sight. A missing limit hides nothing. -/
def upTo (limit : Option Nat) (text : Text w) : Text w :=
  match limit with
  | none => text
  | some count => text.take count

@[simp] theorem upTo_none (text : Text w) : upTo none text = text := rfl

@[simp] theorem upTo_some (count : Nat) (text : Text w) :
    upTo (some count) text = text.take count := rfl

@[simp] theorem upTo_nil (limit : Option Nat) : upTo limit ([] : Text w) = [] := by
  cases limit <;> simp

theorem upTo_begins (limit : Option Nat) (text : Text w) : upTo limit text <+: text := by
  cases limit with
  | none => exact List.prefix_rfl
  | some count => exact List.take_prefix count text

theorem upTo_cons {limit : Option Nat} (open_ : limit ≠ some 0) (unit : CodeUnit w)
    (text : Text w) : upTo limit (unit :: text) = unit :: upTo (limit.map (· - 1)) text := by
  match limit, open_ with
  | none, _ => rfl
  | some (count + 1), _ => rfl

theorem upTo_drop (limit : Option Nat) (count : Nat) (text : Text w) :
    upTo (limit.map (· - count)) (text.drop count) = (upTo limit text).drop count := by
  cases limit with
  | none => rfl
  | some bound => simp [List.drop_take]

end Text

namespace TextSource

def forward (count : Nat) (source : TextSource w) : TextSource w :=
  ⟨(source.after.take count).reverse ++ source.before, source.after.drop count⟩

@[simp] theorem after_forward (count : Nat) (source : TextSource w) :
    (source.forward count).after = source.after.drop count := rfl

theorem forward_forward (first second : Nat) (source : TextSource w) :
    (source.forward first).forward second = source.forward (first + second) := by
  simp [forward, List.take_add]

theorem after_consume (source : TextSource w) : source.consume.after = source.after.tail := by
  unfold consume
  cases shown : source.after with
  | nil => exact shown
  | cons unit rest => rfl

theorem consume_forward {source : TextSource w} {unit : CodeUnit w} {rest : Text w}
    (shown : source.after = unit :: rest) : source.consume = source.forward 1 := by
  simp [consume, forward, shown]

theorem retreat_forward {source : TextSource w} {count : Nat}
    (within : count < source.after.length) :
    (source.forward (count + 1)).retreat = source.forward count := by
  have last : source.after.take (count + 1) = source.after.take count ++ [source.after[count]] :=
    List.take_succ_eq_append_getElem within
  simp only [forward, retreat, last, List.reverse_append, List.reverse_cons, List.reverse_nil,
    List.nil_append, List.cons_append, List.getElem_cons_drop]

end TextSource

namespace Counted

def advance (count : Nat) (input : Counted (TextSource w)) : Counted (TextSource w) :=
  ⟨input.source.forward count, input.consumed + count⟩

def rest (input : Counted (TextSource w)) : Text w := input.source.after

@[simp] theorem advance_zero (input : Counted (TextSource w)) : input.advance 0 = input := rfl

@[simp] theorem rest_advance (count : Nat) (input : Counted (TextSource w)) :
    (input.advance count).rest = input.rest.drop count := rfl

theorem advance_advance (first second : Nat) (input : Counted (TextSource w)) :
    (input.advance first).advance second = input.advance (first + second) := by
  simp [advance, TextSource.forward_forward, Nat.add_assoc]

theorem peek_text (input : Counted (TextSource w)) : input.peek = (input.rest.head?, input) := rfl

theorem consume_text {input : Counted (TextSource w)} {unit : CodeUnit w} {rest : Text w}
    (shown : input.rest = unit :: rest) : input.consume = input.advance 1 := by
  have moved : input.source.consume = input.source.forward 1 := TextSource.consume_forward shown
  exact congrArg (fun source => (⟨source, input.consumed + 1⟩ : Counted (TextSource w))) moved

/-- Putting one unit back undoes one step, whichever unit it is. -/
theorem putBack_advance {input : Counted (TextSource w)} {count : Nat}
    (within : count < input.rest.length) (unit : CodeUnit w) :
    (input.advance (count + 1)).putBack unit = input.advance count := by
  have moved : (input.source.forward (count + 1)).retreat = input.source.forward count :=
    TextSource.retreat_forward within
  exact congrArg (fun source => (⟨source, input.consumed + count⟩ : Counted (TextSource w))) moved

theorem unmatched_text (input : Counted (TextSource w)) :
    input.unmatched =
      (if input.rest = [] then .inputExhausted input.consumed else .mismatch input.consumed,
        input) := by
  rw [unmatched, peek_text]
  cases input.rest <;> rfl

theorem takeRun_text (accept : CodeUnit w → Bool) (room width : Option Nat)
    (input : Counted (TextSource w)) :
    input.takeRun accept room width =
      let accepted := (Text.upTo width input.rest).takeWhile accept
      let units := Text.upTo room accepted
      ⟨units, decide (units.length < accepted.length), width.map (· - units.length),
        input.advance units.length⟩ := by
  fun_induction takeRun accept room width input with
  | case1 room input => simp
  | case2 room width input open_ source looked =>
    obtain ⟨empty, rfl⟩ := Prod.mk.inj looked
    have nothing : input.rest = [] := List.head?_eq_none_iff.mp empty
    simp [nothing]
  | case3 width input open_ unit source looked accepted =>
    obtain ⟨shown, rfl⟩ := Prod.mk.inj looked
    obtain ⟨rest, next⟩ := List.head?_eq_some_iff.mp shown
    have first : input.rest = unit :: rest := next
    simp [first, Text.upTo_cons open_, accepted]
  | case4 room width input open_ unit source looked accepted roomy run =>
    rename_i ih
    obtain ⟨shown, rfl⟩ := Prod.mk.inj looked
    obtain ⟨rest, next⟩ := List.head?_eq_some_iff.mp shown
    have first : input.rest = unit :: rest := next
    have moved : (⟨UnitSource.consume input.source, input.consumed + 1⟩ : Counted (TextSource w)) =
        input.advance 1 := consume_text first
    have tail : (input.advance 1).rest = rest := by simp [first]
    simp only [moved, tail] at ih
    have narrower : ∀ count, (width.map (· - 1)).map (· - count) = width.map (· - (count + 1)) := by
      intro count
      cases width <;> simp [Nat.sub_sub, Nat.add_comm]
    simp only [run, moved, ih, first, Text.upTo_cons open_, List.takeWhile_cons, accepted, if_true,
      Text.upTo_cons roomy, List.length_cons, Nat.add_lt_add_iff_right, narrower, advance_advance,
      Nat.add_comm 1]
  | case5 room width input open_ unit source looked rejected =>
    obtain ⟨shown, rfl⟩ := Prod.mk.inj looked
    obtain ⟨rest, next⟩ := List.head?_eq_some_iff.mp shown
    have first : input.rest = unit :: rest := next
    simp [first, Text.upTo_cons open_, rejected]

theorem dropSpace_text (input : Counted (TextSource w)) :
    input.dropSpace = input.advance (input.rest.takeWhile CodeUnit.isSpace).length := by
  simp [dropSpace, takeRun_text]

end Counted

namespace Field

def rest (field : Field (TextSource w)) : Text w := Text.upTo field.width field.input.rest

def advance (count : Nat) (field : Field (TextSource w)) : Field (TextSource w) :=
  ⟨field.input.advance count, field.width.map (· - count)⟩

@[simp] theorem advance_zero (field : Field (TextSource w)) : field.advance 0 = field := by
  simp [advance]

@[simp] theorem rest_advance (count : Nat) (field : Field (TextSource w)) :
    (field.advance count).rest = field.rest.drop count :=
  Text.upTo_drop field.width count field.input.rest

@[simp] theorem input_advance (count : Nat) (field : Field (TextSource w)) :
    (field.advance count).input = field.input.advance count := rfl

theorem advance_advance (first second : Nat) (field : Field (TextSource w)) :
    (field.advance first).advance second = field.advance (first + second) := by
  simp [advance, Counted.advance_advance, Function.comp_def, Nat.sub_sub]

theorem takeIf_text (accept : CodeUnit w → Bool) (field : Field (TextSource w)) :
    field.takeIf accept =
      match field.rest with
      | [] => (none, field)
      | unit :: _ => if accept unit then (some unit, field.advance 1) else (none, field) := by
  obtain ⟨input, width⟩ := field
  by_cases full : width = some 0
  · simp [takeIf, rest, full]
  · rw [takeIf, if_neg full, Counted.peek_text, rest]
    cases next : input.rest with
    | nil => simp
    | cons unit left =>
      simp only [List.head?_cons, Text.upTo_cons full, advance, Counted.consume_text next]

theorem takeWhile_text (accept : CodeUnit w → Bool) (field : Field (TextSource w)) :
    field.takeWhile accept =
      (field.rest.takeWhile accept, field.advance (field.rest.takeWhile accept).length) := by
  simp only [takeWhile, Counted.takeRun_text, Text.upTo_none]
  rfl

theorem takeIf_advance (accept : CodeUnit w → Bool) (field : Field (TextSource w)) :
    ∃ taken : Option (CodeUnit w), taken.toList <+: field.rest ∧
      field.takeIf accept = (taken, field.advance taken.toList.length) := by
  rw [takeIf_text]
  cases field.rest with
  | nil => exact ⟨none, List.nil_prefix, by simp⟩
  | cons unit left =>
    by_cases accepted : accept unit = true
    · exact ⟨some unit, ⟨left, rfl⟩, by simp [accepted]⟩
    · exact ⟨none, List.nil_prefix, by simp [accepted]⟩

theorem rest_begins (field : Field (TextSource w)) : field.rest <+: field.input.rest :=
  Text.upTo_begins field.width field.input.rest

theorem length_takeWhile_le (accept : CodeUnit w → Bool) (field : Field (TextSource w)) :
    (field.rest.takeWhile accept).length ≤ field.rest.length :=
  (List.takeWhile_prefix accept).length_le

end Field

namespace IntegerBase

theorem takeMark_cases (base : IntegerBase) (field : Field (TextSource w)) :
    base.takeMark field = (⟨base.plainBase, false, none⟩, field) ∨
    (base.takeMark field = (⟨base.zeroBase, true, none⟩, field.advance 1) ∧
      1 ≤ field.rest.length) ∨
    ∃ marker, base.takeMark field = (⟨16, false, some marker⟩, (field.advance 1).advance 1) ∧
      [marker] <+: field.rest.drop 1 := by
  unfold takeMark
  by_cases marked : base.marked = true
  · rw [if_pos marked]
    obtain ⟨zero, seen, took⟩ := field.takeIf_advance (fun unit => unit.is '0')
    rw [took]
    cases zero with
    | none => exact .inl (by simp)
    | some zero =>
      obtain ⟨marker, more, found⟩ :=
        (field.advance 1).takeIf_advance (fun unit => unit.is 'x' || unit.is 'X')
      rw [Field.rest_advance] at more
      simp only [Option.toList_some, List.length_singleton]
      rw [found]
      cases marker with
      | none => exact .inr (.inl ⟨by simp, seen.length_le⟩)
      | some marker => exact .inr (.inr ⟨marker, rfl, more⟩)
  · exact .inl (by rw [if_neg marked])

end IntegerBase

namespace Counted

theorem putBack?_taken {input : Counted (TextSource w)} {taken : Option (CodeUnit w)}
    (front : taken.toList <+: input.rest) :
    (input.advance taken.toList.length).putBack? taken = input := by
  cases taken with
  | none => rfl
  | some unit => exact putBack_advance front.length_le unit

/-- A value was read further on, or the reading failed where it began. -/
def ReadsOrFails {α : Type} (input : Counted (TextSource w))
    (outcome : Except Halt α × Counted (TextSource w)) : Prop :=
  (∃ value count, count ≤ input.rest.length ∧ outcome = (.ok value, input.advance count)) ∨
    outcome = input.fail

theorem readsOn {α : Type} {input after : Counted (TextSource w)} (value : α) (count : Nat)
    (within : count ≤ input.rest.length) (reached : after = input.advance count) :
    ReadsOrFails input (.ok value, after) :=
  .inl ⟨value, count, within, by rw [reached]⟩

theorem takeSign_text (width : Option Nat) (input : Counted (TextSource w)) :
    ∃ (sign : Option (CodeUnit w)) (field : Field (TextSource w)),
      Field.takeSign ⟨input, width⟩ = (sign, field) ∧
      field.input = input.advance sign.toList.length ∧
      field.rest.length + sign.toList.length ≤ input.rest.length ∧
      sign.toList <+: input.rest := by
  have inside : (⟨input, width⟩ : Field (TextSource w)).rest <+: input.rest :=
    Field.rest_begins ⟨input, width⟩
  obtain ⟨sign, seen, took⟩ :=
    Field.takeIf_advance CodeUnit.isSign (⟨input, width⟩ : Field (TextSource w))
  refine ⟨sign, _, took, rfl, ?_, seen.trans inside⟩
  have shorter := inside.length_le
  have taken := seen.length_le
  rw [Field.rest_advance, List.length_drop]
  omega

theorem takeInteger_text (base : IntegerBase) (width : Option Nat)
    (input : Counted (TextSource w)) :
    ReadsOrFails input (input.takeInteger base width) := by
  obtain ⟨sign, field, took, start, shorter, front⟩ := takeSign_text width input
  rw [takeInteger, took]
  simp only
  rcases base.takeMark_cases field with plain | ⟨zero, more⟩ | ⟨marker, marked, more⟩
  · have digits := field.length_takeWhile_le (CodeUnit.isDigit base.plainBase)
    simp only [plain, Field.takeWhile_text, Field.input_advance, start, advance_advance]
    split
    · rename_i none
      right
      simp only [Bool.not_false, Bool.and_true, List.isEmpty_iff] at none
      rw [none, List.length_nil, Nat.add_zero, putBack?_taken front]
    · exact readsOn _ _ (by omega) rfl
  · have digits := (field.advance 1).length_takeWhile_le (CodeUnit.isDigit base.zeroBase)
    rw [Field.rest_advance, List.length_drop] at digits
    simp only [zero, Field.takeWhile_text, Field.input_advance, start, advance_advance,
      Field.rest_advance, Bool.not_true, Bool.and_false, Bool.false_eq_true, if_false]
    exact readsOn _ _ (by omega) rfl
  · have seen := more.length_le
    have digits := ((field.advance 1).advance 1).length_takeWhile_le (CodeUnit.isDigit 16)
    simp only [List.length_singleton, List.length_drop] at seen
    simp only [Field.rest_advance, List.length_drop] at digits
    simp only [marked, Field.takeWhile_text, Field.input_advance, start, advance_advance,
      Field.rest_advance]
    split
    · rename_i none
      simp only [Bool.not_false, Bool.and_true, List.isEmpty_iff] at none
      apply readsOn 0 (sign.toList.length + 1) (by omega)
      rw [none, List.length_nil, Nat.add_zero]
      exact putBack_advance (by omega) marker
    · exact readsOn _ _ (by omega) rfl

end Counted

namespace Field

theorem takeFraction_text (point : Nat) (field : Field (TextSource w)) :
    ∃ (separator : Option (CodeUnit w)) (digits : Text w),
      field.takeFraction point = ((separator, digits),
        (field.advance separator.toList.length).advance digits.length) ∧
      separator.toList <+: field.rest ∧
      separator.toList.length + digits.length ≤ field.rest.length := by
  obtain ⟨separator, seen, took⟩ := field.takeIf_advance (fun unit => unit.code == point)
  rw [takeFraction, took]
  cases separator with
  | none => exact ⟨none, [], by simp, seen, by simp⟩
  | some separator =>
    have more := (field.advance 1).length_takeWhile_le (CodeUnit.isDigit 10)
    have taken := seen.length_le
    simp only [rest_advance, List.length_drop] at more
    simp only [Option.toList_some, List.length_singleton, takeWhile_text, rest_advance] at taken ⊢
    refine ⟨some separator, _, rfl, seen, ?_⟩
    simp only [Option.toList_some, List.length_singleton]
    omega

theorem takeExponent_text (field : Field (TextSource w)) :
    ∃ count, count ≤ field.rest.length ∧
      field.takeExponent.2.input = field.input.advance count := by
  obtain ⟨marker, seen, took⟩ :=
    field.takeIf_advance (fun unit => unit.is 'e' || unit.is 'E')
  rw [takeExponent, took]
  cases marker with
  | none => exact ⟨0, by simp, by simp⟩
  | some marker =>
    have inside := field.rest_begins.length_le
    have taken := seen.length_le
    obtain ⟨sign, more, signed⟩ := (field.advance 1).takeIf_advance CodeUnit.isSign
    have signs := more.length_le
    have digits := ((field.advance 1).advance sign.toList.length).length_takeWhile_le
      (CodeUnit.isDigit 10)
    simp only [rest_advance, List.length_drop, Option.toList_some, List.length_singleton]
      at taken signs digits ⊢
    simp only [takeSign, signed, takeWhile_text, input_advance, rest_advance]
    split
    · rename_i none
      rw [List.isEmpty_iff] at none
      have near : sign.toList <+: (field.input.advance 1).rest :=
        more.trans (field.advance 1).rest_begins
      refine ⟨0, Nat.zero_le _, ?_⟩
      rw [none, List.length_nil, Counted.advance_zero, Counted.putBack?_taken near]
      exact Counted.putBack_advance (by omega) marker
    · simp only [input_advance, Counted.advance_advance]
      exact ⟨_, by omega, rfl⟩

end Field

namespace Counted

theorem takeDecimal_text (point : Nat) (width : Option Nat) (input : Counted (TextSource w)) :
    ReadsOrFails input (input.takeDecimal point width) := by
  obtain ⟨sign, field, took, start, shorter, front⟩ := takeSign_text width input
  have whole := field.length_takeWhile_le (CodeUnit.isDigit 10)
  obtain ⟨separator, digits, fraction, near, more⟩ :=
    (field.advance (field.rest.takeWhile (CodeUnit.isDigit 10)).length).takeFraction_text point
  rw [takeDecimal, took]
  simp only [Field.takeWhile_text, fraction]
  split
  · rename_i none
    right
    simp only [Bool.and_eq_true, List.isEmpty_iff] at none
    have empty : field.rest.takeWhile (CodeUnit.isDigit 10) = [] := none.1
    have inside := near.trans (Field.rest_begins _)
    simp only [empty, none.2, List.length_nil, Field.advance_zero, Field.input_advance]
      at inside ⊢
    rw [putBack?_taken inside, start, putBack?_taken front]
  · rw [Field.rest_advance, List.length_drop] at more
    obtain ⟨count, last, reached⟩ := Field.takeExponent_text (((field.advance
      (field.rest.takeWhile (CodeUnit.isDigit 10)).length).advance
        separator.toList.length).advance digits.length)
    simp only [Field.rest_advance, List.length_drop] at last
    apply readsOn _ _ _ (reached.trans _)
    · exact sign.toList.length + (field.rest.takeWhile (CodeUnit.isDigit 10)).length +
        separator.toList.length + digits.length + count
    · omega
    · simp only [Field.input_advance, start, advance_advance]

end Counted

end FormattedInput
