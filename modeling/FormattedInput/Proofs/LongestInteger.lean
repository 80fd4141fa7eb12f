import FormattedInput.Proofs.LongestPrefix
import FormattedInput.Proofs.PrintedNumber
import Mathlib.Data.List.Induction

/-!
An integer is read as the longest beginning of the text that spells one. The spellings are said
apart from the reader: digits with the value of their places, a zero or a marker that announces
a base, and a sign. The marker is taken before it is known to be one, so a marker without a digit
is the one place where the reader looks further than the number that it gives. -/
namespace FormattedInput

variable {w : Width}

/-- The digit that a unit stands for in a base. Letters of both cases go on from the ten
figures. -/
inductive DigitOf (base : Nat) (unit : CodeUnit w) : Nat → Prop where
  | figure {place : Nat} (inside : place < 10) (below : place < base)
    (code : unit.code = '0'.toNat + place) : DigitOf base unit place
  | capital {place : Nat} (inside : place < 26) (below : 10 + place < base)
    (code : unit.code = 'A'.toNat + place) : DigitOf base unit (10 + place)
  | small {place : Nat} (inside : place < 26) (below : 10 + place < base)
    (code : unit.code = 'a'.toNat + place) : DigitOf base unit (10 + place)

inductive Positional (base : Nat) : Nat → Text w → Prop where
  | single {digit : Nat} {unit : CodeUnit w} (read : DigitOf base unit digit) :
    Positional base digit [unit]
  | further {number digit : Nat} {front : Text w} {unit : CodeUnit w}
    (digits : Positional base number front) (read : DigitOf base unit digit) :
    Positional base (number * base + digit) (front ++ [unit])

namespace IntegerBase

/-- What may stand behind the sign. Base sixteen allows a marker, and a base that the number
announces is sixteen behind a marker, eight behind a zero and ten otherwise. -/
inductive Magnitude : IntegerBase → Nat → Text w → Prop where
  | fixed {base number : Nat} {text : Text w} (digits : Positional base number text) :
    Magnitude (.fixed base) number text
  | marked {base : IntegerBase} {number : Nat} {zero marker : CodeUnit w} {text : Text w}
    (allowed : base = .fixed 16 ∨ base = .announced) (first : zero.is '0' = true)
    (second : marker.is 'x' = true ∨ marker.is 'X' = true) (digits : Positional 16 number text) :
    Magnitude base number (zero :: marker :: text)
  | octal {number : Nat} {zero : CodeUnit w} {text : Text w} (first : zero.is '0' = true)
    (digits : Positional 8 number (zero :: text)) : Magnitude .announced number (zero :: text)
  | decimal {number : Nat} {unit : CodeUnit w} {text : Text w} (first : unit.is '0' = false)
    (digits : Positional 10 number (unit :: text)) : Magnitude .announced number (unit :: text)

inductive Denotes (base : IntegerBase) : Int → Text w → Prop where
  | unsigned {number : Nat} {text : Text w} (magnitude : base.Magnitude number text) :
    Denotes base number text
  | plus {number : Nat} {sign : CodeUnit w} {text : Text w} (positive : sign.is '+' = true)
    (magnitude : base.Magnitude number text) : Denotes base number (sign :: text)
  | minus {number : Nat} {sign : CodeUnit w} {text : Text w} (negative : sign.is '-' = true)
    (magnitude : base.Magnitude number text) : Denotes base (-number) (sign :: text)

def Language (base : IntegerBase) (text : Text w) : Prop := ∃ number, base.Denotes number text

def Unsigned (base : IntegerBase) (text : Text w) : Prop := ∃ number, base.Magnitude number text

end IntegerBase

namespace CodeUnit

variable {unit : CodeUnit w} {base digit : Nat}

theorem digit?_iff : unit.digit? base = some digit ↔ DigitOf base unit digit := by
  have zero : '0'.toNat = 48 := rfl
  have nine : '9'.toNat = 57 := rfl
  have upper : 'A'.toNat = 65 := rfl
  have last : 'Z'.toNat = 90 := rfl
  have lower : 'a'.toNat = 97 := rfl
  have least : 'z'.toNat = 122 := rfl
  rw [digit?, Option.filter_eq_some_iff, decide_eq_true_eq]
  constructor
  · rintro ⟨read, below⟩
    unfold digit?.alphanumeric at read
    split at read
    · cases read
      exact .figure (by omega) below (by omega)
    · split at read
      · cases read
        rw [Nat.add_comm] at below ⊢
        exact .capital (by omega) below (by omega)
      · split at read
        · cases read
          rw [Nat.add_comm] at below ⊢
          exact .small (by omega) below (by omega)
        · cases read
  · intro read
    cases read with
    | figure inside below code =>
      refine ⟨?_, below⟩
      rw [digit?.alphanumeric, if_pos (by omega)]
      exact congrArg some (by omega)
    | capital inside below code =>
      refine ⟨?_, below⟩
      rw [digit?.alphanumeric, if_neg (by omega), if_pos (by omega)]
      exact congrArg some (by omega)
    | small inside below code =>
      refine ⟨?_, below⟩
      rw [digit?.alphanumeric, if_neg (by omega), if_neg (by omega), if_pos (by omega)]
      exact congrArg some (by omega)

theorem isDigit_iff : unit.isDigit base = true ↔ ∃ digit, DigitOf base unit digit := by
  rw [isDigit, Option.isSome_iff_exists]
  exact exists_congr fun digit => digit?_iff

theorem digit?_ofZero (zero : unit.is '0' = true) (positive : 0 < base) :
    unit.digit? base = some 0 :=
  digit?_iff.mpr (.figure (by decide) positive (beq_iff_eq.mp zero))

theorem isDigit_marker (marks : (unit.is 'x' || unit.is 'X') = true) (few : base ≤ 16) :
    unit.isDigit base = false := by
  have lower : 'x'.toNat = 120 := rfl
  have upper : 'X'.toNat = 88 := rfl
  have zero : '0'.toNat = 48 := rfl
  have capital : 'A'.toNat = 65 := rfl
  have small : 'a'.toNat = 97 := rfl
  rw [Bool.or_eq_true, is, is, beq_iff_eq, beq_iff_eq] at marks
  apply Bool.eq_false_iff.mpr
  intro digit
  obtain ⟨place, read⟩ := isDigit_iff.mp digit
  cases read <;> omega

end CodeUnit

namespace Positional

variable {base number : Nat} {text : Text w}

theorem ne_nil (digits : Positional base number text) : text ≠ [] := by
  cases digits with
  | single read => exact List.cons_ne_nil _ _
  | further digits read => exact List.append_ne_nil_of_right_ne_nil _ (List.cons_ne_nil _ _)

theorem isDigit (digits : Positional base number text) :
    ∀ unit ∈ text, unit.isDigit base = true := by
  induction digits with
  | single read => exact List.forall_mem_singleton.mpr (CodeUnit.isDigit_iff.mpr ⟨_, read⟩)
  | further digits read ih =>
    rw [List.forall_mem_append]
    exact ⟨ih, List.forall_mem_singleton.mpr (CodeUnit.isDigit_iff.mpr ⟨_, read⟩)⟩

theorem value (digits : Positional base number text) : text.value base = number := by
  induction digits with
  | single read => simp [Text.value, CodeUnit.digit?_iff.mpr read]
  | further digits read ih =>
    rw [Text.value_further, ih, CodeUnit.digit?_iff.mpr read, Option.getD_some]

theorem ofDigits (some_ : text ≠ []) (all : ∀ unit ∈ text, unit.isDigit base = true) :
    Positional base (text.value base) text := by
  induction text using List.reverseRecOn with
  | nil => exact absurd rfl some_
  | append_singleton front unit ih =>
    obtain ⟨digits, last⟩ := List.forall_mem_append.mp all
    obtain ⟨digit, read⟩ := CodeUnit.isDigit_iff.mp (last unit List.mem_cons_self)
    rw [Text.value_further, CodeUnit.digit?_iff.mpr read, Option.getD_some]
    cases front with
    | nil =>
      have nothing : Text.value base ([] : Text w) * base + digit = digit := by simp [Text.value]
      rw [nothing]
      exact .single read
    | cons first front => exact .further (ih (List.cons_ne_nil _ _) digits) read

end Positional

theorem longest_digits (base : Nat) {text : Text w}
    (some_ : text.takeWhile (CodeUnit.isDigit base) ≠ []) :
    text.Longest (fun front => ∃ number, Positional base number front)
      (text.takeWhile (CodeUnit.isDigit base)) where
  begins := List.takeWhile_prefix _
  member := ⟨_, Positional.ofDigits some_ fun _ inside => List.mem_takeWhile_imp inside⟩
  most := by
    rintro other begins ⟨number, digits⟩
    exact (Text.run_begins digits.isDigit begins).length_le

namespace IntegerBase

variable {base : IntegerBase} {number : Nat} {text front : Text w}

theorem magnitude_plain (begins : front <+: text)
    (unmarked : base.marked = true → ∀ unit ∈ text.head?, unit.is '0' = false) :
    base.Magnitude number front ↔ Positional base.plainBase number front := by
  have leads (marked : base.marked = true) {unit : CodeUnit w} {rest : Text w}
      (whole : unit :: rest <+: text) : unit.is '0' = false := by
    obtain ⟨behind, rfl⟩ := whole
    exact unmarked marked unit rfl
  constructor
  · intro magnitude
    cases magnitude with
    | fixed digits => exact digits
    | marked allowed first second digits =>
      have zero := leads (by rcases allowed with rfl | rfl <;> rfl) begins
      rw [first] at zero
      cases zero
    | octal first digits =>
      have zero := leads rfl begins
      rw [first] at zero
      cases zero
    | decimal first digits => exact digits
  · intro digits
    cases base with
    | fixed base => exact .fixed digits
    | announced =>
      obtain ⟨unit, rest, rfl⟩ := List.exists_cons_of_ne_nil digits.ne_nil
      exact .decimal (leads rfl begins) digits

theorem magnitude_zero (marked : base.marked = true) {zero : CodeUnit w} {more : Text w}
    (first : zero.is '0' = true)
    (unmarked : ∀ unit ∈ more.head?, (unit.is 'x' || unit.is 'X') = false)
    (begins : front <+: zero :: more) :
    base.Magnitude number front ↔ Positional base.zeroBase number front := by
  constructor
  · intro magnitude
    cases magnitude with
    | fixed digits => exact digits
    | marked allowed first second digits =>
      obtain ⟨-, behind⟩ := List.cons_prefix_cons.mp begins
      obtain ⟨behind, rfl⟩ := behind
      have apart := unmarked _ rfl
      rw [Bool.or_eq_false_iff] at apart
      simp only [apart, Bool.false_eq_true, or_self] at second
    | octal first digits => exact digits
    | decimal other digits =>
      obtain ⟨rfl, -⟩ := List.cons_prefix_cons.mp begins
      rw [first] at other
      cases other
  · intro digits
    obtain ⟨unit, rest, rfl⟩ := List.exists_cons_of_ne_nil digits.ne_nil
    obtain ⟨rfl, -⟩ := List.cons_prefix_cons.mp begins
    cases base with
    | fixed base => exact .fixed digits
    | announced => exact .octal first digits

theorem magnitude_marker (marked : base.marked = true) {zero marker : CodeUnit w} {more : Text w}
    (first : zero.is '0' = true) (second : (marker.is 'x' || marker.is 'X') = true)
    (begins : front <+: zero :: marker :: more) :
    base.Magnitude number front ↔
      (front = [zero] ∧ number = 0) ∨
        ∃ digits, front = zero :: marker :: digits ∧ Positional 16 number digits := by
  have alone {radix : Nat} (positive : 0 < radix) (few : radix ≤ 16)
      (digits : Positional radix number front) : front = [zero] ∧ number = 0 := by
    obtain ⟨unit, rest, rfl⟩ := List.exists_cons_of_ne_nil digits.ne_nil
    obtain ⟨rfl, behind⟩ := List.cons_prefix_cons.mp begins
    have all := digits.isDigit
    have value := digits.value
    cases rest with
    | nil =>
      refine ⟨rfl, ?_⟩
      rw [← value]
      simp [Text.value, CodeUnit.digit?_ofZero first positive]
    | cons other rest =>
      obtain ⟨rfl, -⟩ := List.cons_prefix_cons.mp behind
      have digit := all other (List.mem_cons_of_mem _ List.mem_cons_self)
      rw [CodeUnit.isDigit_marker second few] at digit
      cases digit
  constructor
  · intro magnitude
    cases magnitude with
    | @fixed radix number text digits =>
      obtain rfl : radix = 16 := beq_iff_eq.mp marked
      exact .inl (alone (by decide) (by decide) digits)
    | marked allowed first second digits =>
      obtain ⟨rfl, behind⟩ := List.cons_prefix_cons.mp begins
      obtain ⟨rfl, -⟩ := List.cons_prefix_cons.mp behind
      exact .inr ⟨_, rfl, digits⟩
    | octal first digits => exact .inl (alone (by decide) (by decide) digits)
    | decimal other digits =>
      obtain ⟨rfl, -⟩ := List.cons_prefix_cons.mp begins
      rw [first] at other
      cases other
  · have allowed : base = .fixed 16 ∨ base = .announced := by
      cases base with
      | fixed radix => exact .inl (congrArg fixed (beq_iff_eq.mp marked))
      | announced => exact .inr rfl
    rintro (⟨rfl, rfl⟩ | ⟨digits, rfl, positional⟩)
    · rcases allowed with rfl | rfl
      · exact .fixed (.single (.figure (by decide) (by decide) (beq_iff_eq.mp first)))
      · exact .octal first (.single (.figure (by decide) (by decide) (beq_iff_eq.mp first)))
    · exact .marked allowed first (Bool.or_eq_true_iff.mp second) positional

/-- How a magnitude begins: the mark that is read from it and how many units that takes. -/
inductive Begins (base : IntegerBase) : Text w → BaseMark w → Nat → Prop where
  | plain {text : Text w}
    (unmarked : base.marked = true → ∀ unit ∈ text.head?, unit.is '0' = false) :
    Begins base text ⟨base.plainBase, false, none⟩ 0
  | zero {zero : CodeUnit w} {more : Text w} (marked : base.marked = true)
    (first : zero.is '0' = true)
    (unmarked : ∀ unit ∈ more.head?, (unit.is 'x' || unit.is 'X') = false) :
    Begins base (zero :: more) ⟨base.zeroBase, true, none⟩ 1
  | marker {zero marker : CodeUnit w} {more : Text w} (marked : base.marked = true)
    (first : zero.is '0' = true) (second : (marker.is 'x' || marker.is 'X') = true) :
    Begins base (zero :: marker :: more) ⟨16, false, some marker⟩ 2

theorem exists_begins (base : IntegerBase) (text : Text w) :
    ∃ mark count, base.Begins text mark count := by
  by_cases marked : base.marked = true
  · cases text with
    | nil => exact ⟨_, _, .plain fun _ => nofun⟩
    | cons zero more =>
      cases first : zero.is '0' with
      | false =>
        refine ⟨_, _, .plain ?_⟩
        rintro - unit ⟨⟩
        exact first
      | true =>
        cases more with
        | nil => exact ⟨_, _, .zero marked first nofun⟩
        | cons marker more =>
          cases second : marker.is 'x' || marker.is 'X' with
          | true => exact ⟨_, _, .marker marked first second⟩
          | false =>
            refine ⟨_, _, .zero marked first ?_⟩
            rintro unit ⟨⟩
            exact second
  · exact ⟨_, _, .plain fun other => absurd other marked⟩

theorem takeMark_begins {field : Field (TextSource w)} {mark : BaseMark w} {count : Nat}
    (shown : base.Begins field.rest mark count) :
    base.takeMark field = (mark, field.advance count) := by
  generalize seen : field.rest = text at shown
  cases shown with
  | plain unmarked =>
    rw [Field.advance_zero]
    exact takeMark_plain (seen ▸ unmarked)
  | zero marked first unmarked => exact takeMark_zero marked seen first unmarked
  | marker marked first second => exact takeMark_marker marked seen first second

def digitsOf (text : Text w) (mark : BaseMark w) (count : Nat) : Text w :=
  (text.drop count).takeWhile (CodeUnit.isDigit mark.base)

theorem zero_digits {radix : Nat} (positive : 0 < radix) {zero : CodeUnit w}
    (first : zero.is '0' = true) (more : Text w) :
    (zero :: more).takeWhile (CodeUnit.isDigit radix) =
        zero :: more.takeWhile (CodeUnit.isDigit radix) ∧
      Text.value radix (zero :: more) = Text.value radix more := by
  have read := CodeUnit.digit?_ofZero first positive
  have digit : zero.isDigit radix = true := Option.isSome_iff_exists.mpr ⟨0, read⟩
  constructor
  · exact List.takeWhile_cons_of_pos digit
  · rw [Text.value, List.foldl_cons, read]
    simp [Text.value]

theorem zeroBase_pos (marked : base.marked = true) : 0 < base.zeroBase := by
  cases base with
  | fixed radix =>
    obtain rfl : radix = 16 := beq_iff_eq.mp marked
    decide
  | announced => decide

theorem longest_positional {radix : Nat}
    (same : ∀ front, front <+: text → ∀ number,
      base.Magnitude number front ↔ Positional radix number front)
    (some_ : text.takeWhile (CodeUnit.isDigit radix) ≠ []) :
    text.Longest base.Unsigned (text.takeWhile (CodeUnit.isDigit radix)) ∧
      base.Magnitude (Text.value radix (text.takeWhile (CodeUnit.isDigit radix)))
        (text.takeWhile (CodeUnit.isDigit radix)) := by
  have longest := longest_digits radix some_
  have spelled := Positional.ofDigits some_ fun _ inside => List.mem_takeWhile_imp inside
  have magnitude := (same _ longest.begins _).mpr spelled
  refine ⟨⟨longest.begins, ⟨_, magnitude⟩, ?_⟩, magnitude⟩
  rintro other begins ⟨number, spelling⟩
  exact longest.most other begins ⟨number, (same other begins number).mp spelling⟩

/-- With a digit behind the mark, or a zero that is one, the magnitude is the mark and the
digits. -/
theorem longest_magnitude {mark : BaseMark w} {count : Nat}
    (shown : base.Begins text mark count)
    (some_ : digitsOf text mark count ≠ [] ∨ mark.zero = true) :
    text.Longest base.Unsigned (text.take count ++ digitsOf text mark count) ∧
      base.Magnitude (Text.value mark.base (digitsOf text mark count))
        (text.take count ++ digitsOf text mark count) := by
  cases shown with
  | plain unmarked =>
    apply longest_positional
    · exact fun front begins number => magnitude_plain begins unmarked
    · exact some_.resolve_right Bool.false_ne_true
  | @zero zero more marked first unmarked =>
    obtain ⟨run, value⟩ := zero_digits (zeroBase_pos marked) first
      (more.takeWhile (CodeUnit.isDigit base.zeroBase))
    obtain ⟨whole, -⟩ := zero_digits (zeroBase_pos marked) first more
    have same : ∀ front, front <+: zero :: more → ∀ number,
        base.Magnitude number front ↔ Positional base.zeroBase number front :=
      fun front begins number => magnitude_zero marked first unmarked begins
    have longest := longest_positional same (whole ▸ List.cons_ne_nil _ _)
    rw [whole, value] at longest
    exact longest
  | @marker zero marker more marked first second =>
    have digits : more.takeWhile (CodeUnit.isDigit 16) ≠ [] :=
      some_.resolve_right Bool.false_ne_true
    have longest := longest_digits 16 digits
    have spelled := Positional.ofDigits digits fun _ inside => List.mem_takeWhile_imp inside
    have begins : zero :: marker :: more.takeWhile (CodeUnit.isDigit 16) <+:
        zero :: marker :: more := by simpa using List.takeWhile_prefix _
    have magnitude := (magnitude_marker marked first second begins).mpr (.inr ⟨_, rfl, spelled⟩)
    refine ⟨⟨begins, ⟨_, magnitude⟩, ?_⟩, magnitude⟩
    rintro other begins ⟨number, spelling⟩
    rcases (magnitude_marker marked first second begins).mp spelling with
      ⟨rfl, -⟩ | ⟨further, rfl, positional⟩
    · exact Nat.le_add_left 1 _
    · have inside : further <+: more := by simpa using begins
      exact Nat.add_le_add_right (longest.most further inside ⟨number, positional⟩) 2

/-- A marker without a digit behind it leaves the zero. -/
theorem longest_zero {mark : BaseMark w} {count : Nat} (shown : base.Begins text mark count)
    {marker : CodeUnit w} (there : mark.marker = some marker)
    (none : digitsOf text mark count = []) :
    count = 2 ∧ 2 ≤ text.length ∧ text.Longest base.Unsigned (text.take 1) ∧
      base.Magnitude 0 (text.take 1) := by
  cases shown with
  | plain unmarked => cases there
  | zero marked first unmarked => cases there
  | @marker zero marker more marked first second =>
    have begins : [zero] <+: zero :: marker :: more := by simp
    have magnitude := (magnitude_marker marked first second begins).mpr (.inl ⟨rfl, rfl⟩)
    refine ⟨rfl, by simp, ⟨begins, ⟨_, magnitude⟩, ?_⟩, magnitude⟩
    rintro other begins ⟨number, spelling⟩
    rcases (magnitude_marker marked first second begins).mp spelling with
      ⟨rfl, -⟩ | ⟨further, rfl, positional⟩
    · exact Nat.le_refl _
    · have inside : further <+: more := by simpa using begins
      have run := Text.run_begins positional.isDigit inside
      exact absurd (List.prefix_nil.mp (none ▸ run)) positional.ne_nil

theorem unsigned_none {mark : BaseMark w} {count : Nat} (shown : base.Begins text mark count)
    (bare : mark.marker = none) (plain : mark.zero = false)
    (none : digitsOf text mark count = []) :
    count = 0 ∧ ∀ front, front <+: text → ¬ base.Unsigned front := by
  cases shown with
  | plain unmarked =>
    refine ⟨rfl, ?_⟩
    rintro front begins ⟨number, spelling⟩
    have positional := (magnitude_plain begins unmarked).mp spelling
    have run := Text.run_begins positional.isDigit begins
    exact positional.ne_nil (List.prefix_nil.mp (none ▸ run))
  | zero marked first unmarked => cases plain
  | marker marked first second => cases bare

theorem Magnitude.unique {other : Nat} (magnitude : base.Magnitude number text)
    (again : base.Magnitude other text) : number = other := by
  obtain ⟨mark, count, shown⟩ := base.exists_begins text
  cases shown with
  | plain unmarked =>
    have first := (magnitude_plain List.prefix_rfl unmarked).mp magnitude
    have second := (magnitude_plain List.prefix_rfl unmarked).mp again
    exact first.value.symm.trans second.value
  | zero marked first unmarked =>
    have first' := (magnitude_zero marked first unmarked List.prefix_rfl).mp magnitude
    have second := (magnitude_zero marked first unmarked List.prefix_rfl).mp again
    exact first'.value.symm.trans second.value
  | marker marked first second =>
    rcases (magnitude_marker marked first second List.prefix_rfl).mp magnitude with
      ⟨alone, -⟩ | ⟨digits, whole, positional⟩
    · cases alone
    · rcases (magnitude_marker marked first second List.prefix_rfl).mp again with
        ⟨alone, -⟩ | ⟨digits', whole', positional'⟩
      · cases alone
      · cases whole
        cases whole'
        exact positional.value.symm.trans positional'.value

theorem Magnitude.ne_nil (magnitude : base.Magnitude number text) : text ≠ [] := by
  cases magnitude with
  | fixed digits => exact digits.ne_nil
  | marked allowed first second digits => exact List.cons_ne_nil _ _
  | octal first digits => exact List.cons_ne_nil _ _
  | decimal first digits => exact List.cons_ne_nil _ _

theorem Magnitude.unsigned (magnitude : base.Magnitude number text) :
    ∀ unit ∈ text.head?, unit.isSign = false := by
  have digit {radix : Nat} {text : Text w} (digits : Positional radix number text) :
      ∀ unit ∈ text.head?, unit.isSign = false := fun unit first =>
    CodeUnit.isSign_code (CodeUnit.isDigit_code (digits.isDigit unit (List.mem_of_head? first))).1
  cases magnitude with
  | fixed digits => exact digit digits
  | marked allowed first second digits =>
    rintro unit ⟨⟩
    exact CodeUnit.isSign_code (Nat.le_of_eq (beq_iff_eq.mp first).symm)
  | octal first digits => exact digit digits
  | decimal first digits => exact digit digits

theorem denotes_signed {sign : Option (CodeUnit w)} {value : Int}
    (signs : ∀ unit ∈ sign, unit.isSign = true)
    (unsigned : sign = none → ∀ unit ∈ text.head?, unit.isSign = false)
    (begins : front <+: sign.toList ++ text) :
    base.Denotes value front ↔ ∃ rest number, front = sign.toList ++ rest ∧
      base.Magnitude number rest ∧ value = signed sign number := by
  constructor
  · intro denotes
    -- The sign that was read and the sign of the numeral are the same mark of one text.
    cases denotes with
    | unsigned magnitude =>
      have none : ∀ unit ∈ (none : Option (CodeUnit w)), unit.isSign = true := nofun
      obtain ⟨rfl, -⟩ := Text.mark_split signs unsigned none magnitude.ne_nil magnitude.unsigned
        begins
      exact ⟨front, _, rfl, magnitude, rfl⟩
    | @plus number unit rest positive magnitude =>
      have same : ∀ other ∈ some unit, other.isSign = true := by
        rintro other ⟨⟩
        exact Bool.or_eq_true_iff.mpr (.inl positive)
      obtain ⟨rfl, -⟩ := Text.mark_split signs unsigned same magnitude.ne_nil magnitude.unsigned
        begins
      have minus : unit.isMinus = false := by
        rw [CodeUnit.isMinus, CodeUnit.is, beq_iff_eq.mp positive]
        rfl
      refine ⟨rest, number, rfl, magnitude, ?_⟩
      rw [signed, Option.any_some, minus, if_neg Bool.false_ne_true]
    | @minus number unit rest negative magnitude =>
      have same : ∀ other ∈ some unit, other.isSign = true := by
        rintro other ⟨⟩
        exact Bool.or_eq_true_iff.mpr (.inr negative)
      obtain ⟨rfl, -⟩ := Text.mark_split signs unsigned same magnitude.ne_nil magnitude.unsigned
        begins
      refine ⟨rest, number, rfl, magnitude, ?_⟩
      have minus : unit.isMinus = true := negative
      rw [signed, Option.any_some, minus, if_pos rfl]
  · rintro ⟨rest, number, rfl, magnitude, rfl⟩
    cases sign with
    | none => exact .unsigned magnitude
    | some unit =>
      cases minus : unit.isMinus with
      | true =>
        rw [signed, Option.any_some, minus, if_pos rfl]
        exact .minus minus magnitude
      | false =>
        have isSign := signs unit rfl
        rw [CodeUnit.isSign, minus, Bool.or_false] at isSign
        rw [signed, Option.any_some, minus, if_neg Bool.false_ne_true]
        exact .plus isSign magnitude

theorem longest_signed {sign : Option (CodeUnit w)}
    (signs : ∀ unit ∈ sign, unit.isSign = true)
    (unsigned : sign = none → ∀ unit ∈ text.head?, unit.isSign = false)
    (longest : text.Longest base.Unsigned front) (magnitude : base.Magnitude number front) :
    Text.Longest base.Language (sign.toList ++ text) (sign.toList ++ front) ∧
      base.Denotes (signed sign number) (sign.toList ++ front) := by
  have begins : sign.toList ++ front <+: sign.toList ++ text :=
    (List.prefix_append_right_inj _).mpr longest.begins
  have denotes := (denotes_signed signs unsigned begins).mpr ⟨front, number, rfl, magnitude, rfl⟩
  refine ⟨⟨begins, ⟨_, denotes⟩, ?_⟩, denotes⟩
  rintro other inside ⟨value, spelling⟩
  obtain ⟨rest, number, rfl, magnitude, -⟩ := (denotes_signed signs unsigned inside).mp spelling
  have shorter := longest.most rest ((List.prefix_append_right_inj _).mp inside) ⟨number, magnitude⟩
  simpa using shorter

theorem Denotes.unique {value other : Int} (denotes : base.Denotes value text)
    (again : base.Denotes other text) : value = other := by
  obtain ⟨sign, rest, split, signs, unsigned⟩ : ∃ (sign : Option (CodeUnit w)) (rest : Text w),
      text = sign.toList ++ rest ∧ (∀ unit ∈ sign, unit.isSign = true) ∧
        (sign = none → ∀ unit ∈ rest.head?, unit.isSign = false) := by
    obtain ⟨sign, rest, split, signs, unsigned, -⟩ :=
      Field.takeIf_split CodeUnit.isSign ⟨⟨⟨[], text⟩, 0⟩, none⟩
    exact ⟨sign, rest, split, signs, unsigned⟩
  have whole : text <+: sign.toList ++ rest := split ▸ List.prefix_rfl
  obtain ⟨_, number, same, magnitude, rfl⟩ := (denotes_signed signs unsigned whole).mp denotes
  obtain ⟨_, number', same', magnitude', rfl⟩ := (denotes_signed signs unsigned whole).mp again
  obtain rfl := List.append_cancel_left (same.symm.trans same')
  rw [magnitude.unique magnitude']

theorem Begins.within {mark : BaseMark w} {count : Nat} (shown : base.Begins text mark count) :
    count ≤ text.length := by
  cases shown with
  | plain unmarked => exact Nat.zero_le _
  | zero marked first unmarked => exact Nat.le_add_left 1 _
  | marker marked first second => exact Nat.le_add_left 2 _

end IntegerBase

namespace Counted

open IntegerBase (digitsOf)

variable {base : IntegerBase} {width : Option Nat} {input : Counted (TextSource w)}
  {sign : Option (CodeUnit w)} {rest : Text w} {mark : BaseMark w} {count : Nat}

theorem takeInteger_begins (split : Text.upTo width input.rest = sign.toList ++ rest)
    (took : Field.takeSign ⟨input, width⟩ = (sign, Field.advance sign.toList.length ⟨input, width⟩))
    (shown : base.Begins rest mark count) :
    input.takeInteger base width =
      let digits := digitsOf rest mark count
      let after := input.advance (sign.toList.length + count + digits.length)
      if digits.isEmpty && !mark.zero then
        match mark.marker with
        | some marker => (.ok 0, after.putBack marker)
        | none => (after.putBack? sign).fail
      else (.ok (wordOf (signed sign (digits.value mark.base))), after) := by
  have behind : (Field.advance sign.toList.length ⟨input, width⟩).rest = rest :=
    Field.rest_behind split
  rw [takeInteger, took]
  simp only
  rw [IntegerBase.takeMark_begins (behind.symm ▸ shown)]
  simp only [Field.takeWhile_text, Field.rest_advance, Field.input_advance, behind,
    advance_advance, digitsOf]
  rfl

/-- The longest beginning that denotes an integer is read, as the word of that integer. -/
def ReadsLongest (base : IntegerBase) (width : Option Nat) (input : Counted (TextSource w)) : Prop :=
  ∃ (front : Text w) (number : Int),
    (Text.upTo width input.rest).Longest base.Language front ∧ base.Denotes number front ∧
    (∀ other, base.Denotes other front → other = number) ∧
    input.takeInteger base width = (.ok (number % (Nat.pow 2 64 : Nat)).toNat, input.advance front.length)

theorem readsLongest {front : Text w} {number : Nat} (signs : ∀ unit ∈ sign, unit.isSign = true)
    (unsigned : sign = none → ∀ unit ∈ rest.head?, unit.isSign = false)
    (split : Text.upTo width input.rest = sign.toList ++ rest)
    (longest : rest.Longest base.Unsigned front) (magnitude : base.Magnitude number front)
    (read : input.takeInteger base width = (.ok (wordOf (signed sign number)),
      input.advance (sign.toList.length + front.length))) : ReadsLongest base width input := by
  obtain ⟨longest, denotes⟩ := IntegerBase.longest_signed signs unsigned longest magnitude
  refine ⟨_, _, split ▸ longest, denotes, fun other again => again.unique denotes, ?_⟩
  rw [read, List.length_append]
  rfl

/-- An integer is read as the longest beginning that denotes one, and the word holds it modulo
two to the 64. If there is none, nothing is consumed. No unit beyond ASCII is a digit. -/
theorem longest_integer_taken (base : IntegerBase) (width : Option Nat)
    (input : Counted (TextSource w)) :
    (ReadsLongest base width input ∨
      ((∀ front, front <+: Text.upTo width input.rest → ¬ base.Language front) ∧
        input.takeInteger base width =
          (.error (if input.rest = [] then .inputExhausted input.consumed
            else .mismatch input.consumed), input))) ∧
      ∀ (unit : CodeUnit w) (radix : Nat), 128 ≤ unit.code → unit.digit? radix = none := by
  constructor
  · obtain ⟨sign, rest, split, signs, unsigned, took⟩ :=
      Field.takeIf_split CodeUnit.isSign (⟨input, width⟩ : Field (TextSource w))
    have split : Text.upTo width input.rest = sign.toList ++ rest := split
    have seen : sign.toList ++ rest <+: input.rest := split ▸ Text.upTo_begins width input.rest
    obtain ⟨mark, count, shown⟩ := base.exists_begins rest
    have read := takeInteger_begins split took shown
    -- With digits or a leading zero a number is read; otherwise all hangs on the base mark.
    by_cases some_ : digitsOf rest mark count ≠ [] ∨ mark.zero = true
    · left
      obtain ⟨longest, magnitude⟩ := IntegerBase.longest_magnitude shown some_
      apply readsLongest signs unsigned split longest magnitude
      have going : ((digitsOf rest mark count).isEmpty && !mark.zero) = false := by
        rcases some_ with some_ | zero
        · rw [List.isEmpty_eq_false_iff.mpr some_, Bool.false_and]
        · rw [zero, Bool.not_true, Bool.and_false]
      simp only [read, going, Bool.false_eq_true, if_false, List.length_append,
        List.length_take_of_le shown.within, Nat.add_assoc]
    · obtain ⟨none, bare⟩ := not_or.mp some_
      have none : digitsOf rest mark count = [] := not_not.mp none
      have bare : mark.zero = false := Bool.eq_false_iff.mpr bare
      simp only [none, bare, List.isEmpty_nil, Bool.not_false, Bool.and_true, if_true,
        List.length_nil, Nat.add_zero] at read
      -- A mark without digits behind it is the zero it begins with, and its letter goes back.
      cases there : mark.marker with
      | some marker =>
        left
        obtain ⟨rfl, long, longest, magnitude⟩ := IntegerBase.longest_zero shown there none
        apply readsLongest signs unsigned split longest magnitude
        have within : sign.toList.length + 1 < input.rest.length := by
          have shorter := seen.length_le
          rw [List.length_append] at shorter
          omega
        have nothing : wordOf (signed sign 0) = 0 := by simp [signed, wordOf]
        simp only [there, putBack_advance within] at read
        rw [read, nothing, List.length_take_of_le (by omega)]
      | none =>
        right
        obtain ⟨rfl, never⟩ := IntegerBase.unsigned_none shown there bare none
        constructor
        · rw [split]
          rintro front begins ⟨value, spelling⟩
          obtain ⟨behind, number, rfl, magnitude, -⟩ :=
            (IntegerBase.denotes_signed signs unsigned begins).mp spelling
          exact never behind ((List.prefix_append_right_inj _).mp begins) ⟨number, magnitude⟩
        · have near : sign.toList <+: input.rest := (List.prefix_append _ _).trans seen
          simp only [there, Nat.add_zero, putBack?_taken near, fail_text, unmatched_text] at read
          exact read
  · intro unit radix foreign
    exact Option.isNone_iff_eq_none.mp
      (Option.isSome_eq_false_iff.mp (CodeUnit.isDigit_foreign foreign))

end Counted

end FormattedInput
