import FormattedInput.Proofs.PrintedMarks
import FormattedInput.Proofs.StoredPlaces
import FormattedInput.Proofs.TextScan

namespace FormattedInput

variable {w : Width}

theorem IntegerType.ofWord_wordOf {type : IntegerType} {value : Int} (holds : type.Holds value) :
    type.ofWord (wordOf value) = value := by
  apply holds_unique (type.holds_ofWord _) holds
  have small : type.bits ≤ 64 := by
    obtain ⟨isSigned, size⟩ := type
    cases size <;> exact Nat.le_of_ble_eq_true rfl
  have narrow : (Nat.pow 2 type.bits : Int) ∣ UInt64.size :=
    Int.natCast_dvd_natCast.mpr (Nat.pow_dvd_pow 2 small)
  have word : (wordOf value : Int) = value % UInt64.size :=
    Int.toNat_of_nonneg (Int.emod_nonneg _ (by decide))
  have residue := type.ofWord_emod (wordOf value)
  rw [word] at residue
  exact residue.trans (Int.emod_emod_of_dvd _ narrow)

namespace CodeUnit

variable {unit : CodeUnit w} {base digit : Nat}

theorem isDigit_code (digit : unit.isDigit base = true) : 48 ≤ unit.code ∧ unit.code < 128 := by
  have zero : '0'.toNat = 48 := rfl
  have nine : '9'.toNat = 57 := rfl
  have upper : 'A'.toNat = 65 := rfl
  have last : 'Z'.toNat = 90 := rfl
  have lower : 'a'.toNat = 97 := rfl
  have least : 'z'.toNat = 122 := rfl
  by_contra outside
  have none : digit?.alphanumeric unit.code = none := by
    rw [digit?.alphanumeric, if_neg (by omega), if_neg (by omega), if_neg (by omega)]
  simp [isDigit, digit?, none] at digit

theorem isSign_code (least : 48 ≤ unit.code) : unit.isSign = false := by
  have plus : unit.is '+' = false :=
    beq_eq_false_iff_ne.mpr (Nat.ne_of_gt (Nat.lt_of_lt_of_le (by decide) least))
  have minus : unit.is '-' = false :=
    beq_eq_false_iff_ne.mpr (Nat.ne_of_gt (Nat.lt_of_lt_of_le (by decide) least))
  rw [isSign, isMinus, plus, minus, Bool.or_self]

theorem visible_code (above : 32 < unit.code) (below : unit.code < 128) :
    unit.isSpace = false := by
  by_contra space
  have code := isSpace_code (Bool.not_eq_false _ ▸ space)
  omega

theorem digit?_zero (read : unit.digit? base = some digit) : unit.is '0' = true ↔ digit = 0 := by
  have zero : '0'.toNat = 48 := rfl
  have upper : 'A'.toNat = 65 := rfl
  have lower : 'a'.toNat = 97 := rfl
  obtain ⟨read, -⟩ := Option.filter_eq_some_iff.mp read
  rw [is, beq_iff_eq, zero]
  unfold digit?.alphanumeric at read
  split at read
  · cases read
    omega
  · split at read
    · cases read
      omega
    · split at read
      · cases read
        omega
      · cases read

end CodeUnit

theorem Text.value_further (base : Nat) (front : Text w) (unit : CodeUnit w) :
    Text.value base (front ++ [unit]) =
      Text.value base front * base + (unit.digit? base).getD 0 :=
  List.foldl_append

/-- The digits of a number in a base, without zeros in front. -/
inductive Numeral (base : Nat) : Nat → Text w → Prop where
  | single {digit : Nat} {unit : CodeUnit w} (read : unit.digit? base = some digit) :
    Numeral base digit [unit]
  | further {number digit : Nat} {front : Text w} {unit : CodeUnit w} (positive : 0 < number)
    (numeral : Numeral base number front) (read : unit.digit? base = some digit) :
    Numeral base (number * base + digit) (front ++ [unit])

namespace Numeral

variable {base number : Nat} {digits : Text w}

theorem value (numeral : Numeral base number digits) : Text.value base digits = number := by
  induction numeral with
  | single read => simp [Text.value, read]
  | further positive numeral read ih => rw [Text.value_further, ih, read, Option.getD_some]

theorem isDigit (numeral : Numeral base number digits) :
    ∀ unit ∈ digits, unit.isDigit base = true := by
  induction numeral with
  | single read =>
    intro unit member
    rw [List.mem_singleton.mp member, CodeUnit.isDigit, read]
    rfl
  | further positive numeral read ih =>
    intro unit member
    rcases List.mem_append.mp member with front | last
    · exact ih unit front
    · rw [List.mem_singleton.mp last, CodeUnit.isDigit, read]
      rfl

theorem ne_nil (numeral : Numeral base number digits) : digits ≠ [] := by
  cases numeral with
  | single read => exact List.cons_ne_nil _ _
  | further positive numeral read =>
    exact List.append_ne_nil_of_right_ne_nil _ (List.cons_ne_nil _ _)

theorem leads (numeral : Numeral base number digits) (positive : number ≠ 0) :
    ∀ unit ∈ digits.head?, unit.is '0' = false := by
  induction numeral with
  | single read =>
    rintro unit ⟨⟩
    exact Bool.eq_false_iff.mpr fun zero => positive ((CodeUnit.digit?_zero read).mp zero)
  | further above numeral read ih =>
    rw [List.head?_append_of_ne_nil _ numeral.ne_nil]
    exact ih (Nat.ne_of_gt above)

theorem zero (numeral : Numeral base number digits) (nothing : number = 0) :
    ∃ unit, digits = [unit] ∧ unit.is '0' = true := by
  cases numeral with
  | single read => exact ⟨_, rfl, (CodeUnit.digit?_zero read).mpr nothing⟩
  | further positive numeral read =>
    have below : _ < base := of_decide_eq_true (Option.filter_eq_some_iff.mp read).2
    have more := Nat.mul_pos positive (Nat.zero_lt_of_lt below)
    omega

end Numeral

inductive NumberStyle where
  | decimal
  | unsigned
  | announced
  | octal
  | hex (marked capital : Bool)
deriving DecidableEq

namespace NumberStyle

def kind : NumberStyle → ConversionKind
  | decimal => .decimal
  | unsigned => .unsigned
  | announced => .integer
  | octal => .octal
  | hex _ _ => .hex

def base : NumberStyle → IntegerBase
  | decimal | unsigned => .fixed 10
  | announced => .announced
  | octal => .fixed 8
  | hex _ _ => .fixed 16

def radix (style : NumberStyle) : Nat := style.base.plainBase

def marker : NumberStyle → List Char
  | hex true false => ['0', 'x']
  | hex true true => ['0', 'X']
  | hex false _ | decimal | unsigned | announced | octal => []

def cased : NumberStyle → Char → Char
  | hex _ true, letter => letter.toUpper
  | hex _ false, letter | decimal, letter | unsigned, letter | announced, letter
  | octal, letter => letter

def digits (style : NumberStyle) (number : Nat) : List Char :=
  (Nat.toDigits style.radix number).map style.cased

/-- A sign if there is need for one, the marker and the digits. -/
def letters (style : NumberStyle) (value : Int) : List Char :=
  (if value < 0 then ['-'] else []) ++ style.marker ++ style.digits value.natAbs

theorem letters_decimal (value : Int) : decimal.letters value = (toString value).toList := by
  have digits (number : Nat) : decimal.digits number = Nat.toDigits 10 number := List.map_id _
  cases value with
  | ofNat number =>
    have sign : ¬ Int.ofNat number < 0 := Int.not_lt.mpr (Int.natCast_nonneg number)
    rw [letters, digits, if_neg sign]
    exact Nat.toList_repr.symm
  | negSucc number =>
    have sign : Int.negSucc number < 0 := Int.negSucc_lt_zero number
    have spelled : toString (Int.negSucc number) = "-" ++ (number + 1).repr := rfl
    rw [letters, digits, if_pos sign, spelled, String.toList_append, Nat.toList_repr]
    rfl

theorem digit?_cased (style : NumberStyle) {digit : Nat} (below : digit < style.radix) :
    (style.cased digit.digitChar).toNat < 128 ∧
      (CodeUnit.ofNat w (style.cased digit.digitChar).toNat).digit? style.radix = some digit := by
  have all : ∀ (capital : Bool) (digit : Fin 16),
      ((hex false capital).cased (Nat.digitChar digit)).toNat < 128 ∧
      CodeUnit.digit?.alphanumeric ((hex false capital).cased (Nat.digitChar digit)).toNat =
        some digit.val := by decide
  have few : style.radix ≤ 16 := by cases style <;> exact Nat.le_of_ble_eq_true rfl
  obtain ⟨capital, same⟩ : ∃ capital, style.cased = (hex false capital).cased := by
    cases style with
    | hex marked capital => exact ⟨capital, by cases capital <;> rfl⟩
    | decimal | unsigned | announced | octal => exact ⟨false, rfl⟩
  obtain ⟨ascii, read⟩ := all capital ⟨digit, Nat.lt_of_lt_of_le below few⟩
  rw [same]
  refine ⟨ascii, ?_⟩
  rw [CodeUnit.digit?, CodeUnit.code_ofAscii ascii, read]
  exact Option.filter_some_pos (decide_eq_true below)

theorem numeral_digits (style : NumberStyle) (number : Nat) :
    Numeral style.radix number (Text.ofChars w (style.digits number)) := by
  have two : 1 < style.radix := by cases style <;> exact Nat.le_of_ble_eq_true rfl
  have letter {digit : Nat} (below : digit < style.radix) :
      ∃ unit : CodeUnit w, Text.ofChars w [style.cased digit.digitChar] = [unit] ∧
        unit.digit? style.radix = some digit := by
    obtain ⟨ascii, read⟩ := style.digit?_cased (w := w) below
    exact ⟨_, Text.ofChars_ascii ascii, read⟩
  induction number using Nat.strongRecOn with
  | ind number ih =>
    rw [digits, Nat.toDigits_eq_if two]
    split
    · rename_i below
      obtain ⟨unit, spelled, read⟩ := letter below
      rw [List.map_singleton, spelled]
      exact .single read
    · rename_i above
      obtain ⟨unit, spelled, read⟩ := letter (Nat.mod_lt number (Nat.zero_lt_of_lt two))
      have positive : 0 < number / style.radix :=
        Nat.div_pos (Nat.le_of_not_lt above) (Nat.zero_lt_of_lt two)
      have smaller : number / style.radix < number := Nat.div_lt_self (by omega) two
      have whole := Numeral.further positive (ih _ smaller) read
      rw [Nat.div_add_mod'] at whole
      rw [List.map_append, List.map_singleton, Text.ofChars_append, spelled]
      exact whole

end NumberStyle

/-- The spellings of a magnitude that a base reads whole. -/
inductive IntegerBase.Spells (base : IntegerBase) : Nat → Text w → Prop where
  | plain {number : Nat} {digits : Text w} (numeral : Numeral base.plainBase number digits)
    (unannounced : base.marked = true → number ≠ 0) : Spells base number digits
  | zero {unit : CodeUnit w} (marked : base.marked = true) (zero : unit.is '0' = true) :
    Spells base 0 [unit]
  | marked {number : Nat} {zero marker : CodeUnit w} {digits : Text w}
    (marked : base.marked = true) (first : zero.is '0' = true)
    (second : (marker.is 'x' || marker.is 'X') = true) (numeral : Numeral 16 number digits) :
    Spells base number (zero :: marker :: digits)

namespace IntegerBase.Spells

variable {base : IntegerBase} {number : Nat} {magnitude : Text w}

theorem ne_nil (spells : base.Spells number magnitude) : magnitude ≠ [] := by
  cases spells with
  | plain numeral unannounced => exact numeral.ne_nil
  | zero marked zero => exact List.cons_ne_nil _ _
  | marked marked first second numeral => exact List.cons_ne_nil _ _

theorem code (spells : base.Spells number magnitude) :
    ∀ unit ∈ magnitude, 48 ≤ unit.code ∧ unit.code < 128 := by
  have zeroCode {unit : CodeUnit w} (zero : unit.is '0' = true) :
      48 ≤ unit.code ∧ unit.code < 128 := by
    rw [beq_iff_eq.mp zero]
    decide
  cases spells with
  | plain numeral unannounced =>
    exact fun unit member => CodeUnit.isDigit_code (numeral.isDigit unit member)
  | zero marked zero => exact List.forall_mem_singleton.mpr (zeroCode zero)
  | marked marked first second numeral =>
    rename_i zero marker digits
    have marks : 48 ≤ marker.code ∧ marker.code < 128 := by
      rcases Bool.or_eq_true_iff.mp second with lower | upper
      · rw [beq_iff_eq.mp lower]
        decide
      · rw [beq_iff_eq.mp upper]
        decide
    have others : ∀ unit ∈ digits, 48 ≤ unit.code ∧ unit.code < 128 :=
      fun unit member => CodeUnit.isDigit_code (numeral.isDigit unit member)
    exact List.forall_mem_cons.mpr ⟨zeroCode first, List.forall_mem_cons.mpr ⟨marks, others⟩⟩

end IntegerBase.Spells

theorem NumberStyle.spells (style : NumberStyle) (number : Nat) :
    style.base.Spells number (Text.ofChars w (style.marker ++ style.digits number)) := by
  have numeral : Numeral style.base.plainBase number (Text.ofChars w (style.digits number)) :=
    style.numeral_digits number
  rw [Text.ofChars_append]
  by_cases unmarked : style.marker = []
  · rw [unmarked, Text.ofChars_nil, List.nil_append]
    by_cases announces : style.base.marked = true ∧ number = 0
    · obtain ⟨marked, rfl⟩ := announces
      obtain ⟨unit, single, zero⟩ := numeral.zero rfl
      rw [single]
      exact .zero marked zero
    · exact .plain numeral fun marked nothing => announces ⟨marked, nothing⟩
  · cases style with
    | decimal | unsigned | announced | octal => exact absurd rfl unmarked
    | hex marked capital =>
      cases marked with
      | false => exact absurd rfl unmarked
      | true =>
        have announced (letter : Char) (ascii : letter.toNat < 128)
            (marks : (letter == 'x' || letter == 'X') = true) :
            (IntegerBase.fixed 16).Spells number (Text.ofChars w ['0', letter] ++
              Text.ofChars w ((hex true capital).digits number)) := by
          rw [Text.ofChars_cons, Text.ofChars_ascii (by decide), Text.ofChars_ascii ascii]
          apply IntegerBase.Spells.marked rfl _ _ numeral
          · exact CodeUnit.is_ofAscii (by decide) _
          · rw [CodeUnit.is_ofAscii ascii, CodeUnit.is_ofAscii ascii]
            exact marks
        cases capital with
        | false => exact announced 'x' (by decide) rfl
        | true => exact announced 'X' (by decide) rfl

namespace NumberStyle

def sign? (w : Width) (value : Int) : Option (CodeUnit w) :=
  if value < 0 then some (.ofNat w '-'.toNat) else none

theorem ofChars_letters (style : NumberStyle) (value : Int) :
    Text.ofChars w (style.letters value) =
      (sign? w value).toList ++ Text.ofChars w (style.marker ++ style.digits value.natAbs) := by
  rw [letters, List.append_assoc, Text.ofChars_append, sign?]
  split
  · rw [Text.ofChars_ascii (by decide)]
    rfl
  · rw [Text.ofChars_nil]
    rfl

theorem sign?_isSign (value : Int) : ∀ unit ∈ sign? w value, unit.isSign = true := by
  intro unit member
  unfold sign? at member
  split at member
  · cases member
    rw [CodeUnit.isSign, CodeUnit.isMinus, CodeUnit.is_ofAscii (by decide),
      CodeUnit.is_ofAscii (by decide)]
    rfl
  · cases member

theorem signed_sign? (value : Int) : signed (sign? w value) value.natAbs = value := by
  unfold sign?
  split
  · have minus : (CodeUnit.ofNat w '-'.toNat).isMinus = true := CodeUnit.is_ofAscii (by decide) _
    rw [signed, Option.any_some, minus, if_pos rfl]
    omega
  · rw [signed, Option.any_none, if_neg Bool.false_ne_true]
    omega

theorem letters_code (style : NumberStyle) (value : Int) :
    ∀ unit ∈ Text.ofChars w (style.letters value), 32 < unit.code ∧ unit.code < 128 := by
  rw [ofChars_letters, List.forall_mem_append]
  constructor
  · intro unit member
    unfold sign? at member
    split at member
    · rw [List.mem_singleton.mp member, CodeUnit.code_ofAscii (by decide)]
      decide
    · cases member
  · intro unit member
    obtain ⟨least, below⟩ := (style.spells (w := w) value.natAbs).code unit member
    exact ⟨Nat.lt_of_lt_of_le (by decide) least, below⟩

end NumberStyle

theorem Text.head_front {front more : Text w} (some_ : front ≠ []) :
    ∀ unit ∈ (front ++ more).head?, unit ∈ front := by
  intro unit first
  rw [List.head?_append_of_ne_nil _ some_] at first
  exact List.mem_of_head? first

theorem Text.takeWhile_front {accept : CodeUnit w → Bool} {units more : Text w}
    (accepted : ∀ unit ∈ units, accept unit = true)
    (stops : ∀ unit ∈ more.head?, accept unit = false) :
    (units ++ more).takeWhile accept = units := by
  rw [List.takeWhile_append_of_pos accepted]
  cases more with
  | nil => simp
  | cons unit more => simp [stops unit rfl]

/-- Nothing, or what whitespace keeps apart. -/
def Text.Detached (more : Text w) : Prop := ∀ unit ∈ more.head?, unit.isSpace = true

theorem Text.Detached.isDigit {more : Text w} (apart : more.Detached) (base : Nat) :
    ∀ unit ∈ more.head?, unit.isDigit base = false :=
  fun unit member => CodeUnit.isDigit_isSpace (apart unit member)

theorem Text.Detached.unmarked {more : Text w} (apart : more.Detached) :
    ∀ unit ∈ more.head?, (unit.is 'x' || unit.is 'X') = false := by
  intro unit member
  have space := apart unit member
  rw [CodeUnit.is_isSpace space (by decide) (by decide),
    CodeUnit.is_isSpace space (by decide) (by decide), Bool.or_self]

namespace Field

variable {field : Field (TextSource w)} {accept : CodeUnit w → Bool} {more : Text w}

theorem takeIf_first {unit : CodeUnit w} (shown : field.rest = unit :: more)
    (accepted : accept unit = true) : field.takeIf accept = (some unit, field.advance 1) := by
  rw [takeIf_text, shown]
  simp only [accepted, if_true]

theorem takeIf_shown {taken : Option (CodeUnit w)} (shown : field.rest = taken.toList ++ more)
    (accepted : ∀ unit ∈ taken, accept unit = true)
    (stops : taken = none → ∀ unit ∈ more.head?, accept unit = false) :
    field.takeIf accept = (taken, field.advance taken.toList.length) := by
  rw [takeIf_text, shown]
  cases taken with
  | some unit => simp [accepted unit rfl]
  | none =>
    cases more with
    | nil => simp
    | cons unit more => simp [stops rfl unit rfl]

theorem takeWhile_shown {units : Text w} (shown : field.rest = units ++ more)
    (accepted : ∀ unit ∈ units, accept unit = true)
    (stops : ∀ unit ∈ more.head?, accept unit = false) :
    field.takeWhile accept = (units, field.advance units.length) := by
  rw [takeWhile_text, shown, Text.takeWhile_front accepted stops]

theorem takeDigits {base number : Nat} {digits : Text w} (numeral : Numeral base number digits)
    (shown : field.rest = digits ++ more) (apart : more.Detached) :
    field.takeWhile (CodeUnit.isDigit base) = (digits, field.advance digits.length) :=
  takeWhile_shown shown numeral.isDigit (apart.isDigit base)

end Field

namespace IntegerBase

variable {base : IntegerBase} {field : Field (TextSource w)}

theorem takeMark_plain
    (unmarked : base.marked = true → ∀ unit ∈ field.rest.head?, unit.is '0' = false) :
    base.takeMark field = (⟨base.plainBase, false, none⟩, field) := by
  unfold takeMark
  split
  · rename_i marked
    have none : field.takeIf (fun unit => unit.is '0') = (none, field.advance 0) :=
      Field.takeIf_shown (List.nil_append _).symm nofun fun _ => unmarked marked
    rw [none, Field.advance_zero]
  · rfl

theorem takeMark_zero (marked : base.marked = true) {unit : CodeUnit w} {more : Text w}
    (shown : field.rest = unit :: more) (zero : unit.is '0' = true)
    (unmarked : ∀ unit ∈ more.head?, (unit.is 'x' || unit.is 'X') = false) :
    base.takeMark field = (⟨base.zeroBase, true, none⟩, field.advance 1) := by
  have first : field.takeIf (fun unit => unit.is '0') = (some unit, field.advance 1) :=
    Field.takeIf_first shown zero
  have behind : (field.advance 1).rest = [] ++ more := by
    rw [Field.rest_advance, shown]
    rfl
  have second : (field.advance 1).takeIf (fun unit => unit.is 'x' || unit.is 'X') =
      (none, (field.advance 1).advance 0) :=
    Field.takeIf_shown behind nofun fun _ => unmarked
  rw [takeMark, if_pos marked, first]
  simp only [second, Field.advance_zero]

theorem takeMark_marker (marked : base.marked = true) {zero marker : CodeUnit w} {more : Text w}
    (shown : field.rest = zero :: marker :: more) (leads : zero.is '0' = true)
    (marks : (marker.is 'x' || marker.is 'X') = true) :
    base.takeMark field = (⟨16, false, some marker⟩, field.advance 2) := by
  have first : field.takeIf (fun unit => unit.is '0') = (some zero, field.advance 1) :=
    Field.takeIf_first shown leads
  have behind : (field.advance 1).rest = marker :: more := by
    rw [Field.rest_advance, shown]
    rfl
  have second : (field.advance 1).takeIf (fun unit => unit.is 'x' || unit.is 'X') =
      (some marker, (field.advance 1).advance 1) := Field.takeIf_first behind marks
  rw [takeMark, if_pos marked, first]
  simp only [second, Field.advance_advance]

end IntegerBase

namespace Counted

variable {input : Counted (TextSource w)} {more : Text w}

theorem dropSpace_shown {gap : Text w} (shown : input.rest = gap ++ more)
    (spaces : ∀ unit ∈ gap, unit.isSpace = true)
    (visible : ∀ unit ∈ more.head?, unit.isSpace = false) :
    input.dropSpace = input.advance gap.length := by
  rw [dropSpace_text, shown, Text.takeWhile_front spaces visible]

theorem dropSpace_visible (visible : ∀ unit ∈ input.rest.head?, unit.isSpace = false) :
    input.dropSpace = input :=
  dropSpace_shown (List.nil_append _).symm nofun visible

theorem takeInteger_spelled {base : IntegerBase} {sign : Option (CodeUnit w)} {number : Nat}
    {magnitude : Text w} (spells : base.Spells number magnitude)
    (shown : input.rest = sign.toList ++ (magnitude ++ more)) (apart : more.Detached)
    (signs : ∀ unit ∈ sign, unit.isSign = true)
    (unsigned : sign = none → ∀ unit ∈ (magnitude ++ more).head?, unit.isSign = false) :
    input.takeInteger base none =
      (.ok (wordOf (signed sign number)),
        input.advance (sign.toList.length + magnitude.length)) := by
  have taken : Field.takeSign ⟨input, none⟩ =
      (sign, Field.advance sign.toList.length ⟨input, none⟩) :=
    Field.takeIf_shown shown signs unsigned
  have behind : (Field.advance sign.toList.length ⟨input, none⟩).rest = magnitude ++ more := by
    rw [Field.rest_advance]
    exact (congrArg (List.drop _) shown).trans List.drop_left
  have reached : (Field.advance sign.toList.length ⟨input, none⟩).input =
      input.advance sign.toList.length := rfl
  rw [takeInteger, taken]
  simp only
  generalize Field.advance sign.toList.length ⟨input, none⟩ = field at behind reached
  -- One case for each way to announce the base: not at all, by a zero, by its mark.
  cases spells with
  | plain numeral unannounced =>
    have first : base.marked = true → ∀ unit ∈ field.rest.head?, unit.is '0' = false := by
      intro marked
      rw [behind, List.head?_append_of_ne_nil _ numeral.ne_nil]
      exact numeral.leads (unannounced marked)
    have some_ : magnitude.isEmpty = false := List.isEmpty_eq_false_iff.mpr numeral.ne_nil
    simp only [IntegerBase.takeMark_plain first, Field.takeDigits numeral behind apart, some_,
      Bool.false_and, Bool.false_eq_true, if_false, numeral.value, Field.input_advance, reached,
      advance_advance]
  | zero marked zero =>
    have left : (field.advance 1).rest = [] ++ more := by
      rw [Field.rest_advance, behind]
      rfl
    have digits : (field.advance 1).takeWhile (CodeUnit.isDigit base.zeroBase) =
        ([], (field.advance 1).advance 0) :=
      Field.takeWhile_shown left (List.forall_mem_nil _) (apart.isDigit _)
    simp only [IntegerBase.takeMark_zero marked behind zero apart.unmarked, digits, Bool.not_true,
      Bool.and_false, Bool.false_eq_true, if_false, Field.advance_zero, Field.input_advance,
      reached, advance_advance]
    rfl
  | marked marked first second numeral =>
    rename_i zero marker digits
    have left : (field.advance 2).rest = digits ++ more := by
      rw [Field.rest_advance, behind]
      rfl
    have some_ : digits.isEmpty = false := List.isEmpty_eq_false_iff.mpr numeral.ne_nil
    simp only [IntegerBase.takeMark_marker marked behind first second,
      Field.takeDigits numeral left apart, some_, Bool.false_and, Bool.false_eq_true, if_false,
      numeral.value, Field.input_advance, reached, advance_advance, List.length_cons]
    rw [Nat.add_assoc, Nat.add_comm 2]

/-- A printed integer is read as the word that holds it. -/
theorem convertInteger_printed (style : NumberStyle) (value : Int)
    (shown : input.rest = Text.ofChars w (style.letters value) ++ more) (apart : more.Detached) :
    input.convertInteger style.base none =
      (⟨some (.word (wordOf value)), none⟩,
        input.advance (Text.ofChars w (style.letters value)).length) := by
  have spells := style.spells (w := w) value.natAbs
  have parts := style.ofChars_letters (w := w) value
  have some_ : Text.ofChars w (style.letters value) ≠ [] :=
    parts ▸ List.append_ne_nil_of_right_ne_nil _ spells.ne_nil
  have visible : ∀ unit ∈ input.rest.head?, unit.isSpace = false := by
    intro unit first
    obtain ⟨above, below⟩ := style.letters_code value unit
      (Text.head_front some_ unit (shown ▸ first))
    exact CodeUnit.visible_code above below
  have unsigned : ∀ unit ∈ (Text.ofChars w (style.marker ++ style.digits value.natAbs) ++
      more).head?, unit.isSign = false := fun unit first =>
    CodeUnit.isSign_code (spells.code unit (Text.head_front spells.ne_nil unit first)).1
  have behind : input.rest = (NumberStyle.sign? w value).toList ++
      (Text.ofChars w (style.marker ++ style.digits value.natAbs) ++ more) := by
    rw [shown, parts, List.append_assoc]
  have read := takeInteger_spelled spells behind apart (NumberStyle.sign?_isSign value)
    fun _ => unsigned
  rw [convertInteger, dropSpace_visible visible, read, NumberStyle.signed_sign?, parts,
    List.length_append]

end Counted

end FormattedInput
