import FormattedInput.Format.Reading
import FormattedInput.Literal.Placeholder

namespace FormattedInput

variable {w : Width}

namespace CodeUnit

theorem code_ofAscii {letter : Char} (ascii : letter.toNat < 128) :
    (ofNat w letter.toNat).code = letter.toNat := by
  apply code_ofNat
  cases w
  · exact Nat.lt_trans ascii (by decide)
  · exact Nat.lt_trans ascii (by decide)

theorem is_ofAscii {letter : Char} (ascii : letter.toNat < 128) (mark : Char) :
    (ofNat w letter.toNat).is mark = (letter == mark) := by
  rw [Bool.eq_iff_iff, is, code_ofAscii ascii, beq_iff_eq, beq_iff_eq]
  exact Char.toNat_inj

theorem is_foreign {unit : CodeUnit w} (foreign : 128 ≤ unit.code) {mark : Char}
    (ascii : mark.toNat < 128) : unit.is mark = false := by
  rw [is, beq_eq_false_iff_ne]
  omega

theorem isDigit_ofAscii {letter : Char} (ascii : letter.toNat < 128) :
    (ofNat w letter.toNat).isDigit 10 = letter.isDigit := by
  have zero : '0'.toNat = 48 := rfl
  have nine : '9'.toNat = 57 := rfl
  have upper : 'A'.toNat = 65 := rfl
  have lower : 'a'.toNat = 97 := rfl
  have digit : letter.isDigit = decide (48 ≤ letter.toNat ∧ letter.toNat ≤ 57) := by
    rw [Bool.eq_iff_iff, Char.isDigit_iff_toNat, decide_eq_true_iff]
    rfl
  rw [digit, isDigit, digit?, digit?.alphanumeric, code_ofAscii ascii, zero, nine, upper, lower]
  split
  · rename_i inside
    have below : letter.toNat - 48 < 10 := by omega
    simp [below, inside]
  · rename_i outside
    rw [decide_eq_false outside]
    split
    · simp
    · split <;> simp

theorem isDigit_foreign {unit : CodeUnit w} {base : Nat} (foreign : 128 ≤ unit.code) :
    unit.isDigit base = false := by
  have nine : '9'.toNat = 57 := rfl
  have upper : 'Z'.toNat = 90 := rfl
  have lower : 'z'.toNat = 122 := rfl
  have none : digit?.alphanumeric unit.code = none := by
    rw [digit?.alphanumeric, if_neg (by omega), if_neg (by omega), if_neg (by omega)]
  simp [isDigit, digit?, none]

end CodeUnit

namespace Text

def Foreign (text : Text w) : Prop := ∀ unit ∈ text, 128 ≤ unit.code

@[simp] theorem ofChars_nil : ofChars w [] = [] := by cases w <;> rfl

theorem ofChars_cons (letter : Char) (letters : List Char) :
    ofChars w (letter :: letters) = ofChars w [letter] ++ ofChars w letters := by
  cases w <;> simp [ofChars]

theorem ofChars_append (front back : List Char) :
    ofChars w (front ++ back) = ofChars w front ++ ofChars w back := by
  cases w <;> simp [ofChars]

theorem ofChars_ascii {letter : Char} (ascii : letter.toNat < 128) :
    ofChars w [letter] = [CodeUnit.ofNat w letter.toNat] := by
  cases w with
  | narrow =>
    have small : letter.toNat ≤ 127 := Nat.le_of_lt_succ ascii
    have byte : letter.toNat % 256 = letter.toNat := by omega
    simp [ofChars, String.utf8EncodeChar, small, byte]
  | wide =>
    have single : letter.toNat < 0x10000 := Nat.lt_trans ascii (by decide)
    simp [ofChars, ofChars.utf16, ofCodes, single]

theorem foreign_utf8 {letter : Char} (beyond : 128 ≤ letter.toNat) :
    ∀ byte ∈ String.utf8EncodeChar letter, 128 ≤ byte.toNat := by
  have large : ¬ letter.val.toNat ≤ 127 := Nat.not_le_of_lt beyond
  intro byte member
  simp only [String.utf8EncodeChar, if_neg large] at member
  split at member
  · simp only [List.mem_cons, List.not_mem_nil, or_false] at member
    rcases member with rfl | rfl <;> rw [UInt8.toNat_ofNat'] <;> omega
  · split at member
    · simp only [List.mem_cons, List.not_mem_nil, or_false] at member
      rcases member with rfl | rfl | rfl <;> rw [UInt8.toNat_ofNat'] <;> omega
    · simp only [List.mem_cons, List.not_mem_nil, or_false] at member
      rcases member with rfl | rfl | rfl | rfl <;> rw [UInt8.toNat_ofNat'] <;> omega

theorem foreign_utf16 {scalar : Nat} (beyond : 128 ≤ scalar) (valid : scalar < 0x110000) :
    ∀ code ∈ ofChars.utf16 scalar, 128 ≤ code ∧ code < 0x10000 := by
  intro code member
  unfold ofChars.utf16 at member
  split at member
  · rename_i single
    simp only [List.mem_singleton] at member
    omega
  · simp only [List.mem_cons, List.not_mem_nil, or_false] at member
    rcases member with high | low <;> omega

theorem toNat_lt (letter : Char) : letter.toNat < 0x110000 := by
  have valid : letter.toNat.isValidChar := letter.valid
  unfold Nat.isValidChar at valid
  omega

theorem ofChars_foreign {letter : Char} (beyond : 128 ≤ letter.toNat) :
    ofChars w [letter] ≠ [] ∧ Foreign (ofChars w [letter]) := by
  cases w with
  | narrow =>
    constructor
    · simp [ofChars, String.utf8EncodeChar_ne_nil]
    · intro unit member
      simp only [ofChars, List.flatMap_cons, List.flatMap_nil, List.append_nil,
        List.mem_map] at member
      obtain ⟨byte, found, rfl⟩ := member
      rw [CodeUnit.code_ofNat byte.toNat_lt]
      exact foreign_utf8 beyond byte found
  | wide =>
    constructor
    · simp only [ofChars, List.flatMap_cons, List.flatMap_nil, List.append_nil, ofCodes,
        ofChars.utf16]
      split <;> simp
    · intro unit member
      simp only [ofChars, List.flatMap_cons, List.flatMap_nil, List.append_nil, ofCodes,
        List.mem_map] at member
      obtain ⟨code, found, rfl⟩ := member
      have inside := foreign_utf16 beyond (toNat_lt letter) code found
      rw [CodeUnit.code_ofNat inside.2]
      exact inside.1

theorem ofChars_cases (letter : Char) (letters : List Char) :
    (letter.toNat < 128 ∧
      ofChars w (letter :: letters) = CodeUnit.ofNat w letter.toNat :: ofChars w letters) ∨
    (128 ≤ letter.toNat ∧ ∃ first more, Foreign (first :: more) ∧
      ofChars w (letter :: letters) = first :: (more ++ ofChars w letters)) := by
  rw [ofChars_cons]
  by_cases ascii : letter.toNat < 128
  · exact .inl ⟨ascii, by rw [ofChars_ascii ascii, List.singleton_append]⟩
  · have beyond : 128 ≤ letter.toNat := Nat.le_of_not_lt ascii
    obtain ⟨nonempty, foreign⟩ := ofChars_foreign (w := w) beyond
    obtain ⟨first, more, eq⟩ := List.exists_cons_of_ne_nil nonempty
    rw [eq] at foreign ⊢
    exact .inr ⟨beyond, first, more, foreign, rfl⟩

/-- A test of units and a test of characters that agree on ASCII and do not tell
what lies beyond it apart. -/
structure Mirrors (keep : CodeUnit w → Bool) (keepChar : Char → Bool) (beyond : Bool) : Prop where
  ascii : ∀ letter : Char, letter.toNat < 128 →
    keep (CodeUnit.ofNat w letter.toNat) = keepChar letter
  foreignUnit : ∀ unit : CodeUnit w, 128 ≤ unit.code → keep unit = beyond
  foreignChar : ∀ letter : Char, 128 ≤ letter.toNat → keepChar letter = beyond

theorem mirrors_isDigit : Mirrors (w := w) (CodeUnit.isDigit 10) Char.isDigit false where
  ascii _ inside := CodeUnit.isDigit_ofAscii inside
  foreignUnit _ foreign := CodeUnit.isDigit_foreign foreign
  foreignChar letter outside := by
    have upper : ¬ letter.toNat ≤ '9'.toNat := by
      have nine : '9'.toNat = 57 := rfl
      omega
    rw [← Bool.not_eq_true, Char.isDigit_iff_toNat]
    exact fun digit => upper digit.2

theorem mirrors_ne {mark : Char} (small : mark.toNat < 128) :
    Mirrors (w := w) (fun unit => !unit.is mark) (· ≠ mark) true where
  ascii letter inside := by
    rw [CodeUnit.is_ofAscii inside, Bool.eq_iff_iff]
    simp
  foreignUnit unit foreign := by simp [CodeUnit.is_foreign foreign small]
  foreignChar letter outside := by
    simp only [ne_eq, decide_not, Bool.not_eq_eq_eq_not, Bool.not_true, decide_eq_false_iff_not]
    rintro rfl
    omega

theorem dropWhile_ofChars {keep : CodeUnit w → Bool} {keepChar : Char → Bool} {beyond : Bool}
    (mirror : Mirrors keep keepChar beyond) (letters : List Char) :
    (ofChars w letters).dropWhile keep = ofChars w (letters.dropWhile keepChar) := by
  induction letters with
  | nil => simp
  | cons letter letters ih =>
    rcases ofChars_cases letter letters with ⟨ascii, eq⟩ | ⟨outside, first, more, foreign, eq⟩
    · rw [eq, List.dropWhile_cons, List.dropWhile_cons, mirror.ascii letter ascii]
      split
      · exact ih
      · exact eq.symm
    · rw [List.dropWhile_cons, mirror.foreignChar letter outside]
      cases beyond with
      | false =>
        have stops := mirror.foreignUnit first (foreign first List.mem_cons_self)
        rw [eq, List.dropWhile_cons, stops]
        exact eq.symm
      | true =>
        have all : ∀ unit ∈ first :: more, keep unit = true :=
          fun unit member => mirror.foreignUnit unit (foreign unit member)
        rw [eq, ← List.cons_append, List.dropWhile_append_of_pos all]
        exact ih

theorem takeWhile_ofChars {keep : CodeUnit w → Bool} {keepChar : Char → Bool} {beyond : Bool}
    (mirror : Mirrors keep keepChar beyond) (letters : List Char) :
    (ofChars w letters).takeWhile keep = ofChars w (letters.takeWhile keepChar) := by
  apply (List.append_left_inj ((ofChars w letters).dropWhile keep)).mp
  rw [List.takeWhile_append_dropWhile, dropWhile_ofChars mirror, ← ofChars_append,
    List.takeWhile_append_dropWhile]

theorem beforeNul_ofChars (letters : List Char) :
    beforeNul (ofChars w letters) = ofChars w (letters.takeWhile (· ≠ '\x00')) := by
  rw [← takeWhile_ofChars (mirrors_ne (by decide)), beforeNul]
  congr 1
  funext unit
  rw [Bool.eq_iff_iff]
  simp [CodeUnit.is]

theorem strip?_ofChars {marks : List Char} (small : ∀ mark ∈ marks, mark.toNat < 128)
    (letters : List Char) :
    Format.strip? marks (ofChars w letters) = (marks.isPrefixOf? letters).map (ofChars w) := by
  induction marks generalizing letters with
  | nil => simp [Format.strip?, Literal.isPrefixOf?_nil]
  | cons mark marks ih =>
    cases letters with
    | nil => simp [Format.strip?, Literal.isPrefixOf?_cons_nil]
    | cons letter letters =>
      have rest := ih (fun mark member => small mark (List.mem_cons_of_mem _ member)) letters
      have first := small mark List.mem_cons_self
      rcases ofChars_cases (w := w) letter letters with
        ⟨ascii, eq⟩ | ⟨outside, unit, more, foreign, eq⟩
      · rw [eq, Format.strip?, Literal.isPrefixOf?_cons, CodeUnit.is_ofAscii ascii, rest,
          Bool.beq_comm (a := mark)]
        split <;> rfl
      · have differs : (mark == letter) = false := by
          rw [beq_eq_false_iff_ne]
          rintro rfl
          omega
        rw [eq, Format.strip?, Literal.isPrefixOf?_cons, differs,
          CodeUnit.is_foreign (foreign unit List.mem_cons_self) first]
        rfl

end Text

end FormattedInput
