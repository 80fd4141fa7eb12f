import FormattedInput.Format.Printing
import FormattedInput.Proofs.LiteralAgreement
import FormattedInput.Proofs.Lookahead

namespace FormattedInput

variable {w : Width}

namespace CodeUnit

theorem isSpace_code {unit : CodeUnit w} (space : unit.isSpace = true) :
    unit.code ≤ 32 ∨ 128 ≤ unit.code := by
  cases w with
  | narrow =>
    simp only [isSpace, isSpace.asciiSpace, Bool.or_eq_true, Bool.and_eq_true, beq_iff_eq,
      decide_eq_true_eq] at space
    omega
  | wide =>
    simp only [isSpace, isSpace.asciiSpace, Bool.or_eq_true, Bool.and_eq_true, beq_iff_eq,
      decide_eq_true_eq, List.contains_cons, List.contains_nil, Bool.or_false] at space
    omega

theorem is_isSpace {unit : CodeUnit w} (space : unit.isSpace = true) {mark : Char}
    (visible : 32 < mark.toNat) (ascii : mark.toNat < 128) : unit.is mark = false := by
  have code := isSpace_code space
  rw [is, beq_eq_false_iff_ne]
  omega

theorem isDigit_isSpace {unit : CodeUnit w} {base : Nat} (space : unit.isSpace = true) :
    unit.isDigit base = false := by
  rcases isSpace_code space with low | foreign
  · have zero : '0'.toNat = 48 := rfl
    have upper : 'A'.toNat = 65 := rfl
    have lower : 'a'.toNat = 97 := rfl
    have none : digit?.alphanumeric unit.code = none := by
      rw [digit?.alphanumeric, if_neg (by omega), if_neg (by omega), if_neg (by omega)]
    simp [isDigit, digit?, none]
  · exact isDigit_foreign foreign

theorem digit?_ofDigit {letter : Char} (digit : letter.isDigit = true) :
    (ofNat w letter.toNat).digit? 10 = some (letter.toNat - '0'.toNat) := by
  rw [Char.isDigit_iff_toNat] at digit
  have nine : '9'.toNat = 57 := rfl
  have zero : '0'.toNat = 48 := rfl
  have below : letter.toNat - 48 < 10 := by omega
  rw [digit?, code_ofAscii (by omega), digit?.alphanumeric, if_pos digit]
  simp [below]

end CodeUnit

namespace Text

theorem ofChars_small {letters : List Char} (ascii : ∀ letter ∈ letters, letter.toNat < 128) :
    ofChars w letters = letters.map fun letter => CodeUnit.ofNat w letter.toNat := by
  induction letters with
  | nil => exact ofChars_nil
  | cons letter letters ih =>
    rw [ofChars_cons, ofChars_ascii (ascii letter List.mem_cons_self),
      ih fun other member => ascii other (List.mem_cons_of_mem _ member)]
    rfl

theorem value_ofDigits {digits : List Char} (all : ∀ letter ∈ digits, letter.isDigit = true)
    (total : Nat) :
    (digits.map fun letter => CodeUnit.ofNat w letter.toNat).foldl
      (fun total unit => total * 10 + (unit.digit? 10).getD 0) total =
        Nat.ofDigitChars 10 digits total := by
  induction digits generalizing total with
  | nil => exact Nat.ofDigitChars_nil.symm
  | cons letter digits ih =>
    have first := all letter List.mem_cons_self
    have others := ih fun other member => all other (List.mem_cons_of_mem _ member)
    rw [List.map_cons, List.foldl_cons, others, Nat.ofDigitChars_cons,
      CodeUnit.digit?_ofDigit first, Option.getD_some, Nat.mul_comm]

end Text

namespace Format

theorem strip?_spelled {letters : List Char} (ascii : ∀ letter ∈ letters, letter.toNat < 128)
    (back : Text w) : strip? letters (Text.ofChars w letters ++ back) = some back := by
  rw [Text.ofChars_small ascii]
  induction letters with
  | nil => rfl
  | cons letter letters ih =>
    have first := ascii letter List.mem_cons_self
    rw [List.map_cons, List.cons_append, strip?, CodeUnit.is_ofAscii first, beq_self_eq_true,
      if_pos rfl]
    exact ih fun other member => ascii other (List.mem_cons_of_mem _ member)

theorem readMark_spelled {mark : Char} (ascii : mark.toNat < 128) (there : Bool) {back : Text w}
    (apart : there = false → ∀ unit ∈ back.head?, unit.is mark = false) :
    readMark mark (Text.ofChars w (if there then [mark] else []) ++ back) = (there, back) := by
  cases there with
  | true =>
    have small : ∀ letter ∈ [mark], letter.toNat < 128 := by simpa using ascii
    simp only [readMark, if_true, strip?_spelled small]
  | false =>
    simp only [Bool.false_eq_true, if_false, Text.ofChars_nil, List.nil_append, readMark]
    cases back with
    | nil => rfl
    | cons first more =>
      have differs := apart rfl first rfl
      simp only [strip?, differs, Bool.false_eq_true, if_false]

/-- A width is a machine word, and none is zero. -/
def FitsWidth (width : Option Nat) : Prop := ∀ number ∈ width, 0 < number ∧ number < UInt64.size

theorem readWidth_fits (text : Text w) : FitsWidth (readWidth text).1 := by
  intro number found
  simp only [readWidth, Option.mem_def] at found
  split at found
  · contradiction
  · rename_i positive
    cases found
    exact ⟨Nat.pos_of_ne_zero positive,
      Nat.lt_of_le_of_lt (Nat.min_le_right _ _) (by decide)⟩

theorem ascii_isDigit {letter : Char} (digit : letter.isDigit = true) : letter.toNat < 128 := by
  have nine : '9'.toNat = 57 := rfl
  have inside := Char.isDigit_iff_toNat.mp digit
  omega

theorem width_isDigit (width : Option Nat) :
    ∀ letter ∈ width.elim [] (Nat.toDigits 10), letter.isDigit = true := by
  intro letter member
  cases width with
  | none => cases member
  | some number => exact Nat.isDigit_of_mem_toDigits (by decide) (by decide) member

theorem readWidth_spelled {width : Option Nat} (fits : FitsWidth width) {back : Text w}
    (apart : ∀ unit ∈ back.head?, unit.isDigit 10 = false) :
    readWidth (Text.ofChars w (width.elim [] (Nat.toDigits 10)) ++ back) = (width, back) := by
  have stops : back.takeWhile (CodeUnit.isDigit 10) = [] ∧
      back.dropWhile (CodeUnit.isDigit 10) = back := by
    cases back with
    | nil => exact ⟨rfl, rfl⟩
    | cons first more => simp [apart first rfl]
  cases width with
  | none =>
    simp only [Option.elim_none, Text.ofChars_nil, List.nil_append, readWidth, stops]
    rfl
  | some number =>
    obtain ⟨positive, bounded⟩ := fits number rfl
    have digits := width_isDigit (some number)
    have ascii : ∀ letter ∈ Nat.toDigits 10 number, letter.toNat < 128 :=
      fun letter member => ascii_isDigit (digits letter member)
    have all : ∀ unit ∈ (Nat.toDigits 10 number).map fun letter => CodeUnit.ofNat w letter.toNat,
        unit.isDigit 10 = true := by
      intro unit member
      obtain ⟨letter, inside, rfl⟩ := List.mem_map.mp member
      rw [CodeUnit.isDigit_ofAscii (ascii letter inside)]
      exact digits letter inside
    have value : Text.value 10
        ((Nat.toDigits 10 number).map fun letter => CodeUnit.ofNat w letter.toNat) = number :=
      (Text.value_ofDigits digits 0).trans Nat.ofDigitChars_ten_toDigits
    have capped : min number (UInt64.size - 1) = number := Nat.min_eq_left (by omega)
    rw [Option.elim_some, Text.ofChars_small ascii, readWidth, List.takeWhile_append_of_pos all,
      List.dropWhile_append_of_pos all, stops.1, stops.2, List.append_nil, value, capped,
      if_neg (Nat.ne_of_gt positive)]

/-- A unit that ends what stands between a percent sign and the letter of a conversion. -/
structure EndsMarks (unit : CodeUnit w) : Prop where
  star : unit.is '*' = false
  digit : unit.isDigit 10 = false
  modifier : ∀ (modifier : LengthModifier), ∀ mark ∈ modifier.spelling, unit.is mark = false

theorem spelling_mem (modifier : LengthModifier) :
    ∀ mark ∈ modifier.spelling, mark ∈ "hlLI6432jztw".toList := by
  cases modifier <;> exact List.all_iff_forall_prop.mp (by decide)

theorem letter_mem (kind : ConversionKind) : kind.letter ∈ "diouxfsScC[pn%".toList := by
  cases kind with
  | string swapped | chars swapped => cases swapped <;> decide
  | charClass set => exact (by decide : '[' ∈ "diouxfsScC[pn%".toList)
  | decimal | integer | octal | unsigned | hex | float | pointer | count | percent => decide

theorem letter_ascii (kind : ConversionKind) : kind.letter.toNat < 128 := by
  have all : ∀ letter ∈ "diouxfsScC[pn%".toList, letter.toNat < 128 :=
    List.all_iff_forall_prop.mp (by decide)
  exact all kind.letter (letter_mem kind)

theorem endsMarks_letter (kind : ConversionKind) :
    EndsMarks (CodeUnit.ofNat w kind.letter.toNat) := by
  have all : ∀ letter ∈ "diouxfsScC[pn%".toList, letter ≠ '*' ∧ letter.isDigit = false ∧
      letter ∉ "hlLI6432jztw".toList := List.all_iff_forall_prop.mp (by decide)
  obtain ⟨star, digit, modifier⟩ := all kind.letter (letter_mem kind)
  constructor
  · rw [CodeUnit.is_ofAscii (letter_ascii kind), beq_eq_false_iff_ne]
    exact star
  · rw [CodeUnit.isDigit_ofAscii (letter_ascii kind)]
    exact digit
  · intro other mark inside
    rw [CodeUnit.is_ofAscii (letter_ascii kind), beq_eq_false_iff_ne]
    rintro rfl
    exact modifier (spelling_mem other _ inside)

theorem endsMarks_space {unit : CodeUnit w} (space : unit.isSpace = true) : EndsMarks unit := by
  have visible : ∀ mark ∈ "hlLI6432jztw".toList, 32 < mark.toNat ∧ mark.toNat < 128 :=
    List.all_iff_forall_prop.mp (by decide)
  constructor
  · exact CodeUnit.is_isSpace space (by decide) (by decide)
  · exact CodeUnit.isDigit_isSpace space
  · intro other mark inside
    obtain ⟨above, below⟩ := visible mark (spelling_mem other mark inside)
    exact CodeUnit.is_isSpace space above below

theorem strip?_marks {marks : List Char} {unit : CodeUnit w}
    (apart : ∀ mark ∈ marks, unit.is mark = false) {letters : List Char}
    (ascii : ∀ letter ∈ letters, letter.toNat < 128) (back : Text w) :
    strip? marks (Text.ofChars w letters ++ unit :: back) =
      (marks.isPrefixOf? letters).map fun rest => Text.ofChars w rest ++ unit :: back := by
  induction marks generalizing letters with
  | nil =>
    rw [Literal.isPrefixOf?_nil, Option.map_some]
    rfl
  | cons mark marks ih =>
    have others : ∀ other ∈ marks, unit.is other = false :=
      fun other member => apart other (List.mem_cons_of_mem _ member)
    cases letters with
    | nil =>
      have differs := apart mark List.mem_cons_self
      simp only [Text.ofChars_nil, List.nil_append, strip?, differs, Bool.false_eq_true, if_false,
        Literal.isPrefixOf?_cons_nil, Option.map_none]
    | cons letter letters =>
      have first := ascii letter List.mem_cons_self
      have later := ih others fun other member => ascii other (List.mem_cons_of_mem _ member)
      rw [Text.ofChars_cons, Text.ofChars_ascii first, List.append_assoc, List.singleton_append,
        strip?, CodeUnit.is_ofAscii first, Literal.isPrefixOf?_cons, Bool.beq_comm, later]
      split <;> rfl

theorem findSome?_spelling (modifier : LengthModifier) :
    (modifiers.findSome? fun other =>
      (other.spelling.isPrefixOf? modifier.spelling).map fun rest => (other, rest)) =
        if modifier = .absent then none else some (modifier, []) := by
  cases modifier <;> rfl

theorem readModifier_spelled (modifier : LengthModifier) {letter : CodeUnit w}
    (ends : EndsMarks letter) (back : Text w) :
    readModifier (Text.ofChars w modifier.spelling ++ letter :: back) =
      (modifier, letter :: back) := by
  have same : (fun other : LengthModifier =>
      (strip? other.spelling (Text.ofChars w modifier.spelling ++ letter :: back)).map
        fun rest => (other, rest)) =
      Option.map (fun found => (found.1, Text.ofChars w found.2 ++ letter :: back)) ∘ fun other =>
        (other.spelling.isPrefixOf? modifier.spelling).map fun rest => (other, rest) := by
    funext other
    rw [strip?_marks (ends.modifier other) (spelling_ascii modifier), Function.comp_apply,
      Option.map_map, Option.map_map]
    rfl
  rw [readModifier, same, ← List.map_findSome?, findSome?_spelling]
  split
  · rename_i absent
    have nothing : Text.ofChars w LengthModifier.absent.spelling = [] := Text.ofChars_nil
    rw [absent, Option.map_none, Option.getD_none, nothing, List.nil_append]
  · rw [Option.map_some, Option.getD_some, Text.ofChars_nil, List.nil_append]

theorem head_spelled {test : CodeUnit w → Bool} {letters : List Char}
    (ascii : ∀ letter ∈ letters, letter.toNat < 128)
    (first : ∀ letter ∈ letters.head?, test (CodeUnit.ofNat w letter.toNat) = false)
    {unit : CodeUnit w} (last : test unit = false) (back : Text w) :
    ∀ found ∈ (Text.ofChars w letters ++ unit :: back).head?, test found = false := by
  rw [Text.ofChars_small ascii]
  cases letters with
  | nil =>
    rintro found ⟨⟩
    exact last
  | cons letter letters =>
    rintro found ⟨⟩
    exact first letter rfl

theorem readConversion_marks {asked : Conversion} (fits : FitsWidth asked.width)
    {letter : CodeUnit w} (ends : EndsMarks letter) (more : Text w) :
    readConversion (Text.ofChars w asked.marks ++ letter :: more) =
      if letter.is '[' then
        match readClass more with
        | none => .error .unterminatedClass
        | some (set, rest) =>
          .ok (.conversion ⟨asked.suppress, asked.width, asked.length, .charClass set⟩, rest)
      else match kind? letter with
        | some kind => .ok (.conversion ⟨asked.suppress, asked.width, asked.length, kind⟩, more)
        | none => .ok (.literal letter.code, more) := by
  have modifiers : ∀ mark ∈ "hlLI6432jztw".toList, mark ≠ '*' :=
    List.all_iff_forall_prop.mp (by decide)
  have plain : ∀ mark ∈ asked.length.spelling.head?, mark.isDigit = false := by
    cases asked.length <;> rintro mark ⟨⟩ <;> rfl
  have unnumbered : ∀ unit ∈ (Text.ofChars w asked.length.spelling ++ letter :: more).head?,
      unit.isDigit 10 = false := by
    apply head_spelled (spelling_ascii asked.length) _ ends.digit more
    intro mark first
    rw [CodeUnit.isDigit_ofAscii (spelling_ascii _ mark (List.mem_of_head? first))]
    exact plain mark first
  have unstarred : ∀ unit ∈ (Text.ofChars w (asked.width.elim [] (Nat.toDigits 10)) ++
      (Text.ofChars w asked.length.spelling ++ letter :: more)).head?, unit.is '*' = false := by
    have ascii : ∀ mark ∈ asked.width.elim [] (Nat.toDigits 10) ++ asked.length.spelling,
        mark.toNat < 128 := by
      intro mark member
      rcases List.mem_append.mp member with digit | modifier
      · exact ascii_isDigit (width_isDigit asked.width mark digit)
      · exact spelling_ascii asked.length mark modifier
    rw [← List.append_assoc, ← Text.ofChars_append]
    apply head_spelled ascii _ ends.star more
    intro mark first
    have member := List.mem_of_head? first
    rw [CodeUnit.is_ofAscii (ascii mark member), beq_eq_false_iff_ne]
    rcases List.mem_append.mp member with digit | modifier
    · rintro rfl
      exact absurd (width_isDigit asked.width '*' digit) (by decide)
    · exact modifiers mark (spelling_mem asked.length mark modifier)
  rw [Conversion.marks, Text.ofChars_append, Text.ofChars_append, List.append_assoc,
    List.append_assoc, readConversion,
    readMark_spelled (by decide) asked.suppress fun _ => unstarred]
  rcases opened : readClass more with _ | ⟨set, rest⟩ <;>
    rcases known : kind? letter with _ | kind <;>
    simp only [readWidth_spelled fits unnumbered, readModifier_spelled asked.length ends, opened,
      known]

end Format

end FormattedInput
