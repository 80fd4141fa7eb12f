import FormattedInput.Proofs.PrintedClass
import Mathlib.Data.List.Chain
import Mathlib.Data.List.DropRight

/-!
Reading undoes printing. Whatever directives were read from some format are read again from
their own spelling, since no unit of it is taken for part of its neighbour: a conversion ends in
its letter or bracket, a literal that is a blank stands behind a percent sign, and what follows a
run of whitespace is visible. -/
namespace FormattedInput

variable {w : Width}

/-- A directive that some format of the width is read as. -/
def Directive.Readable (w : Width) : Directive → Prop
  | whitespace => True
  | literal code => 0 < code ∧ code < w.bound ∧ code ≠ '%'.toNat
  | conversion asked => Format.FitsWidth asked.width ∧
    ∀ set, asked.kind = .charClass set → ∃ first others, set.Readable w first others

namespace Format

theorem kind?_letter {kind : ConversionKind} (single : ∀ set, kind ≠ .charClass set) :
    kind? (CodeUnit.ofNat w kind.letter.toNat) = some kind := by
  rw [kind?, charOfAscii (letter_ascii kind)]
  cases kind with
  | string swapped | chars swapped => cases swapped <;> rfl
  | charClass set => exact absurd rfl (single set)
  | decimal | integer | octal | unsigned | hex | float | pointer | count | percent => rfl

theorem kind?_single {unit : CodeUnit w} {kind : ConversionKind} (known : kind? unit = some kind) :
    ∀ set, kind ≠ .charClass set := by
  rintro set rfl
  unfold kind? at known
  split at known <;> cases known

theorem kind?_percent {unit : CodeUnit w} (percent : unit.is '%' = true) :
    kind? unit = some .percent := by
  rw [CodeUnit.is, beq_iff_eq] at percent
  rw [kind?, percent]
  rfl

theorem left_suffix {body more : Text w} {letter : CodeUnit w}
    (left : (readModifier (readWidth (readMark '*' body).2).2).2 = letter :: more) :
    letter :: more <:+ body := by
  obtain ⟨star, first, -⟩ := readMark_local '*' body
  obtain ⟨digits, second, -⟩ := readWidth_local (readMark '*' body).2
  obtain ⟨spelled, third, -⟩ := readModifier_local left
  refine ⟨star ++ (digits ++ spelled), ?_⟩
  rw [List.append_assoc, List.append_assoc, ← third, ← second, ← first]

theorem readConversion_readable {body rest : Text w} {directive : Directive}
    (nulFree : ∀ unit ∈ body, unit.code ≠ 0)
    (found : readConversion body = .ok (directive, rest)) : directive.Readable w := by
  have fits : FitsWidth (readWidth (readMark '*' body).2).1 := readWidth_fits _
  unfold readConversion at found
  simp only at found
  split at found
  · cases found
  · rename_i letter more left
    have going : ∀ unit ∈ letter :: more, unit.code ≠ 0 :=
      fun unit member => nulFree unit ((left_suffix left).subset member)
    split at found
    · split at found
      · cases found
      · rename_i set last members
        cases found
        refine ⟨fits, fun other same => ?_⟩
        cases same
        exact readClass_readable (List.forall_mem_cons.mp going).2 members
    · split at found
      · rename_i kind known
        cases found
        exact ⟨fits, fun set same => absurd same (kind?_single known set)⟩
      · rename_i unknown
        cases found
        refine ⟨Nat.pos_of_ne_zero (going letter List.mem_cons_self), letter.code_lt, ?_⟩
        intro percent
        have sign : letter.is '%' = true := beq_iff_eq.mpr percent
        rw [kind?_percent sign] at unknown
        cases unknown

theorem readDirective_readable {text rest : Text w} {directive : Directive}
    (nulFree : ∀ unit ∈ text, unit.code ≠ 0)
    (found : readDirective text = .ok (directive, rest)) : directive.Readable w := by
  cases text with
  | nil => cases found
  | cons first more =>
    obtain ⟨started, later⟩ := List.forall_mem_cons.mp nulFree
    rw [readDirective] at found
    split at found
    · cases found
      exact trivial
    · split at found
      · exact readConversion_readable later found
      · rename_i other
        cases found
        exact ⟨Nat.pos_of_ne_zero started, first.code_lt, fun sign => other (beq_iff_eq.mpr sign)⟩

theorem readDirective_percent (text : Text w) :
    readDirective (Text.ofChars w ['%'] ++ text) = readConversion text := by
  have sign : (CodeUnit.ofNat w '%'.toNat).is '%' = true := CodeUnit.is_ofAscii (by decide) '%'
  have plain : (CodeUnit.ofNat w '%'.toNat).isSpace = false := by
    by_contra space
    rw [Bool.not_eq_false] at space
    rw [isSpace_percent space] at sign
    contradiction
  rw [Text.ofChars_ascii (by decide), List.singleton_append, readDirective, plain,
    if_neg Bool.false_ne_true, if_pos sign]

theorem spelling_parts (asked : Conversion) (back : Text w) :
    asked.spelling w ++ back = Text.ofChars w ['%'] ++ (Text.ofChars w asked.marks ++
      CodeUnit.ofNat w asked.kind.letter.toNat :: (asked.members w ++ back)) := by
  rw [Conversion.spelling, Text.ofChars_append, Text.ofChars_cons,
    Text.ofChars_ascii (letter_ascii asked.kind), List.append_assoc, List.append_assoc,
    List.append_assoc, List.singleton_append]

theorem readDirective_conversion {asked : Conversion}
    (readable : Directive.Readable w (.conversion asked)) (back : Text w) :
    readDirective (asked.spelling w ++ back) = .ok (.conversion asked, back) := by
  obtain ⟨fits, spelled⟩ := readable
  have ends := endsMarks_letter (w := w) asked.kind
  rw [spelling_parts, readDirective_percent, readConversion_marks fits ends,
    CodeUnit.is_ofAscii (letter_ascii asked.kind)]
  by_cases grouped : ∃ set, asked.kind = .charClass set
  · obtain ⟨set, kind⟩ := grouped
    obtain ⟨first, others, readable⟩ := spelled set kind
    have members : asked.members w = set.spelling w := by rw [Conversion.members, kind]
    have opens : asked.kind.letter = '[' := by rw [kind]; rfl
    rw [opens, beq_self_eq_true, if_pos rfl, members, readClass_spelled readable]
    simp only [← kind]
  · have single : ∀ set, asked.kind ≠ .charClass set := fun set kind => grouped ⟨set, kind⟩
    have opens : (asked.kind.letter == '[') = false := by
      cases kind : asked.kind with
      | string swapped | chars swapped => cases swapped <;> rfl
      | charClass set => exact absurd kind (single set)
      | decimal | integer | octal | unsigned | hex | float | pointer | count | percent => rfl
    have members : asked.members w = [] := by
      unfold Conversion.members
      split
      · exact absurd ‹_› (single _)
      · rfl
    rw [opens, if_neg Bool.false_ne_true, kind?_letter single, members, List.nil_append]

theorem readDirective_space {unit : CodeUnit w} (space : unit.isSpace = true) (back : Text w) :
    readDirective (Text.ofChars w ['%'] ++ unit :: back) = .ok (.literal unit.code, back) := by
  let bare : Conversion := ⟨false, none, .absent, .percent⟩
  have fits : FitsWidth bare.width := nofun
  have marks : Text.ofChars w bare.marks = [] := Text.ofChars_nil
  have opens : unit.is '[' = false := CodeUnit.is_isSpace space (by decide) (by decide)
  have read := readConversion_marks fits (endsMarks_space space) back
  rw [marks, List.nil_append, opens, if_neg Bool.false_ne_true,
    kind?_unlisted (CodeUnit.isSpace_code space)] at read
  exact (readDirective_percent _).trans read

/-- A directive is read from its spelling, however the format goes on. Only whitespace reaches
as far as it can. -/
theorem readDirective_spelled {directive : Directive} (readable : directive.Readable w)
    {back : Text w}
    (apart : directive = .whitespace → ∀ unit ∈ back.head?, unit.isSpace = false) :
    readDirective (directive.spelling w ++ back) = .ok (directive, back) := by
  cases directive with
  | whitespace =>
    have space : (CodeUnit.ofNat w ' '.toNat).isSpace = true := by cases w <;> rfl
    have stops : back.dropWhile CodeUnit.isSpace = back := by
      cases back with
      | nil => rfl
      | cons first more => exact List.dropWhile_cons_of_neg (by simp [apart rfl first rfl])
    rw [Directive.spelling, Text.ofChars_ascii (by decide), List.singleton_append, readDirective,
      if_pos space, stops]
  | literal code =>
    obtain ⟨-, inside, other⟩ := readable
    have same : (CodeUnit.ofNat w code).code = code := CodeUnit.code_ofNat inside
    have behind : Text.ofCodes w [code] ++ back = CodeUnit.ofNat w code :: back := rfl
    rw [Directive.spelling]
    split
    · rename_i space
      rw [List.append_assoc, behind, readDirective_space space, same]
    · rename_i plain
      have sign : (CodeUnit.ofNat w code).is '%' = false := by
        rw [CodeUnit.is, same, beq_eq_false_iff_ne]
        exact other
      rw [behind, readDirective, if_neg plain, sign, if_neg Bool.false_ne_true, same]
  | conversion asked => exact readDirective_conversion readable back

theorem head_spelling {directive : Directive} (visible : directive ≠ .whitespace)
    (back : Text w) : ∀ unit ∈ (directive.spelling w ++ back).head?, unit.isSpace = false := by
  have sign : (CodeUnit.ofNat w '%'.toNat).isSpace = false := by cases w <;> rfl
  cases directive with
  | whitespace => exact absurd rfl visible
  | literal code =>
    rw [Directive.spelling]
    split
    · rw [Text.ofChars_ascii (by decide)]
      rintro unit ⟨⟩
      exact sign
    · rename_i plain
      rintro unit ⟨⟩
      exact Bool.eq_false_iff.mpr plain
  | conversion asked =>
    rw [Directive.spelling, spelling_parts, Text.ofChars_ascii (by decide)]
    rintro unit ⟨⟩
    exact sign

theorem nulFree_ofChars {letters : List Char}
    (plain : ∀ letter ∈ letters, 0 < letter.toNat ∧ letter.toNat < 128) :
    ∀ unit ∈ Text.ofChars w letters, unit.code ≠ 0 := by
  rw [Text.ofChars_small fun letter member => (plain letter member).2]
  intro unit member
  obtain ⟨letter, inside, rfl⟩ := List.mem_map.mp member
  obtain ⟨positive, ascii⟩ := plain letter inside
  rw [CodeUnit.code_ofAscii ascii]
  exact Nat.ne_of_gt positive

theorem marks_plain (asked : Conversion) :
    ∀ mark ∈ asked.marks, 0 < mark.toNat ∧ mark.toNat < 128 := by
  have modifiers : ∀ mark ∈ "hlLI6432jztw".toList, 0 < mark.toNat ∧ mark.toNat < 128 :=
    List.all_iff_forall_prop.mp (by decide)
  have zero : '0'.toNat = 48 := rfl
  have nine : '9'.toNat = 57 := rfl
  intro mark member
  rw [Conversion.marks, List.mem_append, List.mem_append] at member
  rcases member with (star | digit) | modifier
  · split at star
    · rw [List.mem_singleton.mp star]
      decide
    · cases star
  · have inside := Char.isDigit_iff_toNat.mp (width_isDigit asked.width mark digit)
    omega
  · exact modifiers mark (spelling_mem asked.length mark modifier)

theorem nulFree_spellRange {range : Nat × Nat} (spelled : CharClass.IsRange w range) :
    ∀ unit ∈ CharClass.spellRange w range, unit.code ≠ 0 := by
  obtain ⟨low, high, ends, started, going, -⟩ := CharClass.spellRange_ends spelled
  have dash : (CodeUnit.ofNat w '-'.toNat).code ≠ 0 := by
    rw [CodeUnit.code_ofAscii (by decide)]
    decide
  rw [ends]
  simp only [List.forall_mem_cons]
  exact ⟨started, dash, going, nofun⟩

theorem nulFree_class {set : CharClass} {first : Nat × Nat} {others : List (Nat × Nat)}
    (readable : set.Readable w first others) : ∀ unit ∈ set.spelling w, unit.code ≠ 0 := by
  obtain ⟨negated, ranges⟩ := set
  obtain ⟨rfl, front, spelled, -⟩ := readable
  simp only [CharClass.spelling, CharClass.spellRanges, List.forall_mem_append,
    List.forall_mem_flatMap]
  refine ⟨⟨?_, ?_, fun range member => nulFree_spellRange (spelled range member)⟩, ?_⟩
  · have caret : ∀ letter ∈ ['^'], 0 < letter.toNat ∧ letter.toNat < 128 :=
      List.all_iff_forall_prop.mp (by decide)
    cases negated with
    | true => exact nulFree_ofChars caret
    | false => exact nulFree_ofChars (List.forall_mem_nil _)
  · unfold CharClass.spellFirst
    split
    · exact nulFree_ofChars (List.all_iff_forall_prop.mp (by decide))
    · rename_i unlike
      exact nulFree_spellRange (front.resolve_left unlike)
  · exact nulFree_ofChars (List.all_iff_forall_prop.mp (by decide))

theorem nulFree_spelling {directive : Directive} (readable : directive.Readable w) :
    ∀ unit ∈ directive.spelling w, unit.code ≠ 0 := by
  cases directive with
  | whitespace => exact nulFree_ofChars (List.all_iff_forall_prop.mp (by decide))
  | literal code =>
    obtain ⟨positive, inside, -⟩ := readable
    have single : ∀ unit ∈ Text.ofCodes w [code], unit.code ≠ 0 := by
      intro unit member
      rw [List.mem_singleton.mp member, CodeUnit.code_ofNat inside]
      exact Nat.ne_of_gt positive
    rw [Directive.spelling]
    split
    · have percent : ∀ letter ∈ ['%'], 0 < letter.toNat ∧ letter.toNat < 128 :=
        List.all_iff_forall_prop.mp (by decide)
      exact List.forall_mem_append.mpr ⟨nulFree_ofChars percent, single⟩
    · exact single
  | conversion asked =>
    have letters : ∀ letter ∈ "diouxfsScC[pn%".toList, 0 < letter.toNat :=
      List.all_iff_forall_prop.mp (by decide)
    rw [Directive.spelling, Conversion.spelling, List.forall_mem_append]
    constructor
    · apply nulFree_ofChars
      intro mark member
      rw [List.cons_append, List.mem_cons, List.mem_append, List.mem_singleton] at member
      rcases member with rfl | inside | rfl
      · decide
      · exact marks_plain asked mark inside
      · exact ⟨letters _ (letter_mem asked.kind), letter_ascii asked.kind⟩
    · unfold Conversion.members
      split
      · rename_i set kind
        obtain ⟨first, others, spelled⟩ := readable.2 set kind
        exact nulFree_class spelled
      · exact nofun

theorem readDirective_visible {text rest more : Text w} {next : Directive}
    (read : readDirective text = .ok (.whitespace, rest))
    (again : readDirective rest = .ok (next, more)) : next ≠ .whitespace := by
  rintro rfl
  obtain rfl := readDirective_spaces read
  have behind := readDirective_spaces again
  rw [List.dropWhile_idempotent] at behind
  have shorter := readDirective_length again
  rw [behind] at shorter
  exact Nat.lt_irrefl _ shorter

theorem nulFree_print {directives : List Directive}
    (readable : ∀ directive ∈ directives, directive.Readable w) :
    ∀ unit ∈ print w directives, unit.code ≠ 0 := by
  intro unit member
  obtain ⟨directive, inside, spelled⟩ := List.mem_flatMap.mp member
  exact nulFree_spelling (readable directive inside) unit spelled

/-- Directives as they are read: each is one that can be read, and no two runs of whitespace
follow each other. -/
structure Printable (w : Width) (directives : List Directive) : Prop where
  readable : ∀ directive ∈ directives, directive.Readable w
  apart : directives.IsChain fun first second => first = .whitespace → second ≠ .whitespace

theorem readFrom_first {offset : Nat} {text : Text w} {next : Directive}
    (first : next ∈ (readFrom offset text).directives.head?) :
    ∃ more, readDirective text = .ok (next, more) := by
  fun_cases readFrom offset text with
  | case1 ends =>
    rw [readFrom, if_pos ends] at first
    cases first
  | case2 going fault failed =>
    rw [readFrom_error offset (by simpa using going) failed] at first
    cases first
  | case3 going directive rest read stop later =>
    rw [readFrom_ok offset read] at first
    cases first
    exact ⟨rest, read⟩

theorem readFrom_printable (offset : Nat) {text : Text w}
    (nulFree : ∀ unit ∈ text, unit.code ≠ 0) : Printable w (readFrom offset text).directives := by
  fun_induction readFrom offset text with
  | case1 offset text ends => exact ⟨List.forall_mem_nil _, .nil⟩
  | case2 offset text going fault failed => exact ⟨List.forall_mem_nil _, .nil⟩
  | case3 offset text going directive rest read stop later =>
    rename_i ih
    obtain ⟨front, split, -⟩ := readDirective_local read
    have behind : rest <:+ text := ⟨front, split.symm⟩
    obtain ⟨readable, apart⟩ := ih fun unit member => nulFree unit (behind.subset member)
    constructor
    · exact List.forall_mem_cons.mpr ⟨readDirective_readable nulFree read, readable⟩
    · apply List.isChain_cons.mpr ⟨_, apart⟩
      rintro next first rfl
      obtain ⟨more, again⟩ := readFrom_first first
      exact readDirective_visible read again

theorem readFrom_printed {directives : List Directive} (printable : Printable w directives)
    (offset : Nat) :
    (readFrom offset (print w directives)).directives = directives ∧
      (readFrom offset (print w directives)).error = none := by
  induction directives generalizing offset with
  | nil =>
    rw [print, List.flatMap_nil, readFrom_nil]
    exact ⟨rfl, rfl⟩
  | cons directive directives ih =>
    obtain ⟨readable, apart⟩ := printable
    obtain ⟨first, later⟩ := List.forall_mem_cons.mp readable
    obtain ⟨behind, apart⟩ := List.isChain_cons.mp apart
    -- Two directives of whitespace do not stand next to each other.
    have visible : directive = .whitespace →
        ∀ unit ∈ (print w directives).head?, unit.isSpace = false := by
      rintro rfl
      cases directives with
      | nil => exact nofun
      | cons next directives =>
        exact head_spelling (behind next rfl rfl) (print w directives)
    have read := readDirective_spelled first visible
    obtain ⟨same, sound⟩ := ih ⟨later, apart⟩ (offset +
      ((directive.spelling w ++ print w directives).length - (print w directives).length))
    have step := readFrom_ok offset read
    rw [print, List.flatMap_cons, ← print, step]
    exact ⟨congrArg (directive :: ·) same, sound⟩

theorem parse_print {directives : List Directive} (printable : Printable w directives) :
    parse (print w directives) = .ok directives := by
  obtain ⟨same, sound⟩ := readFrom_printed printable 0
  have whole : (print w directives).beforeNul = print w directives :=
    Text.beforeNul_nulFree (nulFree_print printable.readable)
  rw [parse, read, whole, sound]
  exact congrArg Except.ok same

theorem parse_printable {format : Text w} {directives : List Directive}
    (parsed : parse format = .ok directives) : Printable w directives := by
  have printable := readFrom_printable 0 format.nulFree_beforeNul
  rw [parse, read] at parsed
  split at parsed
  · cases parsed
  · cases parsed
    exact printable

/-- Reading undoes printing on whatever was read from some format. -/
theorem parse_print_parsed {format : Text w} {directives : List Directive}
    (parsed : parse format = .ok directives) : parse (print w directives) = .ok directives :=
  parse_print (parse_printable parsed)

theorem parse_print_crowded :
    let format : Text .wide := .ofString .wide "% %*08I64d[ %[]^-a-]X"
    let directives : List Directive :=
      [.literal ' '.toNat, .conversion ⟨true, some 8, .int64, .decimal⟩, .literal '['.toNat,
       .whitespace, .conversion ⟨false, none, .absent, .charClass ⟨false,
         [(']'.toNat, ']'.toNat), ('^'.toNat, 'a'.toNat), ('-'.toNat, '-'.toNat)]⟩⟩,
       .literal 'X'.toNat]
    parse format = .ok directives ∧
      print .wide directives = .ofString .wide "% %*8I64d[ %[]a-^---]X" ∧
      parse (print .wide directives) = .ok directives := by
  intro format directives
  have parsed : parse format = .ok directives := by decide +kernel
  exact ⟨parsed, by decide +kernel, parse_print_parsed parsed⟩

end Format

end FormattedInput
