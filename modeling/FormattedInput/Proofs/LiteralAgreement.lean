import FormattedInput.Proofs.Encoding
import Mathlib.Data.List.Basic
import Mathlib.Data.List.TakeWhile

/-!
The check of a literal against the reading of the same format. The check sees
characters and the reading sees units of either width, yet they find the same
placeholders and the same faults in every literal without a terminator. A
terminator inside a conversion sets them apart: the reading ends there, while the
check takes it for a character of the conversion. -/
namespace FormattedInput

variable {w : Width}

def ConversionKind.placeholder? : ConversionKind → Option Placeholder
  | .decimal | .integer | .octal | .unsigned | .hex | .float | .pointer => some .value
  | .string _ | .chars _ | .charClass _ => some .buffer
  | .count => some .count
  | .percent => none

def Directive.placeholder? : Directive → Option Placeholder
  | .conversion asked => if asked.suppress then none else asked.kind.placeholder?
  | .whitespace => none
  | .literal _ => none

namespace Format

/-- What a reading has in common with the check of a literal. -/
def Reading.found (reading : Reading) : Literal.Found :=
  ⟨reading.steps.filterMap fun step => step.1.placeholder?, reading.error.map FormatError.fault⟩

theorem skipModifier_eq (letters : List Char) :
    Literal.skipModifier letters =
      (modifiers.findSome? fun modifier => modifier.spelling.isPrefixOf? letters).getD letters := by
  have spelled : Literal.modifiers = modifiers.map LengthModifier.spelling := rfl
  rw [Literal.skipModifier, spelled, List.findSome?_map]
  rfl

theorem readMark_ofChars (mark : Char) (small : mark.toNat < 128) (letters : List Char) :
    readMark mark (Text.ofChars w letters) =
      (letters.head? == some mark, Text.ofChars w (Literal.skipLetter mark letters)) := by
  have marks : ∀ letter ∈ [mark], letter.toNat < 128 := by simpa using small
  rw [readMark, Text.strip?_ofChars marks]
  cases letters with
  | nil => simp [Literal.isPrefixOf?_cons_nil, Literal.skipLetter]
  | cons letter letters =>
    by_cases same : letter = mark
    · simp [Literal.isPrefixOf?_nil, Literal.isPrefixOf?_cons, Literal.skipLetter, same]
    · have differs : (mark == letter) = false := by simpa using Ne.symm same
      simp [Literal.isPrefixOf?_cons, Literal.skipLetter, same, differs]

theorem spelling_ascii (modifier : LengthModifier) :
    ∀ mark ∈ modifier.spelling, mark.toNat < 128 := by
  cases modifier <;> simp [LengthModifier.spelling]

theorem readModifier_ofChars (letters : List Char) :
    (readModifier (Text.ofChars w letters)).2 =
      Text.ofChars w (Literal.skipModifier letters) := by
  rw [readModifier, skipModifier_eq]
  simp only [Text.strip?_ofChars (spelling_ascii _), Option.map_map]
  rw [← Option.getD_map Prod.snd, ← Option.getD_map (Text.ofChars w), List.map_findSome?,
    List.map_findSome?]
  simp only [Function.comp_def, Option.map_map]

theorem readRanges_rest (text : Text w) :
    (readRanges text).map Prod.snd =
      match text.dropWhile (fun unit => !unit.is ']') with
      | [] => none
      | _ :: rest => some rest := by
  fun_induction readRanges text with
  | case1 => rfl
  | case2 low rest closes => simp [closes]
  | case3 low opens dash high more spells ih =>
    simp only [Bool.and_eq_true, Bool.not_eq_eq_eq_not, Bool.not_true] at spells
    have dashOpens : dash.is ']' = false := by
      have code := spells.1
      simp only [CodeUnit.is, beq_iff_eq] at code ⊢
      simp [code]
    simp only [Bool.not_eq_true] at opens
    simp [opens, dashOpens, spells.2, ← ih, Function.comp_def]
  | case4 low opens dash high more single ih =>
    simp only [Bool.not_eq_true] at opens
    rw [List.dropWhile_cons, opens]
    simpa [Function.comp_def] using ih
  | case5 low opens rest short ih =>
    simp only [Bool.not_eq_true] at opens
    rw [List.dropWhile_cons, opens]
    simpa [Function.comp_def] using ih

theorem readClass_ofChars (letters : List Char) :
    (readClass (Text.ofChars w letters)).map Prod.snd =
      (Literal.skipClass letters).map (Text.ofChars w) := by
  rw [readClass, readMark_ofChars '^' (by decide)]
  simp only [readMark_ofChars (w := w) ']' (by decide), Option.map_map]
  refine (readRanges_rest _).trans ?_
  rw [Text.dropWhile_ofChars (Text.mirrors_ne (by decide)), Literal.skipClass]
  have head := List.head?_dropWhile_not (· ≠ ']')
    (Literal.skipLetter ']' (Literal.skipLetter '^' letters))
  cases eq : (Literal.skipLetter ']' (Literal.skipLetter '^' letters)).dropWhile (· ≠ ']') with
  | nil => simp
  | cons letter rest =>
    rw [eq] at head
    obtain rfl : letter = ']' := by simpa using head
    have unit : Text.ofChars w [']'] = [CodeUnit.ofNat w ']'.toNat] :=
      Text.ofChars_ascii (by decide)
    rw [Text.ofChars_cons, unit]
    rfl

theorem charOfAscii {letter : Char} (ascii : letter.toNat < 128) :
    Char.ofNat (CodeUnit.ofNat w letter.toNat).code = letter := by
  rw [CodeUnit.code_ofAscii ascii, Char.ofNat_toNat]

theorem placeholder_kind? {letter : Char} (ascii : letter.toNat < 128) :
    (kind? (CodeUnit.ofNat w letter.toNat)).bind ConversionKind.placeholder? =
      Placeholder.ofLetter? letter := by
  rw [kind?, charOfAscii ascii]
  split
  case h_22 => simp [Placeholder.ofLetter?, *]
  all_goals rfl

theorem kind?_unlisted {unit : CodeUnit w} (unlisted : unit.code ≤ 32 ∨ 128 ≤ unit.code) :
    kind? unit = none := by
  have code : (Char.ofNat unit.code).toNat = unit.code ∨ (Char.ofNat unit.code).toNat = 0 := by
    by_cases valid : unit.code.isValidChar
    · rw [Char.ofNat, dif_pos valid]
      exact .inl rfl
    · rw [Char.ofNat, dif_neg valid]
      exact .inr rfl
  unfold kind?
  split
  case h_22 => rfl
  all_goals
    rename_i same
    simp only [same, Char.reduceToNat] at code
    omega

theorem kind?_foreign {unit : CodeUnit w} (foreign : 128 ≤ unit.code) : kind? unit = none :=
  kind?_unlisted (.inr foreign)

theorem ofLetter?_foreign {letter : Char} (beyond : 128 ≤ letter.toNat) :
    Placeholder.ofLetter? letter = none := by
  unfold Placeholder.ofLetter?
  split
  case h_21 => rfl
  all_goals exact absurd beyond (by decide)

/-- Units that spell characters, behind what is left of a character beyond ASCII. -/
def Spells (text : Text w) (letters : List Char) : Prop :=
  ∃ front, Text.Foreign front ∧ text = front ++ Text.ofChars w letters

theorem spells_ofChars (letters : List Char) : Spells (Text.ofChars w letters) letters :=
  ⟨[], by simp [Text.Foreign], rfl⟩

def SameStep : Except FormatFault (Option Placeholder × List Char) →
    Except FormatFault (Directive × Text w) → Prop
  | .error fault, .error other => fault = other
  | .ok (placeholder, letters), .ok (directive, text) =>
    directive.placeholder? = placeholder ∧ Spells text letters
  | _, _ => False

theorem readConversion_agrees (letters : List Char) :
    SameStep (Literal.readConversion letters) (readConversion (Text.ofChars w letters)) := by
  have width : ∀ text : List Char, readWidth (Text.ofChars w text) =
      ((readWidth (Text.ofChars w text)).1, Text.ofChars w (text.dropWhile Char.isDigit)) :=
    fun text => by rw [← Text.dropWhile_ofChars Text.mirrors_isDigit]; rfl
  rw [readConversion, Literal.readConversion, readMark_ofChars '*' (by decide)]
  simp only
  rw [width]
  simp only
  generalize (Literal.skipLetter '*' letters).dropWhile Char.isDigit = digits
  have modifier := readModifier_ofChars (w := w) digits
  rcases found : readModifier (Text.ofChars w digits) with ⟨length, text⟩
  rw [found] at modifier
  subst modifier
  generalize (readWidth (Text.ofChars w (Literal.skipLetter '*' letters))).1 = bound
  generalize (letters.head? == some '*') = suppress
  cases Literal.skipModifier digits with
  | nil => simp [SameStep]
  | cons letter rest =>
    rcases Text.ofChars_cases (w := w) letter rest with
      ⟨ascii, eq⟩ | ⟨beyond, first, more, foreign, eq⟩
    · simp only [eq, CodeUnit.is_ofAscii ascii]
      by_cases opens : letter = '['
      · subst opens
        have same := readClass_ofChars (w := w) rest
        cases member : Literal.skipClass rest <;> cases found : readClass (Text.ofChars w rest) <;>
          simp_all [SameStep, Directive.placeholder?, ConversionKind.placeholder?, spells_ofChars]
      · have asked := placeholder_kind? (w := w) ascii
        have closed : (letter == '[') = false := by simpa using opens
        cases found : kind? (CodeUnit.ofNat w letter.toNat) <;>
          simp_all [SameStep, Directive.placeholder?, spells_ofChars]
    · have closed : first.is '[' = false :=
        CodeUnit.is_foreign (foreign first List.mem_cons_self) (by decide)
      have differs : letter ≠ '[' := by
        rintro rfl
        exact absurd beyond (by decide)
      have behind : Spells (more ++ Text.ofChars w rest) rest :=
        ⟨more, fun unit member => foreign unit (List.mem_cons_of_mem _ member), rfl⟩
      simp only [eq, closed, kind?_foreign (foreign first List.mem_cons_self)]
      simpa [SameStep, ofLetter?_foreign beyond, Directive.placeholder?] using behind

theorem find_literal {letter : Char} (going : letter ≠ '\x00') (other : letter ≠ '%')
    (rest : List Char) : Literal.find (letter :: rest) = Literal.find rest := by
  rw [Literal.find, if_neg going, if_neg other]

theorem spells_tail {unit : CodeUnit w} {text : Text w} {letters : List Char}
    (spells : Spells (unit :: text) letters) (other : unit.is '%' = false)
    (going : '\x00' ∉ letters) :
    ∃ rest, Spells text rest ∧ '\x00' ∉ rest ∧ Literal.find rest = Literal.find letters := by
  obtain ⟨front, foreign, eq⟩ := spells
  cases front with
  | cons first front =>
    obtain ⟨rfl, rfl⟩ := List.cons.inj eq
    exact ⟨letters, ⟨front, fun unit member => foreign unit (List.mem_cons_of_mem _ member), rfl⟩,
      going, rfl⟩
  | nil =>
    cases letters with
    | nil => simp at eq
    | cons letter rest =>
      have goingOn : letter ≠ '\x00' := fun ends => going (ends ▸ List.mem_cons_self)
      have later : '\x00' ∉ rest := fun member => going (List.mem_cons_of_mem _ member)
      rw [List.nil_append] at eq
      rcases Text.ofChars_cases (w := w) letter rest with
        ⟨ascii, units⟩ | ⟨beyond, first, more, strange, units⟩
      · rw [units] at eq
        obtain ⟨rfl, rfl⟩ := List.cons.inj eq
        rw [CodeUnit.is_ofAscii ascii, beq_eq_false_iff_ne] at other
        exact ⟨rest, spells_ofChars rest, later, (find_literal goingOn other rest).symm⟩
      · rw [units] at eq
        obtain ⟨rfl, rfl⟩ := List.cons.inj eq
        have differs : letter ≠ '%' := by
          rintro rfl
          exact absurd beyond (by decide)
        exact ⟨rest, ⟨more, fun unit member => strange unit (List.mem_cons_of_mem _ member), rfl⟩,
          later, (find_literal goingOn differs rest).symm⟩

theorem spells_dropWhile {keep : CodeUnit w → Bool}
    (passes : ∀ unit, keep unit = true → unit.is '%' = false) {text : Text w}
    {letters : List Char} (spells : Spells text letters) (going : '\x00' ∉ letters) :
    ∃ rest, Spells (text.dropWhile keep) rest ∧ '\x00' ∉ rest ∧
      Literal.find rest = Literal.find letters := by
  induction text generalizing letters with
  | nil => exact ⟨letters, spells, going, rfl⟩
  | cons unit text ih =>
    rw [List.dropWhile_cons]
    split
    · rename_i kept
      obtain ⟨rest, behind, later, same⟩ := spells_tail spells (passes unit kept) going
      obtain ⟨last, done, whole, found⟩ := ih behind later
      exact ⟨last, done, whole, found.trans same⟩
    · exact ⟨letters, spells, going, rfl⟩

theorem isSpace_percent {unit : CodeUnit w} (space : unit.isSpace = true) :
    unit.is '%' = false := by
  have sign : '%'.toNat = 37 := rfl
  rw [CodeUnit.is, beq_eq_false_iff_ne, sign]
  intro percent
  cases w <;> simp [CodeUnit.isSpace, CodeUnit.isSpace.asciiSpace, percent] at space

theorem spells_percent {unit : CodeUnit w} {text : Text w} {letters : List Char}
    (spells : Spells (unit :: text) letters) (percent : unit.is '%' = true) :
    ∃ rest, letters = '%' :: rest ∧ text = Text.ofChars w rest := by
  have inside : ¬ 128 ≤ unit.code := by
    intro foreign
    rw [CodeUnit.is_foreign foreign (by decide)] at percent
    contradiction
  obtain ⟨front, foreign, eq⟩ := spells
  cases front with
  | cons first front =>
    obtain ⟨rfl, rfl⟩ := List.cons.inj eq
    exact absurd (foreign unit List.mem_cons_self) inside
  | nil =>
    cases letters with
    | nil => simp at eq
    | cons letter rest =>
      rw [List.nil_append] at eq
      rcases Text.ofChars_cases (w := w) letter rest with
        ⟨ascii, units⟩ | ⟨beyond, first, more, strange, units⟩
      · rw [units] at eq
        obtain ⟨rfl, rfl⟩ := List.cons.inj eq
        rw [CodeUnit.is_ofAscii ascii, beq_iff_eq] at percent
        exact ⟨rest, by rw [percent], rfl⟩
      · rw [units] at eq
        obtain ⟨rfl, rfl⟩ := List.cons.inj eq
        exact absurd (strange unit List.mem_cons_self) inside

theorem find_percent_error {rest : List Char} {fault : FormatFault}
    (failed : Literal.readConversion rest = .error fault) :
    Literal.find ('%' :: rest) = ⟨[], some fault⟩ := by
  rw [Literal.find, if_neg (by decide), if_pos rfl]
  split
  · rename_i other found
    rw [failed] at found
    rw [Except.error.inj found]
  · rename_i found
    rw [failed] at found
    contradiction

theorem find_percent_ok {rest after : List Char} {placeholder : Option Placeholder}
    (read : Literal.readConversion rest = .ok (placeholder, after)) :
    Literal.find ('%' :: rest) =
      ⟨placeholder.toList ++ (Literal.find after).placeholders, (Literal.find after).fault⟩ := by
  rw [Literal.find, if_neg (by decide), if_pos rfl]
  split
  · rename_i found
    rw [read] at found
    contradiction
  · rename_i other later found
    rw [read] at found
    obtain ⟨rfl, rfl⟩ := Prod.mk.inj (Except.ok.inj found)
    rfl

/-- One directive of the reading accounts for a part of what the check finds. -/
theorem readDirective_agrees {text : Text w} {letters : List Char} (going : text ≠ [])
    (spells : Spells text letters) (whole : '\x00' ∉ letters) :
    match readDirective text with
    | .error fault => Literal.find letters = ⟨[], some fault⟩
    | .ok (directive, rest) => ∃ later, Spells rest later ∧ '\x00' ∉ later ∧
      Literal.find letters = ⟨directive.placeholder?.toList ++ (Literal.find later).placeholders,
        (Literal.find later).fault⟩ := by
  cases text with
  | nil => contradiction
  | cons unit text =>
    rw [readDirective]
    by_cases space : unit.isSpace = true
    · obtain ⟨rest, behind, later, same⟩ :=
        spells_tail spells (isSpace_percent space) whole
      obtain ⟨last, done, without, found⟩ :=
        spells_dropWhile (fun _ => isSpace_percent) behind later
      simp only [space, if_true]
      exact ⟨last, done, without, by rw [found, same]; rfl⟩
    · by_cases percent : unit.is '%' = true
      · obtain ⟨rest, rfl, rfl⟩ := spells_percent spells percent
        have agrees := readConversion_agrees (w := w) rest
        have after : '\x00' ∉ rest := fun member => whole (List.mem_cons_of_mem _ member)
        simp only [space, percent, if_true, Bool.false_eq_true, if_false]
        -- The two readings agree, so the mixed cases are absurd.
        cases checked : Literal.readConversion rest with
        | error fault =>
          cases read : readConversion (Text.ofChars w rest) with
          | error other =>
            rw [checked, read] at agrees
            rw [find_percent_error checked, agrees]
          | ok step =>
            rw [checked, read] at agrees
            exact agrees.elim
        | ok found =>
          cases read : readConversion (Text.ofChars w rest) with
          | error other =>
            rw [checked, read] at agrees
            exact agrees.elim
          | ok step =>
            rw [checked, read] at agrees
            obtain ⟨same, behind⟩ := agrees
            obtain ⟨last, ends⟩ := Literal.readConversion_suffix checked
            have later : '\x00' ∉ found.2 :=
              fun member => after (ends.subset (List.mem_cons_of_mem last member))
            exact ⟨found.2, behind, later, by rw [find_percent_ok checked, same]⟩
      · obtain ⟨rest, behind, later, same⟩ :=
          spells_tail spells (Bool.eq_false_iff.mpr percent) whole
        simp only [space, percent, Bool.false_eq_true, if_false]
        exact ⟨rest, behind, later, by rw [same]; rfl⟩

theorem found_readFrom (offset : Nat) {text : Text w} {letters : List Char}
    (spells : Spells text letters) (whole : '\x00' ∉ letters) :
    (readFrom offset text).found = Literal.find letters := by
  -- A directive may end inside a character, so the letters to come are not its units.
  fun_induction readFrom offset text generalizing letters with
  | case1 offset text ends =>
    rw [List.isEmpty_iff] at ends
    obtain ⟨front, foreign, eq⟩ := spells
    cases letters with
    | nil => simp [Reading.found, Literal.find]
    | cons letter rest =>
      rcases Text.ofChars_cases (w := w) letter rest with
        ⟨-, units⟩ | ⟨-, first, more, -, units⟩ <;> simp [ends, units] at eq
  | case2 offset text going fault failed =>
    have agrees := readDirective_agrees (by simpa using going) spells whole
    rw [failed] at agrees
    rw [agrees]
    rfl
  | case3 offset text going directive rest read stop later =>
    rename_i ih
    have agrees := readDirective_agrees (by simpa using going) spells whole
    rw [read] at agrees
    obtain ⟨remaining, behind, without, found⟩ := agrees
    rw [found, ← ih behind without]
    cases asked : directive.placeholder? <;> simp [Reading.found, asked, later]

end Format

namespace Literal

theorem dropWhile_stop {keep : Char → Bool} {stop : Char} (stops : keep stop = false)
    (letters rest : List Char) :
    (letters ++ stop :: rest).dropWhile keep = letters.dropWhile keep ++ stop :: rest := by
  rw [List.dropWhile_append, List.dropWhile_cons, stops]
  split
  · rename_i empty
    rw [List.isEmpty_iff.mp empty]
    rfl
  · rfl

theorem skipLetter_stop {mark stop : Char} (differs : stop ≠ mark) (letters rest : List Char) :
    skipLetter mark (letters ++ stop :: rest) = skipLetter mark letters ++ stop :: rest := by
  cases letters with
  | nil => simp [skipLetter, differs]
  | cons letter letters =>
    simp only [List.cons_append, skipLetter]
    split <;> rfl

theorem isPrefixOf?_stop {marks : List Char} {stop : Char} (other : stop ∉ marks)
    (letters rest : List Char) :
    marks.isPrefixOf? (letters ++ stop :: rest) =
      (marks.isPrefixOf? letters).map (· ++ stop :: rest) := by
  induction marks generalizing letters with
  | nil => rfl
  | cons mark marks ih =>
    rw [List.mem_cons, not_or] at other
    cases letters with
    | nil =>
      have differs : (mark == stop) = false := by simpa using Ne.symm other.1
      simp [isPrefixOf?_cons, isPrefixOf?_cons_nil, differs]
    | cons letter letters =>
      rw [List.cons_append, isPrefixOf?_cons, isPrefixOf?_cons, ih other.2]
      split <;> rfl

theorem skipModifier_stop (letters rest : List Char) :
    skipModifier (letters ++ '\x00' :: rest) = skipModifier letters ++ '\x00' :: rest := by
  have other : ∀ modifier : LengthModifier, '\x00' ∉ modifier.spelling := by
    intro modifier
    cases modifier <;> decide
  rw [Format.skipModifier_eq, Format.skipModifier_eq]
  simp only [isPrefixOf?_stop (other _)]
  rw [← Option.getD_map (· ++ '\x00' :: rest), List.map_findSome?]
  rfl

theorem skipClass_stop {letters after : List Char} (closed : skipClass letters = some after)
    (rest : List Char) :
    skipClass (letters ++ '\x00' :: rest) = some (after ++ '\x00' :: rest) := by
  unfold skipClass at closed ⊢
  rw [skipLetter_stop (by decide), skipLetter_stop (by decide), List.dropWhile_append]
  split at closed
  · contradiction
  · rename_i closing members eq
    obtain rfl := Option.some.inj closed
    rw [eq]
    rfl

theorem readConversion_stop {letters after : List Char} {placeholder : Option Placeholder}
    (read : readConversion letters = .ok (placeholder, after)) (rest : List Char) :
    readConversion (letters ++ '\x00' :: rest) = .ok (placeholder, after ++ '\x00' :: rest) := by
  have suppressed : letters ≠ [] := by
    rintro rfl
    contradiction
  have star : (letters ++ '\x00' :: rest).head? = letters.head? := by
    rw [List.head?_append_of_ne_nil _ suppressed]
  simp only [readConversion] at read ⊢
  rw [skipLetter_stop (by decide), dropWhile_stop (by decide), skipModifier_stop, star]
  split at read
  · contradiction
  · rename_i members eq
    rw [eq]
    split at read
    · contradiction
    · rename_i left closed
      obtain ⟨same, rfl⟩ := Prod.mk.inj (Except.ok.inj read)
      simp only [List.cons_append, skipClass_stop closed]
      rw [same]
  · rename_i letter left other eq
    rw [eq]
    obtain ⟨same, rfl⟩ := Prod.mk.inj (Except.ok.inj read)
    simp only [List.cons_append]
    rw [same]

theorem find_stop {letters : List Char} (sound : (find letters).fault = none) (rest : List Char) :
    find (letters ++ '\x00' :: rest) = find letters := by
  fun_induction find letters with
  | case1 => simp [find]
  | case2 left => simp [find]
  | case3 letters ends fault failed => contradiction
  | case4 letters placeholder after read later =>
    rename_i ih
    have going := readConversion_stop read rest
    rw [List.cons_append, Format.find_percent_ok going, ih sound]
  | case5 letter letters ends other ih =>
    rw [List.cons_append, Format.find_literal ends other]
    exact ih sound

def beforeNul (letters : List Char) : List Char := letters.takeWhile (· ≠ '\x00')

theorem beforeNul_split {letters : List Char} (ends : '\x00' ∈ letters) :
    ∃ rest, letters = beforeNul letters ++ '\x00' :: rest := by
  have whole := List.takeWhile_append_dropWhile (p := (· ≠ '\x00')) (l := letters)
  have head := List.head?_dropWhile_not (· ≠ '\x00') letters
  cases eq : letters.dropWhile (· ≠ '\x00') with
  | nil =>
    rw [List.dropWhile_eq_nil_iff] at eq
    simpa using eq '\x00' ends
  | cons letter rest =>
    rw [eq] at head whole
    obtain rfl : letter = '\x00' := by simpa using head
    exact ⟨rest, whole.symm⟩

theorem beforeNul_eq_self {letters : List Char} (goes : '\x00' ∉ letters) :
    beforeNul letters = letters := by
  rw [beforeNul, List.takeWhile_eq_self_iff]
  intro letter member
  simpa using fun same : letter = '\x00' => goes (same ▸ member)

/-- The first terminator stands inside a conversion: what precedes it is malformed. -/
def CutInside (literal : String) : Prop :=
  '\x00' ∈ literal.toList ∧ (find (beforeNul literal.toList)).fault ≠ none

def WithinLimits (literal : String) : Prop :=
  literal.utf8ByteSize ≤ maxBytes ∧ (find literal.toList).placeholders.length ≤ maxPlaceholders

/-- The check refuses a literal exactly when its encoding is malformed, and otherwise
lists the directives that take an argument. -/
def AgreesWithReading (w : Width) (literal : String) : Prop :=
  ((∃ error, placeholders literal = .error error) ↔
    ∃ error, Format.parse (Text.ofString w literal) = .error error) ∧
  ∀ found directives, placeholders literal = .ok found →
    Format.parse (Text.ofString w literal) = .ok directives →
    found = directives.filterMap Directive.placeholder?

theorem found_read (literal : String) :
    (Format.read (Text.ofString w literal)).found = find (beforeNul literal.toList) := by
  rw [Format.read, Text.ofString, Text.beforeNul_ofChars]
  apply Format.found_readFrom 0 (Format.spells_ofChars _)
  intro member
  simpa using List.mem_takeWhile_imp member

theorem parse_error_iff (literal : String) :
    (∃ error, Format.parse (Text.ofString w literal) = .error error) ↔
      (find (beforeNul literal.toList)).fault ≠ none := by
  rw [← found_read (w := w), Format.parse]
  cases failed : (Format.read (Text.ofString w literal)).error <;>
    simp [Format.Reading.found, failed]

theorem parse_ok {literal : String} {directives : List Directive}
    (parsed : Format.parse (Text.ofString w literal) = .ok directives) :
    find (beforeNul literal.toList) = ⟨directives.filterMap Directive.placeholder?, none⟩ := by
  rw [← found_read (w := w)]
  rw [Format.parse] at parsed
  cases failed : (Format.read (Text.ofString w literal)).error with
  | some error => simp [failed] at parsed
  | none =>
    simp only [failed, Except.ok.injEq] at parsed
    simp [← parsed, Format.Reading.found, failed, List.filterMap_map]

theorem placeholders_eq {literal : String} (within : WithinLimits literal) :
    placeholders literal =
      match (find literal.toList).fault with
      | some fault => .error (.malformed fault)
      | none => .ok (find literal.toList).placeholders := by
  have short := Nat.not_lt.mpr within.1
  have few := Nat.not_lt.mpr within.2
  cases failed : (find literal.toList).fault with
  | none => simp only [placeholders, if_neg short, if_neg few, failed]
  | some fault => simp only [placeholders, if_neg short, if_neg few, failed]

theorem placeholders_error_iff {literal : String} (within : WithinLimits literal) :
    (∃ error, placeholders literal = .error error) ↔ (find literal.toList).fault ≠ none := by
  rw [placeholders_eq within]
  cases (find literal.toList).fault <;> simp

theorem placeholders_ok {literal : String} {found : List Placeholder}
    (within : WithinLimits literal) (checked : placeholders literal = .ok found) :
    find literal.toList = ⟨found, none⟩ := by
  rw [placeholders_eq within] at checked
  cases sound : (find literal.toList).fault with
  | some fault => simp [sound] at checked
  | none =>
    simp only [sound, Except.ok.injEq] at checked
    rw [← checked, ← sound]

/-- What precedes the first terminator decides the check, unless it ends inside a
conversion. -/
theorem find_beforeNul {literal : String}
    (sound : (find (beforeNul literal.toList)).fault = none ∨ '\x00' ∉ literal.toList) :
    find literal.toList = find (beforeNul literal.toList) := by
  by_cases ends : '\x00' ∈ literal.toList
  · obtain ⟨rest, split⟩ := beforeNul_split ends
    have fine := sound.resolve_right (not_not_intro ends)
    calc find literal.toList
        = find (beforeNul literal.toList ++ '\x00' :: rest) := by rw [← split]
      _ = find (beforeNul literal.toList) := find_stop fine rest
  · rw [beforeNul_eq_self ends]

theorem agrees_of_find_eq {literal : String} (within : WithinLimits literal)
    (same : find literal.toList = find (beforeNul literal.toList)) :
    AgreesWithReading w literal := by
  constructor
  · rw [placeholders_error_iff within, parse_error_iff, same]
  · intro found directives checked parsed
    have listed := (placeholders_ok within checked).symm.trans (same.trans (parse_ok parsed))
    exact congrArg Found.placeholders listed

/-- The check agrees with the reading unless a terminator cuts a conversion and the check
accepts what follows it. -/
theorem agrees_unless_cut (w : Width) (literal : String) (within : WithinLimits literal) :
    AgreesWithReading w literal ↔
      ¬ (CutInside literal ∧ ∃ found, placeholders literal = .ok found) := by
  constructor
  · rintro ⟨errors, -⟩ ⟨⟨-, malformed⟩, found, accepted⟩
    obtain ⟨error, refused⟩ := errors.mpr ((parse_error_iff literal).mpr malformed)
    rw [accepted] at refused
    contradiction
  · intro safe
    by_cases cut : CutInside literal
    · have malformed := (parse_error_iff (w := w) literal).mpr cut.2
      have refused : ∃ error, placeholders literal = .error error := by
        cases checked : placeholders literal with
        | error error => exact ⟨error, rfl⟩
        | ok found => exact absurd ⟨cut, found, checked⟩ safe
      refine ⟨⟨fun _ => malformed, fun _ => refused⟩, ?_⟩
      intro found directives accepted
      obtain ⟨error, same⟩ := refused
      rw [same] at accepted
      contradiction
    · apply agrees_of_find_eq within
      apply find_beforeNul
      rw [CutInside, not_and_or, not_not] at cut
      exact cut.symm

theorem agrees_before_terminator :
    (WithinLimits "%d %s\x00%" ∧
      ¬ (CutInside "%d %s\x00%" ∧ ∃ found, placeholders "%d %s\x00%" = .ok found)) ∧
    AgreesWithReading .wide "%d %s\x00%" := by
  have within : WithinLimits "%d %s\x00%" := by
    unfold WithinLimits
    decide +kernel
  have whole : ¬ CutInside "%d %s\x00%" := by
    unfold CutInside
    decide +kernel
  have safe : ¬ (CutInside "%d %s\x00%" ∧ ∃ found, placeholders "%d %s\x00%" = .ok found) :=
    fun cut => whole cut.1
  exact ⟨⟨within, safe⟩, (agrees_unless_cut .wide "%d %s\x00%" within).mpr safe⟩

/-- A terminator right after a percent sign passes the check and ends the format inside a
conversion. -/
theorem cut_percent_disagrees :
    WithinLimits "%\x00" ∧ ¬ AgreesWithReading .narrow "%\x00" ∧
      ¬ AgreesWithReading .wide "%\x00" := by
  have within : WithinLimits "%\x00" := by
    unfold WithinLimits
    decide +kernel
  have accepted : ¬ ∃ error, placeholders "%\x00" = .error error := by
    rw [placeholders_error_iff within]
    decide +kernel
  have malformed : (find (beforeNul "%\x00".toList)).fault ≠ none := by
    unfold beforeNul
    decide +kernel
  exact ⟨within, fun agrees => accepted (agrees.1.mpr ((parse_error_iff _).mpr malformed)),
    fun agrees => accepted (agrees.1.mpr ((parse_error_iff _).mpr malformed))⟩

end Literal

end FormattedInput
