import FormattedInput.Format.Directive

/-!
Reading a format. The text up to its first terminator is cut into directives from
the left; each takes at least one unit, and a malformed conversion ends the
reading with the directives before it. Every directive is kept with the offset
just after it, so a caller that walks the format knows where it stands. -/
namespace FormattedInput

variable {w : Width}

inductive FormatFault where
  | truncatedConversion
  | unterminatedClass
deriving DecidableEq

structure FormatError where
  fault : FormatFault
  offset : Nat
deriving DecidableEq

namespace FormatError

def message (error : FormatError) : String :=
  match error.fault with
  | .truncatedConversion =>
    "format ends inside a conversion at format offset " ++ toString error.offset
  | .unterminatedClass =>
    "unterminated character class at format offset " ++ toString error.offset

end FormatError

namespace Format

def strip? : List Char → Text w → Option (Text w)
  | [], text => some text
  | _ :: _, [] => none
  | letter :: letters, c :: rest => if c.is letter then strip? letters rest else none

def readMark (letter : Char) (text : Text w) : Bool × Text w :=
  match strip? [letter] text with
  | some rest => (true, rest)
  | none => (false, text)

/-- A width beyond the largest machine word is that word, and a width of zero is
no width. -/
def readWidth (text : Text w) : Option Nat × Text w :=
  let width := min (Text.value 10 (text.takeWhile (CodeUnit.isDigit 10))) (UInt64.size - 1)
  (if width = 0 then none else some width, text.dropWhile (CodeUnit.isDigit 10))

/-- The modifiers in an order in which the first one that fits is the longest. -/
def modifiers : List LengthModifier :=
  [.char, .short, .longLong, .long, .longDouble, .int64, .int32, .ptrSize, .intMax, .size,
   .ptrDiff, .wide]

def readModifier (text : Text w) : LengthModifier × Text w :=
  (modifiers.findSome? fun modifier =>
    (strip? modifier.spelling text).map fun rest => (modifier, rest)).getD (.absent, text)

/-- The ranges up to the closing bracket. A dash spells a range only between two
members. -/
def readRanges : Text w → Option (List (Nat × Nat) × Text w)
  | [] => none
  | low :: rest =>
    if low.is ']' then some ([], rest)
    else match rest with
      | dash :: high :: more =>
        if dash.is '-' && !high.is ']' then
          (readRanges more).map fun (ranges, rest) =>
            ((min low.code high.code, max low.code high.code) :: ranges, rest)
        else
          (readRanges (dash :: high :: more)).map fun (ranges, rest) =>
            ((low.code, low.code) :: ranges, rest)
      | rest =>
        (readRanges rest).map fun (ranges, rest) => ((low.code, low.code) :: ranges, rest)

/-- A class after its opening bracket. A closing bracket in front is a member. -/
def readClass (text : Text w) : Option (CharClass × Text w) :=
  let (negated, text) := readMark '^' text
  let (closing, text) := readMark ']' text
  let leading := if closing then [(']'.toNat, ']'.toNat)] else []
  (readRanges text).map fun (ranges, rest) => (⟨negated, leading ++ ranges⟩, rest)

def kind? (letter : CodeUnit w) : Option ConversionKind :=
  match Char.ofNat letter.code with
  | 'd' => some .decimal
  | 'i' => some .integer
  | 'o' => some .octal
  | 'u' => some .unsigned
  | 'x' | 'X' => some .hex
  | 'e' | 'E' | 'f' | 'F' | 'g' | 'G' | 'a' | 'A' => some .float
  | 's' => some (.string false)
  | 'S' => some (.string true)
  | 'c' => some (.chars false)
  | 'C' => some (.chars true)
  | 'p' => some .pointer
  | 'n' => some .count
  | '%' => some .percent
  | _ => none

/-- What follows a percent sign. An unknown letter must match the input like any
literal, whatever stood between it and the percent sign. -/
def readConversion (text : Text w) : Except FormatFault (Directive × Text w) :=
  let (suppress, text) := readMark '*' text
  let (width, text) := readWidth text
  let (length, text) := readModifier text
  match text with
  | [] => .error .truncatedConversion
  | letter :: rest =>
    if letter.is '[' then
      match readClass rest with
      | none => .error .unterminatedClass
      | some (set, rest) => .ok (.conversion ⟨suppress, width, length, .charClass set⟩, rest)
    else match kind? letter with
      | some kind => .ok (.conversion ⟨suppress, width, length, kind⟩, rest)
      | none => .ok (.literal letter.code, rest)

def readDirective : Text w → Except FormatFault (Directive × Text w)
  | [] => .error .truncatedConversion
  | c :: rest =>
    if c.isSpace then .ok (.whitespace, rest.dropWhile CodeUnit.isSpace)
    else if c.is '%' then readConversion rest
    else .ok (.literal c.code, rest)

theorem strip?_length {letters : List Char} {text rest : Text w}
    (found : strip? letters text = some rest) : rest.length + letters.length = text.length := by
  induction letters generalizing text with
  | nil => simp only [strip?, Option.some.injEq] at found; simp [found]
  | cons letter letters ih =>
    cases text with
    | nil => simp [strip?] at found
    | cons c text =>
      simp only [strip?] at found
      split at found
      · have := ih found
        simp only [List.length_cons]
        omega
      · contradiction

theorem readMark_length (letter : Char) (text : Text w) :
    (readMark letter text).2.length ≤ text.length := by
  unfold readMark
  split
  · rename_i rest found
    exact Nat.le.intro (strip?_length found)
  · exact Nat.le_refl _

theorem length_dropWhile_le (keep : CodeUnit w → Bool) (text : Text w) :
    (text.dropWhile keep).length ≤ text.length :=
  (List.dropWhile_sublist keep).length_le

theorem readModifier_length (text : Text w) : (readModifier text).2.length ≤ text.length := by
  unfold readModifier
  cases found : modifiers.findSome? fun modifier =>
      (strip? modifier.spelling text).map fun rest => (modifier, rest) with
  | none => exact Nat.le_refl _
  | some pair =>
    obtain ⟨modifier, _, fits⟩ := List.exists_of_findSome?_eq_some found
    obtain ⟨rest, stripped, rfl⟩ := Option.map_eq_some_iff.mp fits
    have := strip?_length stripped
    simp only [Option.getD_some]
    omega

theorem readRanges_length {text rest : Text w} {ranges : List (Nat × Nat)}
    (found : readRanges text = some (ranges, rest)) : rest.length < text.length := by
  fun_induction readRanges text generalizing ranges with
  | case1 => contradiction
  | case2 low text closes => simp only [Option.some.injEq, Prod.mk.injEq] at found; simp [found]
  | case3 low opens dash high more spells ih =>
    obtain ⟨⟨_, _⟩, inner, eq⟩ := Option.map_eq_some_iff.mp found
    simp only [Prod.mk.injEq] at eq
    have := ih (eq.2 ▸ inner)
    simp only [List.length_cons]
    omega
  | case4 low opens dash high more single ih =>
    obtain ⟨⟨_, _⟩, inner, eq⟩ := Option.map_eq_some_iff.mp found
    simp only [Prod.mk.injEq] at eq
    have := ih (eq.2 ▸ inner)
    simp only [List.length_cons] at *
    omega
  | case5 low text opens single ih =>
    obtain ⟨⟨_, _⟩, inner, eq⟩ := Option.map_eq_some_iff.mp found
    simp only [Prod.mk.injEq] at eq
    have := ih (eq.2 ▸ inner)
    simp only [List.length_cons] at *
    omega

theorem readClass_length {text rest : Text w} {set : CharClass}
    (found : readClass text = some (set, rest)) : rest.length < text.length := by
  obtain ⟨⟨ranges, last⟩, inner, eq⟩ := Option.map_eq_some_iff.mp found
  have members : last.length < (readMark ']' (readMark '^' text).2).2.length :=
    readRanges_length inner
  simp only [Prod.mk.injEq] at eq
  rw [eq.2] at members
  have caret := readMark_length '^' text
  have bracket := readMark_length ']' (readMark '^' text).2
  omega

theorem readConversion_length {text rest : Text w} {directive : Directive}
    (found : readConversion text = .ok (directive, rest)) : rest.length < text.length := by
  have star := readMark_length '*' text
  have width := length_dropWhile_le (CodeUnit.isDigit 10) (readMark '*' text).2
  have modifier := readModifier_length (readWidth (readMark '*' text).2).2
  unfold readConversion at found
  simp only [readWidth] at found modifier
  split at found
  · contradiction
  · rename_i letter tail eq
    rw [eq] at modifier
    simp only [List.length_cons] at modifier
    split at found
    · split at found
      · contradiction
      · rename_i member
        have := readClass_length member
        simp only [Except.ok.injEq, Prod.mk.injEq] at found
        obtain ⟨-, rfl⟩ := found
        omega
    · split at found <;>
      · simp only [Except.ok.injEq, Prod.mk.injEq] at found
        obtain ⟨-, rfl⟩ := found
        omega

theorem readDirective_length {text rest : Text w} {directive : Directive}
    (found : readDirective text = .ok (directive, rest)) : rest.length < text.length := by
  unfold readDirective at found
  split at found
  · contradiction
  · rename_i c tail
    simp only [List.length_cons]
    split at found
    · simp only [Except.ok.injEq, Prod.mk.injEq] at found
      have := length_dropWhile_le CodeUnit.isSpace tail
      rw [found.2] at this
      omega
    · split at found
      · have := readConversion_length found
        omega
      · simp only [Except.ok.injEq, Prod.mk.injEq] at found
        obtain ⟨-, rfl⟩ := found
        omega

/-- A format as far as it could be read: the directives in order, each with the
offset after it, and what ended the reading early. -/
structure Reading where
  steps : List (Directive × Nat)
  error : Option FormatError
deriving DecidableEq

namespace Reading

def stop (reading : Reading) : Nat := (reading.steps.getLast?.map Prod.snd).getD 0

end Reading

def readFrom (offset : Nat) (text : Text w) : Reading :=
  if text.isEmpty then ⟨[], none⟩
  else match _found : readDirective text with
    | .error fault => ⟨[], some ⟨fault, offset⟩⟩
    | .ok (directive, rest) =>
      let stop := offset + (text.length - rest.length)
      let later := readFrom stop rest
      { later with steps := (directive, stop) :: later.steps }
termination_by text.length
decreasing_by exact readDirective_length ‹_›

def read (format : Text w) : Reading := readFrom 0 format.beforeNul

def parse (format : Text w) : Except FormatError (List Directive) :=
  let reading := read format
  match reading.error with
  | some error => .error error
  | none => .ok (reading.steps.map Prod.fst)

end Format

end FormattedInput
