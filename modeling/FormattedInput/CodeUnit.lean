/-!
Code units and texts. A narrow unit is a byte and a wide unit is one UTF-16
code unit. Every rule below is stated once, for both widths; only whitespace
differs between them. A wide unit is never combined with its neighbour, so half
of a surrogate pair is a unit like any other. -/
namespace FormattedInput

inductive Width where
  | narrow
  | wide
deriving DecidableEq

namespace Width

def bound : Width → Nat
  | narrow => 256
  | wide => 65536

def name : Width → String
  | narrow => "narrow"
  | wide => "wide"

theorem bound_pos (w : Width) : 0 < w.bound := by cases w <;> decide

end Width

@[ext] structure CodeUnit (w : Width) where
  code : Nat
  code_lt : code < w.bound
deriving DecidableEq

abbrev Byte := CodeUnit .narrow

abbrev Text (w : Width) := List (CodeUnit w)

namespace CodeUnit

variable {w : Width}

/-- The unit of a code, which wraps at the width's bound. -/
def ofNat (w : Width) (code : Nat) : CodeUnit w :=
  ⟨code % w.bound, Nat.mod_lt _ w.bound_pos⟩

theorem code_ofNat {n : Nat} (inside : n < w.bound) : (ofNat w n).code = n :=
  Nat.mod_eq_of_lt inside

def nul : CodeUnit w := ⟨0, w.bound_pos⟩

def is (c : CodeUnit w) (letter : Char) : Bool := c.code == letter.toNat

def isAscii (c : CodeUnit w) : Bool := c.code < 128

/-- Narrow whitespace is that of the C locale. Wide whitespace is the Unicode
property White_Space, all of whose members are single units. -/
def isSpace (c : CodeUnit w) : Bool :=
  match w with
  | .narrow => asciiSpace c.code
  | .wide =>
    asciiSpace c.code || 0x2000 ≤ c.code && c.code ≤ 0x200A
      || [0x85, 0xA0, 0x1680, 0x2028, 0x2029, 0x202F, 0x205F, 0x3000].contains c.code
where
  asciiSpace (code : Nat) : Bool := code == 32 || 9 ≤ code && code ≤ 13

def digit? (base : Nat) (c : CodeUnit w) : Option Nat :=
  (alphanumeric c.code).filter (· < base)
where
  alphanumeric (code : Nat) : Option Nat :=
    if '0'.toNat ≤ code ∧ code ≤ '9'.toNat then some (code - '0'.toNat)
    else if 'A'.toNat ≤ code ∧ code ≤ 'Z'.toNat then some (code - 'A'.toNat + 10)
    else if 'a'.toNat ≤ code ∧ code ≤ 'z'.toNat then some (code - 'a'.toNat + 10)
    else none

def isDigit (base : Nat) (c : CodeUnit w) : Bool := (c.digit? base).isSome

end CodeUnit

namespace Text

variable {w : Width}

def ofCodes (w : Width) (codes : List Nat) : Text w := codes.map (CodeUnit.ofNat w)

def codes (text : Text w) : List Nat := text.map CodeUnit.code

def beforeNul (text : Text w) : Text w := text.takeWhile (fun c => c.code ≠ 0)

theorem beforeNul_append {front : Text w} (nulFree : ∀ unit ∈ front, unit.code ≠ 0)
    (back : Text w) : (front ++ back).beforeNul = front ++ back.beforeNul :=
  List.takeWhile_append_of_pos fun unit member => decide_eq_true (nulFree unit member)

theorem beforeNul_nulFree {text : Text w} (nulFree : ∀ unit ∈ text, unit.code ≠ 0) :
    text.beforeNul = text := by
  have whole := beforeNul_append nulFree []
  rw [List.append_nil] at whole
  exact whole.trans (List.append_nil text)

theorem nulFree_beforeNul (text : Text w) : ∀ unit ∈ text.beforeNul, unit.code ≠ 0 := by
  intro unit member
  exact of_decide_eq_true (List.all_eq_true.mp List.all_takeWhile unit member)

/-- The number a run of digits denotes. Units that are no digit count as zero. -/
def value (base : Nat) (digits : Text w) : Nat :=
  digits.foldl (fun total c => total * base + (c.digit? base).getD 0) 0

/-- A narrow text holds the UTF-8 bytes of a string, a wide text its UTF-16
units. -/
def ofChars : (w : Width) → List Char → Text w
  | .narrow, letters => letters.flatMap fun letter =>
      (String.utf8EncodeChar letter).map fun byte => CodeUnit.ofNat .narrow byte.toNat
  | .wide, letters => letters.flatMap fun letter => ofCodes .wide (utf16 letter.toNat)
where
  utf16 (scalar : Nat) : List Nat :=
    if scalar < 0x10000 then [scalar]
    else [0xD800 + (scalar - 0x10000) / 0x400, 0xDC00 + (scalar - 0x10000) % 0x400]

def ofString (w : Width) (s : String) : Text w := ofChars w s.toList

end Text

end FormattedInput
