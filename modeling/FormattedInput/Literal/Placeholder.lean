import FormattedInput.Format.Reading
import FormattedInput.Policy

/-!
The check of a format that is written out in a program. It reads the characters of
the literal and lists the conversions that want arguments, before there is any
input to scan. A literal that is too long or wants too many arguments is refused
like one that is malformed. -/
namespace FormattedInput

inductive Placeholder where
  | value
  | buffer
  | count
deriving DecidableEq

namespace Placeholder

/-- How many arguments the conversion takes. A secure call pairs a text or a count
with a capacity. -/
def arity (policy : Policy) : Placeholder → Nat
  | value => 1
  | buffer | count => if policy.isSecure then 2 else 1

def ofLetter? : Char → Option Placeholder
  | 's' | 'S' | 'c' | 'C' => some buffer
  | 'n' => some count
  | 'd' | 'i' | 'o' | 'u' | 'x' | 'X' | 'e' | 'E' | 'f' | 'F' | 'g' | 'G' | 'a' | 'A' | 'p' =>
    some value
  | _ => none

end Placeholder

inductive LiteralError where
  | tooLong (bytes : Nat)
  | tooManyConversions
  | malformed (fault : FormatFault)
  | argumentCount (policy : Policy) (expected found : Nat)
deriving DecidableEq

namespace Literal

def maxBytes : Nat := 10000

def maxPlaceholders : Nat := 256

end Literal

namespace LiteralError

def message : LiteralError → String
  | tooLong bytes =>
    "Format string too long (" ++ toString bytes ++ " bytes). Maximum allowed: "
      ++ toString Literal.maxBytes ++ " bytes."
  | tooManyConversions =>
    "Too many conversions in format string. Maximum allowed: "
      ++ toString Literal.maxPlaceholders ++ "."
  | malformed .truncatedConversion =>
    "Format string ends inside a conversion. Use '%%' for a literal '%'."
  | malformed .unterminatedClass => "Unterminated '%[' character class. Close it with ']'."
  | argumentCount policy expected found =>
    "Format string expects " ++ toString expected ++ " argument(s), but " ++ toString found
      ++ " were given." ++ hint policy
where
  hint : Policy → String
    | .plain => ""
    | .secure =>
      " Secure macros take a capacity after every '%s', '%c', '%[' and '%n' destination."

end LiteralError

namespace Literal

def skipLetter (letter : Char) : List Char → List Char
  | [] => []
  | c :: rest => if c = letter then rest else c :: rest

/-- The length modifiers, each before the ones that it begins with. -/
def modifiers : List (List Char) :=
  [['h', 'h'], ['h'], ['l', 'l'], ['l'], ['L'], ['I', '6', '4'], ['I', '3', '2'], ['I'], ['j'],
   ['z'], ['t'], ['w']]

/-- Skips the longest length modifier. What is left of a shorter one is the letter
of the conversion. -/
def skipModifier (letters : List Char) : List Char :=
  (modifiers.findSome? fun modifier => modifier.isPrefixOf? letters).getD letters

def skipClass (letters : List Char) : Option (List Char) :=
  match (skipLetter ']' (skipLetter '^' letters)).dropWhile (· ≠ ']') with
  | [] => none
  | _ :: rest => some rest

def readConversion (letters : List Char) :
    Except FormatFault (Option Placeholder × List Char) :=
  let suppressed := letters.head? == some '*'
  let letters := skipModifier ((skipLetter '*' letters).dropWhile Char.isDigit)
  match letters with
  | [] => .error .truncatedConversion
  | '[' :: members =>
    match skipClass members with
    | none => .error .unterminatedClass
    | some rest => .ok (if suppressed then none else some .buffer, rest)
  | letter :: rest => .ok (if suppressed then none else Placeholder.ofLetter? letter, rest)

theorem skipLetter_suffix (letter : Char) (letters : List Char) :
    skipLetter letter letters <:+ letters := by
  cases letters with
  | nil => exact List.suffix_rfl
  | cons c rest =>
    simp only [skipLetter]
    split
    · exact List.suffix_cons c rest
    · exact List.suffix_rfl

theorem isPrefixOf?_nil (letters : List Char) : [].isPrefixOf? letters = some letters := by
  cases letters <;> rfl

theorem isPrefixOf?_cons (mark letter : Char) (marks letters : List Char) :
    (mark :: marks).isPrefixOf? (letter :: letters) =
      if mark == letter then marks.isPrefixOf? letters else none := rfl

theorem isPrefixOf?_cons_nil (mark : Char) (marks : List Char) :
    (mark :: marks).isPrefixOf? [] = none := rfl

theorem isPrefixOf?_spells {marks letters rest : List Char}
    (fits : marks.isPrefixOf? letters = some rest) : letters = marks ++ rest := by
  induction marks generalizing letters with
  | nil =>
    rw [isPrefixOf?_nil] at fits
    exact Option.some.inj fits
  | cons mark marks ih =>
    cases letters with
    | nil => contradiction
    | cons letter letters =>
      rw [isPrefixOf?_cons] at fits
      split at fits
      · rename_i same
        rw [ih fits, eq_of_beq same, List.cons_append]
      · contradiction

theorem skipModifier_suffix (letters : List Char) : skipModifier letters <:+ letters := by
  unfold skipModifier
  cases found : modifiers.findSome? fun modifier => modifier.isPrefixOf? letters with
  | none => exact List.suffix_rfl
  | some rest =>
    obtain ⟨modifier, -, fits⟩ := List.exists_of_findSome?_eq_some found
    exact ⟨modifier, (isPrefixOf?_spells fits).symm⟩

theorem skipClass_suffix {letters rest : List Char} (found : skipClass letters = some rest) :
    ∃ closing, closing :: rest <:+ letters := by
  unfold skipClass at found
  split at found
  · contradiction
  · rename_i closing after eq
    obtain rfl := Option.some.inj found
    have members := List.dropWhile_suffix (· ≠ ']')
      (l := skipLetter ']' (skipLetter '^' letters))
    rw [eq] at members
    exact ⟨closing, members.trans
      ((skipLetter_suffix ']' _).trans (skipLetter_suffix '^' letters))⟩

theorem readConversion_suffix {letters rest : List Char} {placeholder : Option Placeholder}
    (found : readConversion letters = .ok (placeholder, rest)) :
    ∃ last, last :: rest <:+ letters := by
  have front : skipModifier ((skipLetter '*' letters).dropWhile Char.isDigit) <:+ letters :=
    (skipModifier_suffix _).trans ((List.dropWhile_suffix _).trans (skipLetter_suffix '*' letters))
  simp only [readConversion] at found
  split at found
  · contradiction
  · rename_i members eq
    rw [eq] at front
    split at found
    · contradiction
    · rename_i after closed
      obtain ⟨-, rfl⟩ := Prod.mk.inj (Except.ok.inj found)
      obtain ⟨closing, ends⟩ := skipClass_suffix closed
      exact ⟨closing, ends.trans ((List.suffix_cons '[' members).trans front)⟩
  · rename_i letter after _ eq
    rw [eq] at front
    obtain ⟨-, rfl⟩ := Prod.mk.inj (Except.ok.inj found)
    exact ⟨letter, front⟩

theorem length_readConversion {letters rest : List Char} {placeholder : Option Placeholder}
    (found : readConversion letters = .ok (placeholder, rest)) :
    rest.length < letters.length := by
  obtain ⟨last, ends⟩ := readConversion_suffix found
  exact ends.length_le

structure Found where
  placeholders : List Placeholder
  fault : Option FormatFault
deriving DecidableEq

/-- Lists the placeholders of a literal up to a terminator between two
directives. -/
def find : List Char → Found
  | [] => ⟨[], none⟩
  | c :: rest =>
    if c = '\x00' then ⟨[], none⟩
    else if c = '%' then
      match _found : readConversion rest with
      | .error fault => ⟨[], some fault⟩
      | .ok (placeholder, after) =>
        let later := find after
        { later with placeholders := placeholder.toList ++ later.placeholders }
    else find rest
termination_by letters => letters.length
decreasing_by
  · have := length_readConversion ‹_›
    simp only [List.length_cons]
    omega
  · simp

/-- Checks a literal. Too many placeholders are noticed before anything malformed
that comes after them. -/
def placeholders (literal : String) : Except LiteralError (List Placeholder) :=
  if maxBytes < literal.utf8ByteSize then .error (.tooLong literal.utf8ByteSize)
  else
    let found := find literal.toList
    if maxPlaceholders < found.placeholders.length then .error .tooManyConversions
    else match found.fault with
      | some fault => .error (.malformed fault)
      | none => .ok found.placeholders

def arity (policy : Policy) (placeholders : List Placeholder) : Nat :=
  placeholders.foldr (fun placeholder total => placeholder.arity policy + total) 0

end Literal

end FormattedInput
