import FormattedInput.CodeUnit

namespace FormattedInput

inductive CodePage where
  | latin1
  | windows1252
deriving DecidableEq

namespace CodePage

/-- What Windows-1252 assigns to the bytes from 0x80 to 0x9F. Its five unassigned
bytes stand for themselves. -/
def windows1252High : List Nat :=
  [0x20AC, 0x0081, 0x201A, 0x0192, 0x201E, 0x2026, 0x2020, 0x2021,
   0x02C6, 0x2030, 0x0160, 0x2039, 0x0152, 0x008D, 0x017D, 0x008F,
   0x0090, 0x2018, 0x2019, 0x201C, 0x201D, 0x2022, 0x2013, 0x2014,
   0x02DC, 0x2122, 0x0161, 0x203A, 0x0153, 0x009D, 0x017E, 0x0178]

def substitute : Byte := .ofNat .narrow '?'.toNat

def toWide (page : CodePage) (byte : Byte) : CodeUnit .wide :=
  match page with
  | latin1 => .ofNat .wide byte.code
  | windows1252 =>
    if 0x80 ≤ byte.code then .ofNat .wide (windows1252High.getD (byte.code - 0x80) byte.code)
    else .ofNat .wide byte.code

def toNarrow (page : CodePage) (unit : CodeUnit .wide) : Byte :=
  match page with
  | latin1 => if unit.code < 256 then .ofNat .narrow unit.code else substitute
  | windows1252 =>
    if unit.code < 0x80 ∨ 0xA0 ≤ unit.code ∧ unit.code < 256 then .ofNat .narrow unit.code
    else match windows1252High.idxOf? unit.code with
      | some place => .ofNat .narrow (0x80 + place)
      | none => substitute

end CodePage

namespace CodeUnit

variable {w : Width}

def convert (page : CodePage) (target : Width) (c : CodeUnit w) : CodeUnit target :=
  match w, target, c with
  | .narrow, .narrow, c => c
  | .narrow, .wide, c => page.toWide c
  | .wide, .narrow, c => page.toNarrow c
  | .wide, .wide, c => c

end CodeUnit

end FormattedInput
