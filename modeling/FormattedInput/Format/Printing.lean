import FormattedInput.Format.Directive

namespace FormattedInput

namespace ConversionKind

def letter : ConversionKind → Char
  | decimal => 'd'
  | integer => 'i'
  | octal => 'o'
  | unsigned => 'u'
  | hex => 'x'
  | float => 'f'
  | string false => 's'
  | string true => 'S'
  | chars false => 'c'
  | chars true => 'C'
  | charClass _ => '['
  | pointer => 'p'
  | count => 'n'
  | percent => '%'

end ConversionKind

namespace CharClass

/-- The bounds of a range around a dash. A caret goes behind it, for in front of a class it
would negate the class. -/
def spellRange (w : Width) (range : Nat × Nat) : Text w :=
  if range.1 = '^'.toNat then .ofCodes w [range.2, '-'.toNat, range.1]
  else .ofCodes w [range.1, '-'.toNat, range.2]

/-- A closing bracket is a member only in front, where it stands alone. -/
def spellFirst (w : Width) (range : Nat × Nat) : Text w :=
  if range = (']'.toNat, ']'.toNat) then .ofChars w [']'] else spellRange w range

def spellRanges (w : Width) : List (Nat × Nat) → Text w
  | [] => []
  | first :: others => spellFirst w first ++ others.flatMap (spellRange w)

def spelling (w : Width) (set : CharClass) : Text w :=
  .ofChars w (if set.negated then ['^'] else []) ++ spellRanges w set.ranges ++ .ofChars w [']']

end CharClass

namespace Conversion

def marks (conversion : Conversion) : List Char :=
  (if conversion.suppress then ['*'] else []) ++ (conversion.width.elim [] (Nat.toDigits 10))
    ++ conversion.length.spelling

def members (w : Width) (conversion : Conversion) : Text w :=
  match conversion.kind with
  | .charClass set => set.spelling w
  | _ => []

def spelling (w : Width) (conversion : Conversion) : Text w :=
  .ofChars w ('%' :: conversion.marks ++ [conversion.kind.letter]) ++ conversion.members w

end Conversion

namespace Directive

/-- A literal that is whitespace stands behind a percent sign, where it is no more than an
unknown letter. -/
def spelling (w : Width) : Directive → Text w
  | whitespace => .ofChars w [' ']
  | literal code =>
    if (CodeUnit.ofNat w code).isSpace then .ofChars w ['%'] ++ .ofCodes w [code]
    else .ofCodes w [code]
  | conversion asked => asked.spelling w

end Directive

def Format.print (w : Width) (directives : List Directive) : Text w :=
  directives.flatMap (Directive.spelling w)

end FormattedInput
