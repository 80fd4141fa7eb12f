import FormattedInput.Format.Reading

namespace FormattedInput.Format

variable {w : Width}

/-- What is left of a format and how many units lie before it. -/
structure Walk (w : Width) where
  rest : Text w
  offset : Nat
deriving DecidableEq

abbrev Item := Except FormatError Directive

namespace Walk

def start (format : Text w) : Walk w := ⟨format.beforeNul, 0⟩

def next (walk : Walk w) : Option (Item × Walk w) :=
  if walk.rest.isEmpty then none
  else match readDirective walk.rest with
    | .ok (directive, rest) =>
      some (.ok directive, ⟨rest, walk.offset + (walk.rest.length - rest.length)⟩)
    | .error fault => some (.error ⟨fault, walk.offset⟩, ⟨[], walk.offset⟩)

/-- The items of a whole walk, each with the offset behind it. -/
inductive Yields : Walk w → List (Item × Nat) → Prop where
  | ended {walk : Walk w} (none : walk.next = none) : Yields walk []
  | item {walk after : Walk w} {item : Item} {items : List (Item × Nat)}
    (found : walk.next = some (item, after)) (later : Yields after items) :
    Yields walk ((item, after.offset) :: items)

end Walk

def Reading.items (reading : Reading) : List (Item × Nat) :=
  reading.steps.map (fun step => (.ok step.1, step.2))
    ++ reading.error.toList.map fun error => (.error error, error.offset)

end FormattedInput.Format
