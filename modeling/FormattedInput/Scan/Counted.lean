import FormattedInput.Halt
import FormattedInput.Source.Basic

/-!
Reading units for one scan, with a count of those that it has consumed. A field
also limits what one conversion may still consume; once the limit is reached, the
source is not even looked at. -/
namespace FormattedInput

structure Counted (σ : Type) where
  source : σ
  consumed : Nat
deriving DecidableEq

/-- A run of accepted units. It overflows when the next unit would have been
accepted but there is no room left for it. -/
structure Run (σ : Type) (w : Width) where
  units : Text w
  overflows : Bool
  width : Option Nat
  input : Counted σ

namespace Counted

variable {σ : Type} {w : Width} [UnitSource σ w]

def peek (input : Counted σ) : Option (CodeUnit w) × Counted σ :=
  let shown := UnitSource.peek input.source
  (shown.1, { input with source := shown.2 })

def consume (input : Counted σ) : Counted σ :=
  ⟨UnitSource.consume input.source, input.consumed + 1⟩

def putBack (unit : CodeUnit w) (input : Counted σ) : Counted σ :=
  ⟨UnitSource.putBack unit input.source, input.consumed - 1⟩

def putBack? (unit : Option (CodeUnit w)) (input : Counted σ) : Counted σ :=
  match unit with
  | some unit => input.putBack unit
  | none => input

/-- Why a directive that matched nothing failed here. The source is looked at
afresh, so what counts is what it shows now. -/
def unmatched (input : Counted σ) : Halt × Counted σ :=
  match input.peek with
  | (none, input) => (.inputExhausted input.consumed, input)
  | (some _, input) => (.mismatch input.consumed, input)

def fail {α : Type} (input : Counted σ) : Except Halt α × Counted σ :=
  let stopped := input.unmatched
  (.error stopped.1, stopped.2)

/-- Consumes units while they are accepted, within a width and a room; a missing
bound is no bound. -/
def takeRun (accept : CodeUnit w → Bool) (room width : Option Nat) (input : Counted σ) :
    Run σ w :=
  if width = some 0 then ⟨[], false, width, input⟩
  else match _looked : UnitSource.peek input.source with
    | (none, source) => ⟨[], false, width, { input with source }⟩
    | (some unit, source) =>
      if accept unit then
        if room = some 0 then ⟨[], true, width, { input with source }⟩
        else
          let run := takeRun accept (room.map (· - 1)) (width.map (· - 1))
            ⟨UnitSource.consume source, input.consumed + 1⟩
          { run with units := unit :: run.units }
      else ⟨[], false, width, { input with source }⟩
termination_by UnitSource.supply input.source
decreasing_by exact UnitSource.supply_consume ‹_›

theorem takeRun_round (accept : CodeUnit w → Bool) (room width : Option Nat)
    (input : Counted σ) :
    input.takeRun accept room width =
      if width = some 0 then ⟨[], false, width, input⟩
      else match UnitSource.peek input.source with
        | (none, source) => ⟨[], false, width, { input with source }⟩
        | (some unit, source) =>
          if accept unit then
            if room = some 0 then ⟨[], true, width, { input with source }⟩
            else
              let run := takeRun accept (room.map (· - 1)) (width.map (· - 1))
                ⟨UnitSource.consume source, input.consumed + 1⟩
              { run with units := unit :: run.units }
          else ⟨[], false, width, { input with source }⟩ := by
  rw [takeRun]
  split
  · rfl
  · split
    · rename_i looked
      rw [looked]
    · rename_i looked
      rw [looked]

def dropSpace (input : Counted σ) : Counted σ :=
  (input.takeRun CodeUnit.isSpace none none).input

end Counted

/-- A source with the number of units that one conversion may still consume. A
missing number is no limit. -/
structure Field (σ : Type) where
  input : Counted σ
  width : Option Nat
deriving DecidableEq

namespace Field

variable {σ : Type} {w : Width} [UnitSource σ w]

def takeIf (accept : CodeUnit w → Bool) (field : Field σ) : Option (CodeUnit w) × Field σ :=
  if field.width = some 0 then (none, field)
  else match field.input.peek with
    | (none, input) => (none, { field with input })
    | (some unit, input) =>
      if accept unit then (some unit, ⟨input.consume, field.width.map (· - 1)⟩)
      else (none, { field with input })

def takeWhile (accept : CodeUnit w → Bool) (field : Field σ) : Text w × Field σ :=
  let run := field.input.takeRun accept none field.width
  (run.units, ⟨run.input, run.width⟩)

end Field

end FormattedInput
