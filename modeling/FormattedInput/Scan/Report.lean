import FormattedInput.Scan.Progress

namespace FormattedInput

structure Report where
  assigned : Nat
  consumed : Nat
  halt : Option Halt
  events : List Event
  /-- What the invalid-parameter handler was called with. -/
  violations : List Violation
deriving DecidableEq

namespace Report

/-- The value of the C functions: the number of assignments, or minus one if the
caller broke the contract or the input ended before the first assignment. A buffer
that is too small keeps the count. -/
def returnValue (report : Report) : Int :=
  let count : Int := min report.assigned Int32.maxValue.toInt
  match report.halt with
  | some (.violation broken) => if broken.returnsCount then count else -1
  | some (.inputExhausted _) => if report.assigned = 0 then -1 else count
  | _ => count

end Report

structure Scan (σ : Type) where
  report : Report
  slots : List Slot
  source : σ

variable {σ : Type} {w : Width} [UnitSource σ w]

def scan (rules : Rules) (format : Text w) (slots : List Slot) (source : σ) : Scan σ :=
  let run := (Progress.start w rules slots source).runFormat rules (Format.read format)
  let assigned := run.2.assigned
  let consumed := run.2.input.consumed
  let halted := run.1.toList.map fun halt => Event.halted halt assigned
  ⟨{ assigned, consumed
     halt := run.1
     events := run.2.events ++ halted ++ [.finished assigned consumed]
     violations := run.1.toList.filterMap Halt.violation? },
   run.2.arguments.slots, run.2.input.source⟩

end FormattedInput
