import FormattedInput.Scan.Report

namespace FormattedInput

inductive LogLevel where
  | debug
  | warn
  | error
deriving DecidableEq

structure LogLine where
  level : LogLevel
  message : String
  fields : List (String × String)
deriving DecidableEq

/-- Who watches a scan: whether events are traced, and whether the handler that
violations go to is the default one. -/
structure Watch where
  traces : Bool
  logsViolations : Bool
deriving DecidableEq

def Watch.unobserved : Watch := ⟨false, true⟩

namespace Event

def line? : Event → Option LogLine
  | started w policy =>
    some ⟨.debug, "scan started", [("width", w.name), ("secure", toString policy.isSecure)]⟩
  | converted _ _ _ => none
  | halted halt assigned =>
    some ⟨.debug, "scan halted", [("assigned", toString assigned), ("error", halt.message)]⟩
  | finished assigned consumed =>
    some ⟨.debug, "scan finished",
      [("assigned", toString assigned), ("consumed", toString consumed)]⟩

end Event

namespace Halt

def overflowLine? : Halt → Option LogLine
  | destinationFull _ capacity => some (line capacity .plain)
  | violation (.bufferTooSmall _ capacity) => some (line capacity .secure)
  | _ => none
where
  line (capacity : Nat) (policy : Policy) : LogLine :=
    ⟨.debug, "destination buffer too small",
      [("capacity", toString capacity), ("secure", toString policy.isSecure)]⟩

end Halt

namespace Report

def stopLine (report : Report) (halt : Halt) : LogLine :=
  ⟨.debug, "scan stopped early",
    [("assigned", toString report.assigned), ("consumed", toString report.consumed),
     ("error", halt.message)]⟩

def violationLine (broken : Violation) : LogLine :=
  ⟨.error, "invalid parameter passed to scanf: " ++ broken.message, []⟩

def failureLine (reason : String) : LogLine :=
  ⟨.warn, "read error ends scan input: " ++ reason, []⟩

def log (watch : Watch) (failures : List String) (report : Report) : List LogLine :=
  let traced := if watch.traces then report.events.filterMap Event.line? else []
  let handled := if watch.logsViolations then report.violations.map violationLine else []
  traced.take 1
    ++ failures.map failureLine
    ++ report.halt.toList.filterMap Halt.overflowLine?
    ++ report.halt.toList.map report.stopLine
    ++ handled
    ++ traced.drop 1

end Report

end FormattedInput
