import FormattedInput.Locale
import FormattedInput.Scan.Content
import FormattedInput.Scan.Destination
import FormattedInput.Scan.Float
import FormattedInput.Scan.Text

/-!
A scan of one input by one format. A conversion takes its arguments, reads, stores
and is then recorded, in this order; whatever stops it stops the scan. What
happened so far is kept in the progress, halted or not. -/
namespace FormattedInput

structure Rules where
  policy : Policy
  locale : Locale
deriving DecidableEq

inductive Event where
  | started (w : Width) (policy : Policy)
  | converted (index : Nat) (conversion : Conversion) (consumed : Nat)
  | halted (halt : Halt) (assigned : Nat)
  | finished (assigned consumed : Nat)
deriving DecidableEq

structure Progress (σ : Type) where
  input : Counted σ
  arguments : Arguments
  completed : Nat
  assigned : Nat
  events : List Event
deriving DecidableEq

/-- What reading one conversion gave: what is to be stored, and why the scan stops
if it does. -/
structure Result (w : Width) where
  content : Option (Content w)
  halt : Option Halt

namespace Counted

variable {σ : Type} {w : Width} [UnitSource σ w]

def takeLiteral (code : Nat) (input : Counted σ) : Option Halt × Counted σ :=
  let shown := input.peek
  if shown.1.any (fun unit => unit.code == code) then (none, shown.2.consume)
  else
    let failed := shown.2.unmatched
    (some failed.1, failed.2)

def convertInteger (base : IntegerBase) (width : Option Nat) (input : Counted σ) :
    Result w × Counted σ :=
  match input.dropSpace.takeInteger base width with
  | (.ok value, input) => (⟨some (.word value), none⟩, input)
  | (.error halt, input) => (⟨none, some halt⟩, input)

def convertFloat (point : Nat) (width : Option Nat) (input : Counted σ) : Result w × Counted σ :=
  match input.dropSpace.takeDecimal point width with
  | (.ok number, input) => (⟨some (.decimal number), none⟩, input)
  | (.error halt, input) => (⟨none, some halt⟩, input)

def convertText (policy : Policy) (index : Nat) (shape : TextShape) (elements width : Option Nat)
    (input : Counted σ) : Result w × Counted σ :=
  match input.takeText shape elements width with
  | ((units, .complete), input) =>
    (⟨some (if shape.isTerminated then .terminated units else .text units), none⟩, input)
  | ((units, .overflow), input) =>
    (⟨some (.cut units), some (policy.overflow index (elements.getD 0))⟩, input)
  | ((units, .failed halt), input) => (⟨some (.text units), some halt⟩, input)

/-- Reads what a conversion asks for. The elements are those its destination has
room for, and none at all if it stores nothing. -/
def convert (rules : Rules) (index : Nat) (conversion : Conversion) (elements : Option Nat)
    (input : Counted σ) : Result w × Counted σ :=
  let width := conversion.width
  let text := fun shape => input.convertText rules.policy index shape elements width
  match conversion.kind with
  | .decimal | .unsigned => input.convertInteger (.fixed 10) width
  | .integer => input.convertInteger .announced width
  | .octal => input.convertInteger (.fixed 8) width
  | .hex | .pointer => input.convertInteger (.fixed 16) width
  | .float => input.convertFloat rules.locale.decimalPoint.code width
  | .string _ => text .word
  | .chars _ => text .characters
  | .charClass set => text (.members set)
  | .count => (⟨some (.word input.consumed), none⟩, input)
  | .percent =>
    let matched := input.takeLiteral '%'.toNat
    (⟨none, matched.1⟩, matched.2)

end Counted

namespace Progress

variable {σ : Type} {w : Width} [UnitSource σ w]

def start (w : Width) (rules : Rules) (slots : List Slot) (source : σ) : Progress σ :=
  ⟨⟨source, 0⟩, .ofSlots slots, 0, 0, [.started w rules.policy]⟩

def store (page : CodePage) (destination : Option Destination) (content : Option (Content w))
    (arguments : Arguments) : Arguments :=
  match destination, content with
  | some destination, some content => arguments.update destination.place (Slot.store page content)
  | _, _ => arguments

def record (conversion : Conversion) (progress : Progress σ) : Progress σ :=
  { progress with
    completed := progress.completed + 1
    assigned := if conversion.assigns then progress.assigned + 1 else progress.assigned
    events := progress.events
      ++ [.converted (progress.completed + 1) conversion progress.input.consumed] }

def convert (rules : Rules) (conversion : Conversion) (progress : Progress σ) :
    Option Halt × Progress σ :=
  let index := progress.completed + 1
  match rules.policy.destination w index conversion progress.arguments with
  | (.error broken, arguments) => (some (.violation broken), { progress with arguments })
  | (.ok destination, arguments) =>
    let read := progress.input.convert rules index conversion (destination.map Destination.room)
    let after := { progress with
      input := read.2
      arguments := store rules.locale.page destination read.1.content arguments }
    match read.1.halt with
    | some halt => (some halt, after)
    | none => (none, after.record conversion)

def execute (rules : Rules) (directive : Directive) (progress : Progress σ) :
    Option Halt × Progress σ :=
  match directive with
  | .whitespace => (none, { progress with input := progress.input.dropSpace })
  | .literal code =>
    let matched := progress.input.takeLiteral code
    (matched.1, { progress with input := matched.2 })
  | .conversion conversion => progress.convert rules conversion

def run (rules : Rules) : List Directive → Progress σ → Option Halt × Progress σ
  | [], progress => (none, progress)
  | directive :: directives, progress =>
    match progress.execute rules directive with
    | (some halt, progress) => (some halt, progress)
    | (none, progress) => run rules directives progress

/-- Runs a format as far as it could be read. Its error counts only if the scan gets
there. -/
def runFormat (rules : Rules) (reading : Format.Reading) (progress : Progress σ) :
    Option Halt × Progress σ :=
  match progress.run rules (reading.steps.map Prod.fst) with
  | (some halt, progress) => (some halt, progress)
  | (none, progress) => (reading.error.map .invalidFormat, progress)

end Progress

end FormattedInput
