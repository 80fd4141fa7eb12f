import FormattedInput.Source.Basic
import FormattedInput.Source.Leftover

/-!
A console. Keys are read one at a time and echoed when they are consumed for the
first time. A key that was consumed, put back and consumed again is not echoed a
second time, and a key that was only looked at is not echoed yet. -/
namespace FormattedInput

variable {w : Width}

/-- The keys to come and the units echoed so far. A missing key is a read that
finds the console closed; after the last key it stays closed. -/
structure Console (w : Width) where
  keys : List (Option (CodeUnit w))
  echoed : Text w
deriving DecidableEq

namespace Console

def ofKeys (keys : List (Option (CodeUnit w))) : Console w := ⟨keys, []⟩

def ofText (text : Text w) : Console w := ofKeys (text.map some)

def read (console : Console w) : Option (CodeUnit w) × Console w :=
  match console.keys with
  | [] => (none, console)
  | key :: keys => (key, { console with keys })

def echo (unit : CodeUnit w) (console : Console w) : Console w :=
  { console with echoed := console.echoed ++ [unit] }

def echo? (unit : Option (CodeUnit w)) (console : Console w) : Console w :=
  match unit with
  | some unit => console.echo unit
  | none => console

def rest (console : Console w) : Text w := console.keys.filterMap id

end Console

structure ConsoleStream (w : Width) where
  console : Console w
  lookahead : Option (CodeUnit w)
  pushed : List (CodeUnit w)
deriving DecidableEq

namespace ConsoleStream

def ofConsole (console : Console w) : ConsoleStream w := ⟨console, none, []⟩

/-- Goes on with parked input. What was put back has been echoed; what was only
looked at has not. -/
def resume (console : Console w) (left : Leftover w) : ConsoleStream w :=
  ⟨console, left.lookahead, left.pushed⟩

def park (source : ConsoleStream w) : Leftover w := ⟨source.lookahead, source.pushed⟩

def peek (source : ConsoleStream w) : Option (CodeUnit w) × ConsoleStream w :=
  match source.pushed, source.lookahead with
  | unit :: _, _ => (some unit, source)
  | [], some unit => (some unit, source)
  | [], none =>
    let key := source.console.read
    (key.1, { source with console := key.2, lookahead := key.1 })

def consume (source : ConsoleStream w) : ConsoleStream w :=
  match source.pushed, source.lookahead with
  | _ :: pushed, _ => { source with pushed }
  | [], some unit => { source with console := source.console.echo unit, lookahead := none }
  | [], none =>
    let key := source.console.read
    { source with console := key.2.echo? key.1 }

def putBack (unit : CodeUnit w) (source : ConsoleStream w) : ConsoleStream w :=
  { source with pushed := unit :: source.pushed }

def supply (source : ConsoleStream w) : Nat :=
  source.pushed.length + source.lookahead.toList.length + source.console.keys.length

theorem supply_consume {source seen : ConsoleStream w} {unit : CodeUnit w}
    (looked : source.peek = (some unit, seen)) : seen.consume.supply < source.supply := by
  obtain ⟨⟨keys, echoed⟩, lookahead, pushed⟩ := source
  match pushed, lookahead, keys with
  | first :: pushed, lookahead, keys =>
    obtain ⟨-, rfl⟩ := Prod.mk.inj looked
    simp [consume, supply]
  | [], some first, keys =>
    obtain ⟨-, rfl⟩ := Prod.mk.inj looked
    simp [consume, supply, Console.echo]
  | [], none, [] => simp [peek, Console.read] at looked
  | [], none, key :: keys =>
    simp only [peek, Console.read, Prod.mk.injEq] at looked
    obtain ⟨rfl, rfl⟩ := looked
    simp [consume, supply, Console.echo]

instance : UnitSource (ConsoleStream w) w where
  peek := peek
  consume := consume
  putBack := putBack
  supply := supply
  supply_consume := supply_consume

end ConsoleStream

/-- The bytes that show a unit on a terminal: a narrow unit is its own byte, a wide
one is spelled in UTF-8, half of a surrogate pair as the replacement character. -/
def CodeUnit.terminalBytes (unit : CodeUnit w) : List Byte :=
  match w with
  | .narrow => [unit]
  | .wide =>
    let scalar := if 0xD800 ≤ unit.code ∧ unit.code < 0xE000 then 0xFFFD else unit.code
    Text.ofChars .narrow [Char.ofNat scalar]

namespace Console

def ofTerminal (w : Width) (bytes : List Byte) : Console w :=
  ofText (bytes.map (CodeUnit.convert .latin1 w))

def terminalOutput (echo : Bool) (console : Console w) : List Byte :=
  if echo then console.echoed.flatMap CodeUnit.terminalBytes else []

def terminalRest (console : Console w) : List Byte :=
  console.rest.map (CodeUnit.convert .latin1 .narrow)

end Console

end FormattedInput
