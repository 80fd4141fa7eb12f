import FormattedInput.Source.Basic
import FormattedInput.Source.Leftover
import FormattedInput.Source.Script

/-!
Units read from a byte reader. A failed read ends the input until its reason is
taken, and units taken back are delivered before anything else. A narrow stream
leaves the byte it looks at in the reader's buffer. A wide stream has to decode it
and so holds the unit itself. -/
namespace FormattedInput

/-- A byte reader together with the failure that stopped it, if one did, and the
reasons of all failures so far. -/
structure Feed where
  reader : ByteReader
  failure : Option String
  failures : List String
deriving DecidableEq

namespace Feed

def ofReader (reader : ByteReader) : Feed := ⟨reader, none, []⟩

/-- Shows the next byte. Nothing is read while a failure is held. -/
def look (feed : Feed) : Option Byte × Feed :=
  if feed.failure.isSome then (none, feed)
  else match feed.reader.look with
    | (.byte byte, reader) => (some byte, { feed with reader })
    | (.endOfFile, reader) => (none, { feed with reader })
    | (.failed reason, reader) => (none, ⟨reader, some reason, feed.failures ++ [reason]⟩)

def take (feed : Feed) : Option Byte × Feed :=
  match feed.look with
  | (some byte, feed) => (some byte, { feed with reader := feed.reader.drop })
  | (none, feed) => (none, feed)

def takeFailure (feed : Feed) : Option String × Feed :=
  (feed.failure, { feed with failure := none })

theorem look_eq {feed seen : Feed} {byte : Byte} (shown : feed.look = (some byte, seen)) :
    feed.failure = none ∧ ∃ reader, feed.reader.look = (.byte byte, reader) ∧
      seen = { feed with reader } := by
  unfold look at shown
  split at shown
  · simp at shown
  · rename_i clear
    split at shown
    · rename_i found
      simp only [Prod.mk.injEq, Option.some.injEq] at shown
      obtain ⟨rfl, rfl⟩ := shown
      exact ⟨by simpa using clear, _, found, rfl⟩
    · simp at shown
    · simp at shown

theorem look_again {feed seen : Feed} {byte : Byte} (shown : feed.look = (some byte, seen)) :
    seen.look = (some byte, seen) := by
  obtain ⟨clear, reader, found, rfl⟩ := look_eq shown
  simp [look, clear, ByteReader.look_again found]

theorem rest_look {feed seen : Feed} {byte : Byte} (shown : feed.look = (some byte, seen)) :
    feed.reader.rest = byte :: seen.reader.drop.rest := by
  obtain ⟨-, reader, found, rfl⟩ := look_eq shown
  exact ByteReader.rest_look found

theorem rest_take {feed after : Feed} {byte : Byte} (taken : feed.take = (some byte, after)) :
    feed.reader.rest = byte :: after.reader.rest := by
  unfold take at taken
  split at taken
  · rename_i shown
    simp only [Prod.mk.injEq, Option.some.injEq] at taken
    obtain ⟨rfl, rfl⟩ := taken
    exact rest_look shown
  · simp at taken

theorem rest_look_take {feed seen : Feed} {byte : Byte} (shown : feed.look = (some byte, seen)) :
    feed.reader.rest = byte :: seen.take.2.reader.rest := by
  simp only [take, look_again shown]
  exact rest_look shown

end Feed

structure ByteStream where
  feed : Feed
  pushed : List Byte
deriving DecidableEq

namespace ByteStream

def ofReader (reader : ByteReader) : ByteStream := ⟨.ofReader reader, []⟩

/-- Goes on with parked input. A byte that was looked at comes after those put
back. -/
def resume (reader : ByteReader) (left : Leftover .narrow) : ByteStream :=
  ⟨.ofReader reader, left.units⟩

def park (stream : ByteStream) : Leftover .narrow := ⟨none, stream.pushed⟩

def peek (stream : ByteStream) : Option Byte × ByteStream :=
  match stream.pushed with
  | byte :: _ => (some byte, stream)
  | [] =>
    let shown := stream.feed.look
    (shown.1, { stream with feed := shown.2 })

def consume (stream : ByteStream) : ByteStream :=
  match stream.pushed with
  | _ :: pushed => { stream with pushed }
  | [] => { stream with feed := stream.feed.take.2 }

def putBack (byte : Byte) (stream : ByteStream) : ByteStream :=
  { stream with pushed := byte :: stream.pushed }

def supply (stream : ByteStream) : Nat := stream.pushed.length + stream.feed.reader.rest.length

theorem supply_consume {stream seen : ByteStream} {byte : Byte}
    (looked : stream.peek = (some byte, seen)) : seen.consume.supply < stream.supply := by
  obtain ⟨feed, pushed⟩ := stream
  cases pushed with
  | cons first pushed =>
    obtain ⟨-, rfl⟩ := Prod.mk.inj looked
    simp [consume, supply]
  | nil =>
    simp only [peek, Prod.mk.injEq] at looked
    obtain ⟨shown, rfl⟩ := looked
    have found : feed.look = (some byte, feed.look.2) := Prod.ext shown rfl
    simp [consume, supply, Feed.rest_look_take found]

instance : UnitSource ByteStream .narrow where
  peek := peek
  consume := consume
  putBack := putBack
  supply := supply
  supply_consume := supply_consume

end ByteStream

/-- How a wide stream makes units of bytes: one byte each, widened through a code
page, or two bytes each, the low one first. -/
inductive Encoding where
  | text (page : CodePage)
  | utf16le
deriving DecidableEq

structure WideStream where
  feed : Feed
  encoding : Encoding
  lookahead : Option (CodeUnit .wide)
  pushed : List (CodeUnit .wide)
deriving DecidableEq

namespace WideStream

def ofReader (encoding : Encoding) (reader : ByteReader) : WideStream :=
  ⟨.ofReader reader, encoding, none, []⟩

def resume (encoding : Encoding) (reader : ByteReader) (left : Leftover .wide) : WideStream :=
  ⟨.ofReader reader, encoding, left.lookahead, left.pushed⟩

def park (stream : WideStream) : Leftover .wide := ⟨stream.lookahead, stream.pushed⟩

/-- Takes the bytes of one unit. A low byte whose partner does not come is lost. -/
def decode (encoding : Encoding) (feed : Feed) : Option (CodeUnit .wide) × Feed :=
  match encoding with
  | .text page =>
    let taken := feed.take
    (taken.1.map page.toWide, taken.2)
  | .utf16le =>
    match feed.take with
    | (none, feed) => (none, feed)
    | (some low, feed) =>
      let taken := feed.take
      (taken.1.map fun high => .ofNat .wide (low.code + 256 * high.code), taken.2)

def peek (stream : WideStream) : Option (CodeUnit .wide) × WideStream :=
  match stream.pushed, stream.lookahead with
  | unit :: _, _ => (some unit, stream)
  | [], some unit => (some unit, stream)
  | [], none =>
    let decoded := decode stream.encoding stream.feed
    (decoded.1, { stream with feed := decoded.2, lookahead := decoded.1 })

def consume (stream : WideStream) : WideStream :=
  match stream.pushed, stream.lookahead with
  | _ :: pushed, _ => { stream with pushed }
  | [], some _ => { stream with lookahead := none }
  | [], none => { stream with feed := (decode stream.encoding stream.feed).2 }

def putBack (unit : CodeUnit .wide) (stream : WideStream) : WideStream :=
  { stream with pushed := unit :: stream.pushed }

def supply (stream : WideStream) : Nat :=
  stream.pushed.length + stream.lookahead.toList.length + stream.feed.reader.rest.length

theorem rest_decode {encoding : Encoding} {feed after : Feed} {unit : CodeUnit .wide}
    (decoded : decode encoding feed = (some unit, after)) :
    after.reader.rest.length < feed.reader.rest.length := by
  unfold decode at decoded
  split at decoded
  · cases taken : feed.take with
    | mk byte next =>
      rw [taken] at decoded
      cases byte with
      | none => simp at decoded
      | some byte =>
        obtain ⟨-, rfl⟩ := Prod.mk.inj decoded
        simp [Feed.rest_take taken]
  · split at decoded
    · simp at decoded
    · rename_i low next taken
      cases again : next.take with
      | mk high last =>
        rw [again] at decoded
        cases high with
        | none => simp at decoded
        | some high =>
          obtain ⟨-, rfl⟩ := Prod.mk.inj decoded
          simp only [Feed.rest_take taken, Feed.rest_take again, List.length_cons]
          omega

theorem supply_consume {stream seen : WideStream} {unit : CodeUnit .wide}
    (looked : stream.peek = (some unit, seen)) : seen.consume.supply < stream.supply := by
  obtain ⟨feed, encoding, lookahead, pushed⟩ := stream
  match pushed, lookahead with
  | first :: pushed, lookahead =>
    obtain ⟨-, rfl⟩ := Prod.mk.inj looked
    simp [consume, supply]
  | [], some first =>
    obtain ⟨-, rfl⟩ := Prod.mk.inj looked
    simp [consume, supply]
  | [], none =>
    simp only [peek, Prod.mk.injEq] at looked
    obtain ⟨shown, rfl⟩ := looked
    have found : decode encoding feed = (some unit, (decode encoding feed).2) :=
      Prod.ext shown rfl
    have shorter := rest_decode found
    simpa only [consume, supply, shown, List.length_nil, Option.toList_none, Nat.zero_add]
      using shorter

instance : UnitSource WideStream .wide where
  peek := peek
  consume := consume
  putBack := putBack
  supply := supply
  supply_consume := supply_consume

end WideStream

end FormattedInput
