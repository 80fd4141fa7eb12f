import FormattedInput.Proofs.Simulation
import FormattedInput.Proofs.TextReading
import FormattedInput.Source.Console
import FormattedInput.Source.Stream

namespace FormattedInput

namespace ReadEvent

/-- A read that delivers bytes or is made again. -/
def IsSteady : ReadEvent → Prop
  | chunk bytes => bytes ≠ []
  | interrupted => True
  | failed _ => False

end ReadEvent

def Look.front : List Byte → Look
  | [] => .endOfFile
  | first :: _ => .byte first

namespace ByteReader

/-- A reader whose reads neither fail nor meet the end of the file before the last. -/
def Steady (reader : ByteReader) : Prop := ∀ event ∈ reader.script, event.IsSteady

theorem refill_steady {script : List ReadEvent} (steady : ∀ event ∈ script, event.IsSteady) :
    (refill script).1 = Look.front (script.flatMap ReadEvent.bytes) ∧
      (refill script).2.rest = script.flatMap ReadEvent.bytes ∧ (refill script).2.Steady := by
  fun_induction refill script with
  | case1 => exact ⟨rfl, rfl, steady⟩
  | case2 script => exact absurd rfl (steady _ List.mem_cons_self)
  | case3 first bytes script =>
    exact ⟨rfl, rfl, fun event member => steady event (List.mem_cons_of_mem _ member)⟩
  | case4 script ih => exact ih fun event member => steady event (List.mem_cons_of_mem _ member)
  | case5 reason script => exact (steady _ List.mem_cons_self).elim

theorem look_steady {reader : ByteReader} (steady : reader.Steady) :
    reader.look.1 = Look.front reader.rest ∧ reader.look.2.rest = reader.rest ∧
      reader.look.2.Steady := by
  obtain ⟨buffered, script⟩ := reader
  cases buffered with
  | nil => exact refill_steady steady
  | cons byte bytes => exact ⟨rfl, rfl, steady⟩

end ByteReader

namespace Feed

structure Steady (feed : Feed) : Prop where
  clear : feed.failure = none
  reader : feed.reader.Steady

variable {feed : Feed}

theorem look_steady (steady : feed.Steady) :
    feed.look.1 = feed.reader.rest.head? ∧ feed.look.2.reader.rest = feed.reader.rest ∧
      feed.look.2.Steady := by
  obtain ⟨shown, same, further⟩ := ByteReader.look_steady steady.reader
  rw [look, steady.clear]
  generalize feed.reader.look = seen at shown same further
  obtain ⟨look, reader⟩ := seen
  cases left : feed.reader.rest with
  | nil =>
    rw [left] at shown same
    cases shown
    exact ⟨rfl, same, rfl, further⟩
  | cons byte rest =>
    rw [left] at shown same
    cases shown
    exact ⟨rfl, same, rfl, further⟩

theorem take_steady (steady : feed.Steady) :
    feed.take.1 = feed.reader.rest.head? ∧ feed.take.2.reader.rest = feed.reader.rest.tail ∧
      feed.take.2.Steady := by
  obtain ⟨shown, same, further⟩ := look_steady steady
  cases left : feed.reader.rest with
  | nil =>
    rw [left] at shown same
    have none : feed.look = (none, feed.look.2) := Prod.ext shown rfl
    rw [take, none]
    exact ⟨rfl, same, further⟩
  | cons byte rest =>
    rw [left] at shown same
    have some : feed.look = (some byte, feed.look.2) := Prod.ext shown rfl
    have dropped := rest_look some
    rw [left, List.cons.injEq] at dropped
    rw [take, some]
    exact ⟨rfl, dropped.2.symm, further.clear, further.reader⟩

end Feed

/-- A narrow stream over a reader that began with certain bytes delivers what a text
holds. -/
structure ByteStream.Delivers (unread : List Byte) (stream : ByteStream)
    (text : TextSource .narrow) : Prop where
  steady : stream.feed.Steady
  units : stream.pushed ++ stream.feed.reader.rest = text.after
  front : stream.feed.reader.rest <:+ unread

theorem ByteStream.follows (unread : List Byte) : Follows (Delivers unread) where
  peek := by
    intro stream text delivers
    obtain ⟨feed, pushed⟩ := stream
    cases pushed with
    | nil =>
      obtain ⟨shown, same, further⟩ := Feed.look_steady delivers.steady
      have units : feed.reader.rest = text.after := delivers.units
      refine ⟨shown.trans (congrArg List.head? units), further, same.trans units, ?_⟩
      exact same ▸ delivers.front
    | cons byte pushed => exact ⟨congrArg List.head? delivers.units, delivers⟩
  consume := by
    intro stream seen text unit delivers looked
    obtain ⟨feed, pushed⟩ := stream
    have units := delivers.units
    cases pushed with
    | nil =>
      obtain ⟨-, rfl⟩ := Prod.mk.inj looked
      obtain ⟨-, same, further⟩ := Feed.look_steady delivers.steady
      obtain ⟨-, dropped, steady⟩ := Feed.take_steady further
      rw [same] at dropped
      refine ⟨steady, ?_, ?_⟩
      · rw [TextSource.after_consume, ← units]
        exact dropped
      · exact dropped ▸ (List.tail_suffix _).trans delivers.front
    | cons byte pushed =>
      obtain ⟨-, rfl⟩ := Prod.mk.inj looked
      refine ⟨delivers.steady, ?_, delivers.front⟩
      rw [TextSource.after_consume, ← units]
      rfl
  putBack := by
    intro stream unit before after delivers
    exact ⟨delivers.steady, congrArg (unit :: ·) delivers.units, delivers.front⟩

structure WideStream.Delivers (page : CodePage) (unread : List Byte) (stream : WideStream)
    (text : TextSource .wide) : Prop where
  steady : stream.feed.Steady
  encoding : stream.encoding = .text page
  units : stream.pushed ++ stream.lookahead.toList ++
    stream.feed.reader.rest.map page.toWide = text.after
  front : stream.feed.reader.rest <:+ unread

namespace WideStream

/-- A wide stream whose feed still supplies certain units delivers them behind those that it
holds. -/
structure DeliversFrom (encoding : Encoding) (supplies : Feed → Text .wide → Prop)
    (stream : WideStream) (text : TextSource .wide) : Prop where
  encoding : stream.encoding = encoding
  units : ∃ coming, supplies stream.feed coming ∧
    stream.pushed ++ stream.lookahead.toList ++ coming = text.after

/-- Decoding shows the first of the units that a feed supplies and leaves the others. -/
def Decodes (encoding : Encoding) (supplies : Feed → Text .wide → Prop) : Prop :=
  ∀ {feed coming}, supplies feed coming →
    (decode encoding feed).1 = coming.head? ∧ supplies (decode encoding feed).2 coming.tail

variable {encoding : Encoding} {supplies : Feed → Text .wide → Prop}

theorem DeliversFrom.peek_reader (decodes : Decodes encoding supplies) {feed : Feed}
    {text : TextSource .wide}
    (delivers : DeliversFrom encoding supplies ⟨feed, encoding, none, []⟩ text) :
    let seen := WideStream.peek ⟨feed, encoding, none, []⟩
    seen.1 = text.after.head? ∧ seen.2.lookahead = seen.1 ∧
      DeliversFrom encoding supplies seen.2 text := by
  intro seen
  obtain ⟨coming, supplied, units⟩ := delivers.units
  obtain rfl : coming = text.after := units
  obtain ⟨shown, further⟩ := decodes supplied
  have looked : seen.1 = text.after.head? := shown
  refine ⟨looked, rfl, rfl, text.after.tail, further, ?_⟩
  have held : seen.2.lookahead = text.after.head? := looked
  rw [held]
  cases text.after <;> rfl

theorem DeliversFrom.consume {stream : WideStream} {text : TextSource .wide}
    (delivers : DeliversFrom encoding supplies stream text)
    (held : stream.pushed ≠ [] ∨ stream.lookahead.isSome = true) :
    DeliversFrom encoding supplies stream.consume text.consume := by
  obtain ⟨feed, encoding, lookahead, pushed⟩ := stream
  obtain ⟨coming, supplied, units⟩ := delivers.units
  match pushed, lookahead with
  | [], none => simp at held
  | [], some first =>
    refine ⟨delivers.encoding, coming, supplied, ?_⟩
    rw [TextSource.after_consume, ← units]
    rfl
  | first :: pushed, lookahead =>
    refine ⟨delivers.encoding, coming, supplied, ?_⟩
    rw [TextSource.after_consume, ← units]
    rfl

theorem follows_decoded (decodes : Decodes encoding supplies) :
    Follows (DeliversFrom encoding supplies) where
  peek := by
    intro stream text delivers
    obtain ⟨feed, encoding, lookahead, pushed⟩ := stream
    obtain rfl := delivers.encoding
    match pushed, lookahead with
    | [], none =>
      obtain ⟨shown, -, further⟩ := delivers.peek_reader decodes
      exact ⟨shown, further⟩
    | [], some unit =>
      obtain ⟨coming, supplied, units⟩ := delivers.units
      exact ⟨congrArg List.head? units, delivers⟩
    | first :: pushed, lookahead =>
      obtain ⟨coming, supplied, units⟩ := delivers.units
      exact ⟨congrArg List.head? units, delivers⟩
  consume := by
    intro stream seen text unit delivers looked
    obtain ⟨feed, encoding, lookahead, pushed⟩ := stream
    obtain rfl := delivers.encoding
    obtain ⟨shown, rfl⟩ := Prod.mk.inj looked
    match pushed, lookahead with
    | [], none =>
      obtain ⟨-, held, further⟩ := delivers.peek_reader decodes
      exact further.consume (.inr (by rw [held]; exact shown ▸ rfl))
    | [], some first => exact delivers.consume (.inr rfl)
    | first :: pushed, lookahead => exact delivers.consume (.inl (List.cons_ne_nil _ _))
  putBack := by
    intro stream unit before after delivers
    obtain ⟨coming, supplied, units⟩ := delivers.units
    exact ⟨delivers.encoding, coming, supplied, congrArg (unit :: ·) units⟩

structure SuppliesText (page : CodePage) (unread : List Byte) (feed : Feed)
    (coming : Text .wide) : Prop where
  steady : feed.Steady
  units : feed.reader.rest.map page.toWide = coming
  front : feed.reader.rest <:+ unread

theorem decodes_text (page : CodePage) (unread : List Byte) :
    Decodes (.text page) (SuppliesText page unread) := by
  intro feed coming supplied
  obtain ⟨shown, dropped, steady⟩ := Feed.take_steady supplied.steady
  have units := supplied.units
  constructor
  · rw [← units, List.head?_map, ← shown]
    rfl
  · constructor
    · exact steady
    · rw [← units, ← List.map_tail, ← dropped]
      rfl
    · exact dropped ▸ (List.tail_suffix _).trans supplied.front

theorem delivers_iff {page : CodePage} {unread : List Byte} {stream : WideStream}
    {text : TextSource .wide} :
    Delivers page unread stream text ↔
      DeliversFrom (.text page) (SuppliesText page unread) stream text := by
  constructor
  · intro delivers
    exact ⟨delivers.encoding, _, ⟨delivers.steady, rfl, delivers.front⟩, delivers.units⟩
  · rintro ⟨encoding, coming, ⟨steady, rfl, front⟩, units⟩
    exact ⟨steady, encoding, units, front⟩

theorem follows (page : CodePage) (unread : List Byte) : Follows (Delivers page unread) := by
  have same : Delivers page unread = DeliversFrom (.text page) (SuppliesText page unread) := by
    funext stream text
    exact propext delivers_iff
  rw [same]
  exact follows_decoded (decodes_text page unread)

end WideStream

def ConsoleStream.Delivers {w : Width} (typed : Text w) (stream : ConsoleStream w)
    (text : TextSource w) : Prop :=
  ∃ rest : Text w, stream.console.keys = rest.map some ∧
    stream.pushed ++ stream.lookahead.toList ++ rest = text.after ∧ rest <:+ typed

namespace ConsoleStream

variable {w : Width} {typed : Text w}

theorem Delivers.peek_keys {console : Console w} {text : TextSource w}
    (delivers : Delivers typed ⟨console, none, []⟩ text) :
    let seen := ConsoleStream.peek ⟨console, none, []⟩
    seen.1 = text.after.head? ∧ seen.2.lookahead = seen.1 ∧ Delivers typed seen.2 text := by
  obtain ⟨keys, echoed⟩ := console
  obtain ⟨rest, keys, units, front⟩ := delivers
  obtain rfl := keys
  obtain ⟨before, after⟩ := text
  obtain rfl : rest = after := units
  cases rest with
  | nil => exact ⟨rfl, rfl, [], rfl, rfl, front⟩
  | cons unit rest =>
    exact ⟨rfl, rfl, rest, rfl, rfl, (List.suffix_cons unit rest).trans front⟩

theorem Delivers.consume {stream : ConsoleStream w} {text : TextSource w}
    (delivers : Delivers typed stream text)
    (held : stream.pushed ≠ [] ∨ stream.lookahead.isSome = true) :
    Delivers typed stream.consume text.consume := by
  obtain ⟨console, lookahead, pushed⟩ := stream
  obtain ⟨rest, keys, units, front⟩ := delivers
  match pushed, lookahead with
  | [], none => simp at held
  | [], some first =>
    refine ⟨rest, keys, ?_, front⟩
    rw [TextSource.after_consume, ← units]
    rfl
  | first :: pushed, lookahead =>
    refine ⟨rest, keys, ?_, front⟩
    rw [TextSource.after_consume, ← units]
    rfl

theorem follows (typed : Text w) : Follows (Delivers typed) where
  peek := by
    intro stream text delivers
    obtain ⟨console, lookahead, pushed⟩ := stream
    match pushed, lookahead with
    | [], none =>
      obtain ⟨shown, -, further⟩ := delivers.peek_keys
      exact ⟨shown, further⟩
    | [], some unit =>
      obtain ⟨rest, keys, units, front⟩ := delivers
      exact ⟨congrArg List.head? units, rest, keys, units, front⟩
    | first :: pushed, lookahead =>
      obtain ⟨rest, keys, units, front⟩ := delivers
      exact ⟨congrArg List.head? units, rest, keys, units, front⟩
  consume := by
    intro stream seen text unit delivers looked
    obtain ⟨console, lookahead, pushed⟩ := stream
    obtain ⟨shown, rfl⟩ := Prod.mk.inj looked
    match pushed, lookahead with
    | [], none =>
      obtain ⟨-, held, further⟩ := delivers.peek_keys
      exact further.consume (.inr (by rw [held]; exact shown ▸ rfl))
    | [], some first => exact delivers.consume (.inr rfl)
    | first :: pushed, lookahead => exact delivers.consume (.inl (List.cons_ne_nil _ _))
  putBack := by
    intro stream unit before after delivers
    obtain ⟨rest, keys, units, front⟩ := delivers
    exact ⟨rest, keys, congrArg (unit :: ·) units, front⟩

end ConsoleStream

end FormattedInput
