import FormattedInput.Source.Stream

/-!
A stream of bytes is a queue. Its script is a row of items: the units of the bytes that its reads
deliver, the ends of the file and the failures that they meet. However the stream is looked at,
consumed, given units back, relieved of a failure or handed over, every item is met once and in
its place: a unit by being delivered, a failure by being held until it is taken or dropped. -/
namespace FormattedInput

inductive Item (w : Width) where
  | unit (unit : CodeUnit w)
  | endOfFile
  | failure (reason : String)
deriving DecidableEq

variable {w : Width}

namespace Item

def unit? : Item w → Option (CodeUnit w)
  | .unit shown => some shown
  | endOfFile | failure _ => none

def reason? : Item w → Option String
  | failure reason => some reason
  | .unit _ | endOfFile => none

end Item

/-- An interrupted read meets nothing, since it is made again. -/
def ReadEvent.items (widen : Byte → CodeUnit w) : ReadEvent → List (Item w)
  | chunk [] => [.endOfFile]
  | chunk bytes => bytes.map fun byte => .unit (widen byte)
  | interrupted => []
  | failed reason => [.failure reason]

/-- Units that were given back stand in front of the items to come. A failure that was met is
held, and nothing more is met until it is taken. -/
structure Queue (w : Width) where
  returned : Text w
  held : Option String
  coming : List (Item w)

namespace Queue

def front (queue : Queue w) : Option (CodeUnit w) :=
  match queue.returned, queue.held with
  | unit :: _, _ => some unit
  | [], some _ => none
  | [], none => queue.coming.head?.bind Item.unit?

/-- A look that finds nothing given back meets the next item. A unit stays in its place, an end
of the file is passed and a failure is held. -/
def look (queue : Queue w) : Queue w :=
  match queue.returned, queue.held, queue.coming with
  | [], none, .endOfFile :: coming => { queue with coming }
  | [], none, .failure reason :: coming => ⟨[], some reason, coming⟩
  | _, _, _ => queue

def pop (queue : Queue w) : Queue w :=
  match queue.returned with
  | _ :: returned => { queue with returned }
  | [] => { queue with coming := queue.coming.tail }

def giveBack (unit : CodeUnit w) (queue : Queue w) : Queue w :=
  { queue with returned := unit :: queue.returned }

def clear (queue : Queue w) : Queue w := { queue with held := none }

theorem coming_of_front {queue : Queue w} {unit : CodeUnit w} (empty : queue.returned = [])
    (shown : queue.front = some unit) :
    queue.held = none ∧ ∃ later, queue.coming = .unit unit :: later := by
  obtain ⟨returned, held, coming⟩ := queue
  obtain rfl := empty
  cases held with
  | some reason => cases shown
  | none =>
    cases coming with
    | nil => cases shown
    | cons item later =>
      cases item with
      | unit first => exact ⟨rfl, later, by rw [Option.some.inj shown]⟩
      | endOfFile | failure reason => cases shown

theorem look_of_front {queue : Queue w} {unit : CodeUnit w} (shown : queue.front = some unit) :
    queue.look = queue := by
  obtain ⟨returned, held, coming⟩ := queue
  cases returned with
  | cons first returned => rfl
  | nil =>
    obtain ⟨rfl, later, rfl⟩ := coming_of_front rfl shown
    rfl

@[simp] theorem returned_look (queue : Queue w) : queue.look.returned = queue.returned := by
  unfold look
  split
  · rfl
  · rename_i empty _ _
    exact empty.symm
  · rfl

def take (queue : Queue w) : Queue w :=
  match queue.front with
  | some _ => queue.pop
  | none => queue.look

end Queue

/-- A source that a failed read ends until its reason is taken. Another source of its kind can
go on with its reader and what it holds back, but not with the failure. -/
class FallibleSource (σ : Type) (w : outParam Width) extends UnitSource σ w where
  takeFailure : σ → Option String × σ
  handOver : σ → σ

instance : FallibleSource ByteStream .narrow where
  takeFailure stream :=
    let taken := stream.feed.takeFailure
    (taken.1, { stream with feed := taken.2 })
  handOver stream := .resume stream.feed.reader stream.park

instance : FallibleSource WideStream .wide where
  takeFailure stream :=
    let taken := stream.feed.takeFailure
    (taken.1, { stream with feed := taken.2 })
  handOver stream := .resume stream.encoding stream.feed.reader stream.park

namespace ByteReader

variable {widen : Byte → CodeUnit w}

def items (widen : Byte → CodeUnit w) (reader : ByteReader) : List (Item w) :=
  (reader.buffered.map fun byte => .unit (widen byte)) ++
    reader.script.flatMap (ReadEvent.items widen)

/-- What a look shows of the items to come, and the reader it leaves. -/
inductive Meets (widen : Byte → CodeUnit w) : List (Item w) → Look → ByteReader → Prop
  | byte (byte : Byte) (bytes : List Byte) (script : List ReadEvent) :
    Meets widen (items widen ⟨byte :: bytes, script⟩) (.byte byte) ⟨byte :: bytes, script⟩
  | ended : Meets widen [] .endOfFile ⟨[], []⟩
  | endOfFile (script : List ReadEvent) :
    Meets widen (.endOfFile :: items widen ⟨[], script⟩) .endOfFile ⟨[], script⟩
  | failed (reason : String) (script : List ReadEvent) :
    Meets widen (.failure reason :: items widen ⟨[], script⟩) (.failed reason) ⟨[], script⟩

theorem meets_refill (script : List ReadEvent) :
    Meets widen (script.flatMap (ReadEvent.items widen)) (refill script).1 (refill script).2 := by
  fun_induction refill script with
  | case1 => exact .ended
  | case2 script => exact .endOfFile script
  | case3 byte bytes script => exact .byte byte bytes script
  | case4 script ih => exact ih
  | case5 reason script => exact .failed reason script

theorem meets_look (reader : ByteReader) :
    Meets widen (reader.items widen) reader.look.1 reader.look.2 := by
  obtain ⟨buffered, script⟩ := reader
  cases buffered with
  | nil => exact meets_refill script
  | cons byte bytes => exact .byte byte bytes script

end ByteReader

structure Feed.Supplies (widen : Byte → CodeUnit w) (feed : Feed) (held : Option String)
    (coming : List (Item w)) : Prop where
  failure : feed.failure = held
  items : feed.reader.items widen = coming

namespace Feed.Supplies

variable {widen : Byte → CodeUnit w} {feed : Feed} {held : Option String}
  {coming : List (Item w)}

theorem look (supplies : feed.Supplies widen held coming) :
    let queue : Queue w := ⟨[], held, coming⟩
    feed.look.1.map widen = queue.front ∧
      feed.look.2.Supplies widen queue.look.held queue.look.coming := by
  obtain ⟨reader, failure, failures⟩ := feed
  obtain ⟨rfl, rfl⟩ := supplies
  cases failure with
  | some reason => exact ⟨rfl, rfl, rfl⟩
  | none =>
    have meets : ByteReader.Meets widen (reader.items widen) reader.look.1 reader.look.2 :=
      reader.meets_look
    simp only [Feed.look, Option.isSome_none, Bool.false_eq_true, if_false]
    generalize reader.items widen = items at meets
    generalize reader.look = seen at meets
    obtain ⟨shown, after⟩ := seen
    cases meets with
    | byte byte bytes script => exact ⟨rfl, rfl, rfl⟩
    | ended => exact ⟨rfl, rfl, rfl⟩
    | endOfFile script => exact ⟨rfl, rfl, rfl⟩
    | failed reason script => exact ⟨rfl, rfl, rfl⟩

end Feed.Supplies

theorem ByteReader.items_drop {widen : Byte → CodeUnit w} {reader seen : ByteReader}
    {byte : Byte} (shown : reader.look = (.byte byte, seen)) :
    seen.drop.items widen = (reader.items widen).tail := by
  have meets : Meets widen (reader.items widen) reader.look.1 reader.look.2 := reader.meets_look
  rw [shown] at meets
  generalize reader.items widen = items at meets
  cases meets with
  | byte byte bytes script => rfl

theorem Feed.Supplies.take {widen : Byte → CodeUnit w} {feed : Feed} {held : Option String}
    {coming : List (Item w)} (supplies : feed.Supplies widen held coming) :
    let queue : Queue w := ⟨[], held, coming⟩
    feed.take.1.map widen = queue.front ∧
      feed.take.2.Supplies widen queue.take.held queue.take.coming := by
  intro queue
  obtain ⟨shown, further⟩ := supplies.look
  rw [Feed.take]
  cases looked : feed.look with
  | mk byte seen =>
    rw [looked] at shown further
    cases byte with
    | none =>
      have taken : queue.take = queue.look := by rw [Queue.take, ← shown]; rfl
      exact ⟨shown, taken ▸ further⟩
    | some byte =>
      have taken : queue.take = queue.pop := by rw [Queue.take, ← shown]; rfl
      obtain ⟨-, reader, found, rfl⟩ := Feed.look_eq looked
      refine ⟨shown, ?_⟩
      rw [taken]
      exact ⟨supplies.failure, (ByteReader.items_drop found).trans (congrArg _ supplies.items)⟩

/-- What a source must do to be used as a queue is: what it shows, holds and leaves is what the
queue shows, holds and leaves. -/
structure ServesQueue {σ : Type} [FallibleSource σ w] (stands : σ → Queue w → Prop) : Prop where
  peek : ∀ {source : σ} {queue}, stands source queue →
    (UnitSource.peek source).1 = queue.front ∧ stands (UnitSource.peek source).2 queue.look
  peek_again : ∀ {source seen : σ} {unit}, UnitSource.peek source = (some unit, seen) →
    UnitSource.peek seen = (some unit, seen)
  consume : ∀ {source queue unit}, stands source queue →
    UnitSource.peek source = (some unit, source) → stands (UnitSource.consume source) queue.pop
  putBack : ∀ {source queue} (unit), stands source queue →
    stands (UnitSource.putBack unit source) (queue.giveBack unit)
  takeFailure : ∀ {source queue}, stands source queue →
    (FallibleSource.takeFailure source).1 = queue.held ∧
      stands (FallibleSource.takeFailure source).2 queue.clear
  handOver : ∀ {source queue}, stands source queue →
    stands (FallibleSource.handOver source) queue.clear

namespace ByteStream

structure Stands (stream : ByteStream) (queue : Queue .narrow) : Prop where
  returned : stream.pushed = queue.returned
  feed : stream.feed.Supplies id queue.held queue.coming

theorem Stands.look {stream : ByteStream} {queue : Queue .narrow} (stands : Stands stream queue) :
    stream.peek.1 = queue.front ∧ Stands stream.peek.2 queue.look := by
  obtain ⟨feed, pushed⟩ := stream
  obtain ⟨returned, held, coming⟩ := queue
  obtain ⟨rfl, supplies⟩ := stands
  cases pushed with
  | cons first pushed => exact ⟨rfl, rfl, supplies⟩
  | nil =>
    obtain ⟨shown, further⟩ := supplies.look
    rw [Option.map_id] at shown
    exact ⟨shown, (Queue.returned_look ⟨[], held, coming⟩).symm, further⟩

theorem Stands.pop {stream : ByteStream} {queue : Queue .narrow} {byte : Byte}
    (stands : Stands stream queue) (shown : stream.peek = (some byte, stream)) :
    Stands stream.consume queue.pop := by
  have front := stands.look.1.symm.trans (congrArg Prod.fst shown)
  obtain ⟨feed, pushed⟩ := stream
  obtain ⟨returned, held, coming⟩ := queue
  obtain ⟨rfl, supplies⟩ := stands
  cases pushed with
  | cons first pushed => exact ⟨rfl, supplies⟩
  | nil =>
    obtain ⟨-, further⟩ := supplies.take
    rw [Queue.take, front] at further
    exact ⟨rfl, further⟩

theorem servesQueue : ServesQueue Stands where
  peek := Stands.look
  peek_again := by
    intro stream seen byte looked
    obtain ⟨feed, pushed⟩ := stream
    obtain ⟨shown, rfl⟩ := Prod.mk.inj looked
    cases pushed with
    | cons first pushed => exact congrArg (·, _) shown
    | nil =>
      have again : feed.look.2.look = (some byte, feed.look.2) :=
        Feed.look_again (Prod.ext shown rfl)
      show ByteStream.peek ⟨feed.look.2, []⟩ = (some byte, ⟨feed.look.2, []⟩)
      simp only [peek, again]
  consume := Stands.pop
  putBack := by
    intro stream queue byte stands
    exact ⟨congrArg (byte :: ·) stands.returned, stands.feed⟩
  takeFailure := by
    intro stream queue stands
    exact ⟨stands.feed.failure, stands.returned, rfl, stands.feed.items⟩
  handOver := by
    intro stream queue stands
    refine ⟨?_, rfl, stands.feed.items⟩
    exact (List.append_nil _).trans stands.returned

end ByteStream

namespace WideStream

/-- Decoding takes the items that a feed supplies as a queue gives them out, and the feed goes
on with the same items once its failure is gone. -/
structure DecodesItems (encoding : Encoding)
    (supplies : Feed → Option String → List (Item .wide) → Prop) : Prop where
  decode : ∀ {feed held coming}, supplies feed held coming →
    let queue : Queue .wide := ⟨[], held, coming⟩
    (WideStream.decode encoding feed).1 = queue.front ∧
      supplies (WideStream.decode encoding feed).2 queue.take.held queue.take.coming
  failure : ∀ {feed held coming}, supplies feed held coming → feed.failure = held
  clear : ∀ {feed held coming} (failures), supplies feed held coming →
    supplies ⟨feed.reader, none, failures⟩ none coming

theorem decodesItems_text (page : CodePage) :
    DecodesItems (.text page) (Feed.Supplies page.toWide) where
  decode := Feed.Supplies.take
  failure := Feed.Supplies.failure
  clear := fun _ supplies => ⟨rfl, supplies.items⟩

/-- The unit looked at is the first item to come, and the feed stands behind it. A failure is
only met when no unit is looked at. -/
structure Stands (encoding : Encoding) (supplies : Feed → Option String → List (Item .wide) → Prop)
    (stream : WideStream) (queue : Queue .wide) : Prop where
  encoding : stream.encoding = encoding
  returned : stream.pushed = queue.returned
  behind : ∃ later, supplies stream.feed queue.held later ∧
    queue.coming = stream.lookahead.toList.map .unit ++ later
  idle : queue.held.isSome → stream.lookahead = none

variable {encoding : Encoding} {supplies : Feed → Option String → List (Item .wide) → Prop}
  {stream : WideStream} {queue : Queue .wide}

theorem Stands.look (decodes : DecodesItems encoding supplies)
    (stands : Stands encoding supplies stream queue) :
    stream.peek.1 = queue.front ∧ Stands encoding supplies stream.peek.2 queue.look := by
  obtain ⟨feed, encoding, lookahead, pushed⟩ := stream
  obtain ⟨returned, held, coming⟩ := queue
  obtain ⟨rfl, rfl, ⟨later, supplied, comes⟩, idle⟩ := stands
  match pushed, lookahead with
  | first :: pushed, lookahead => exact ⟨rfl, rfl, rfl, ⟨later, supplied, comes⟩, idle⟩
  | [], some first =>
    cases held with
    | some reason => cases idle rfl -- a failure leaves no lookahead
    | none =>
      obtain rfl := comes
      exact ⟨rfl, rfl, rfl, ⟨later, supplied, rfl⟩, idle⟩
  | [], none =>
    -- Nothing is held back, so the feed is read: a unit becomes the lookahead and stays in place.
    obtain rfl : coming = later := comes
    obtain ⟨shown, further⟩ := decodes.decode supplied
    have empty := Queue.returned_look (⟨[], held, coming⟩ : Queue .wide)
    cases front : Queue.front ⟨[], held, coming⟩ with
    | none =>
      rw [Queue.take, front] at further
      rw [front] at shown
      refine ⟨shown, rfl, empty.symm, ⟨_, further, ?_⟩, fun _ => shown⟩
      exact (congrArg (·.toList.map Item.unit ++ _) shown).symm
    | some unit =>
      obtain ⟨rfl, rest, rfl⟩ := Queue.coming_of_front rfl front
      rw [Queue.take, front] at further
      rw [front] at shown
      rw [Queue.look_of_front front]
      refine ⟨shown, rfl, rfl, ⟨_, further, ?_⟩, nofun⟩
      exact (congrArg (·.toList.map Item.unit ++ _) shown).symm

theorem shows_peek {seen : WideStream} {unit : CodeUnit .wide}
    (looked : stream.peek = (some unit, seen)) :
    (seen.pushed ≠ [] ∨ seen.lookahead.isSome = true) ∧ seen.peek = (some unit, seen) := by
  obtain ⟨feed, encoding, lookahead, pushed⟩ := stream
  obtain ⟨shown, rfl⟩ := Prod.mk.inj looked
  match pushed, lookahead with
  | first :: pushed, lookahead =>
    exact ⟨.inl (List.cons_ne_nil first pushed), congrArg (·, _) shown⟩
  | [], some first => exact ⟨.inr rfl, congrArg (·, _) shown⟩
  | [], none =>
    have ahead : (decode encoding feed).1 = some unit := shown
    simp only [peek, ahead, Option.isSome_some, or_true, and_self]

theorem Stands.pop {unit : CodeUnit .wide} (stands : Stands encoding supplies stream queue)
    (shown : stream.peek = (some unit, stream)) :
    Stands encoding supplies stream.consume queue.pop := by
  obtain ⟨shows, -⟩ := shows_peek shown
  obtain ⟨feed, encoding, lookahead, pushed⟩ := stream
  obtain ⟨returned, held, coming⟩ := queue
  obtain ⟨rfl, rfl, ⟨later, supplied, rfl⟩, idle⟩ := stands
  match pushed, lookahead with
  | first :: pushed, lookahead => exact ⟨rfl, rfl, ⟨later, supplied, rfl⟩, idle⟩
  | [], some first => exact ⟨rfl, rfl, ⟨later, supplied, rfl⟩, fun _ => rfl⟩
  | [], none => simp at shows

theorem servesQueue (decodes : DecodesItems encoding supplies) :
    ServesQueue (Stands encoding supplies) where
  peek := Stands.look decodes
  peek_again := fun looked => (shows_peek looked).2
  consume := Stands.pop
  putBack := by
    intro stream queue unit stands
    exact ⟨stands.encoding, congrArg (unit :: ·) stands.returned, stands.behind, stands.idle⟩
  takeFailure := by
    intro stream queue stands
    obtain ⟨later, supplied, comes⟩ := stands.behind
    exact ⟨decodes.failure supplied, stands.encoding, stands.returned,
      ⟨later, decodes.clear _ supplied, comes⟩, nofun⟩
  handOver := by
    intro stream queue stands
    obtain ⟨later, supplied, comes⟩ := stands.behind
    exact ⟨stands.encoding, stands.returned, ⟨later, decodes.clear _ supplied, comes⟩, nofun⟩

theorem stands_ofReader {reader : ByteReader} {items : List (Item .wide)}
    (supplied : supplies (.ofReader reader) none items) :
    Stands encoding supplies (.ofReader encoding reader) ⟨[], none, items⟩ :=
  ⟨rfl, rfl, ⟨_, supplied, rfl⟩, nofun⟩

end WideStream

inductive OpensScript (script : List ReadEvent) :
    {w : Width} → (Byte → CodeUnit w) → (σ : Type) → [FallibleSource σ w] → σ → Prop
  | bytes : OpensScript script id ByteStream (.ofReader (.ofScript script))
  | paged (page : CodePage) :
    OpensScript script page.toWide WideStream (.ofReader (.text page) (.ofScript script))

inductive Handling (w : Width) where
  | looked (shown : Option (CodeUnit w))
  | consumed (unit : CodeUnit w)
  | gaveBack (unit : CodeUnit w)
  | tookFailure (reason : Option String)
  | handedOver (dropped : Option String)
deriving DecidableEq

variable {σ : Type} [FallibleSource σ w]

/-- The states that a source can be brought to, each with all that was done to it before. A
unit is only consumed right after a look that showed it. -/
inductive Handled (source : σ) : List (Handling w) → σ → Prop
  | start : Handled source [] source
  | look {history : List (Handling w)} {now : σ} (handled : Handled source history now) :
    Handled source (history ++ [.looked (UnitSource.peek now).1]) (UnitSource.peek now).2
  | consume {history : List (Handling w)} {now seen : σ} {unit : CodeUnit w}
    (handled : Handled source history now) (looked : UnitSource.peek now = (some unit, seen)) :
    Handled source (history ++ [.looked (some unit), .consumed unit]) (UnitSource.consume seen)
  | giveBack {history : List (Handling w)} {now : σ} (unit : CodeUnit w)
    (handled : Handled source history now) :
    Handled source (history ++ [.gaveBack unit]) (UnitSource.putBack unit now)
  | takeFailure {history : List (Handling w)} {now : σ} (handled : Handled source history now) :
    Handled source (history ++ [.tookFailure (FallibleSource.takeFailure now).1])
      (FallibleSource.takeFailure now).2
  | handOver {history : List (Handling w)} {now : σ} (handled : Handled source history now) :
    Handled source (history ++ [.handedOver (FallibleSource.takeFailure now).1])
      (FallibleSource.handOver now)

/-- What a history comes to: the units given back and not consumed again, the latest first,
those that came from the reader, and the failures that were taken or dropped. -/
structure Account (w : Width) where
  returned : Text w
  delivered : Text w
  released : List String
deriving DecidableEq

namespace Account

def add (account : Account w) : Handling w → Account w
  | .looked _ => account
  | .consumed unit =>
    match account.returned with
    | _ :: returned => { account with returned }
    | [] => { account with delivered := account.delivered ++ [unit] }
  | .gaveBack unit => { account with returned := unit :: account.returned }
  | .tookFailure reason | .handedOver reason =>
    { account with released := account.released ++ reason.toList }

def ofHistory (history : List (Handling w)) : Account w := history.foldl add ⟨[], [], []⟩

theorem ofHistory_snoc (history : List (Handling w)) (last : Handling w) :
    ofHistory (history ++ [last]) = (ofHistory history).add last :=
  List.foldl_append

end Account

/-- A history accounts for the items of a script that a queue has met. -/
structure Queue.Accounts (items : List (Item w)) (account : Account w) (queue : Queue w) :
    Prop where
  returned : queue.returned = account.returned
  issued : ∃ issued, items = issued ++ queue.coming ∧
    issued.filterMap Item.unit? = account.delivered ∧
    issued.filterMap Item.reason? = account.released ++ queue.held.toList

namespace Queue.Accounts

variable {items : List (Item w)} {account : Account w} {queue : Queue w}

theorem issue {returned : Text w} {item : Item w} {later : List (Item w)}
    (accounts : Accounts items account ⟨returned, none, item :: later⟩) :
    ∃ issued, items = issued ++ later ∧
      issued.filterMap Item.unit? = account.delivered ++ item.unit?.toList ∧
      issued.filterMap Item.reason? = account.released ++ item.reason?.toList := by
  obtain ⟨issued, whole, units, reasons⟩ := accounts.issued
  rw [Option.toList_none, List.append_nil] at reasons
  refine ⟨issued ++ [item], by rw [whole, List.append_assoc]; rfl, ?_, ?_⟩
  · rw [List.filterMap_append, units]
    cases item <;> rfl
  · rw [List.filterMap_append, reasons]
    cases item <;> rfl

theorem look (accounts : queue.Accounts items account) : queue.look.Accounts items account := by
  obtain ⟨returned, held, coming⟩ := queue
  refine ⟨(returned_look _).trans accounts.returned, ?_⟩
  unfold Queue.look
  split
  · rename_i later empty none comes
    obtain rfl := comes
    obtain rfl := none
    obtain ⟨issued, whole, units, reasons⟩ := accounts.issue
    exact ⟨issued, whole, units.trans (List.append_nil _), reasons⟩
  · rename_i reason later empty none comes
    obtain rfl := comes
    obtain rfl := none
    obtain ⟨issued, whole, units, reasons⟩ := accounts.issue
    exact ⟨issued, whole, units.trans (List.append_nil _), reasons⟩
  · exact accounts.issued

theorem pop {unit : CodeUnit w} (accounts : queue.Accounts items account)
    (shown : queue.front = some unit) :
    queue.pop.Accounts items (account.add (.consumed unit)) := by
  obtain ⟨returned, held, coming⟩ := queue
  obtain ⟨before, delivered, released⟩ := account
  obtain rfl : returned = before := accounts.returned
  cases returned with
  | cons first returned => exact ⟨rfl, accounts.issued⟩
  | nil =>
    obtain ⟨rfl, later, rfl⟩ := coming_of_front rfl shown
    exact ⟨rfl, accounts.issue⟩

theorem giveBack (unit : CodeUnit w) (accounts : queue.Accounts items account) :
    (queue.giveBack unit).Accounts items (account.add (.gaveBack unit)) :=
  ⟨congrArg (unit :: ·) accounts.returned, accounts.issued⟩

theorem clear (accounts : queue.Accounts items account) :
    queue.clear.Accounts items (account.add (.tookFailure queue.held)) := by
  obtain ⟨issued, whole, units, reasons⟩ := accounts.issued
  exact ⟨accounts.returned, issued, whole, units, reasons.trans (List.append_nil _).symm⟩

end Queue.Accounts

theorem OpensScript.stands {script : List ReadEvent} {widen : Byte → CodeUnit w} {source : σ}
    (opened : OpensScript script widen σ source) :
    ∃ stands : σ → Queue w → Prop, ServesQueue stands ∧
      stands source ⟨[], none, script.flatMap (ReadEvent.items widen)⟩ := by
  cases opened with
  | bytes => exact ⟨_, ByteStream.servesQueue, rfl, rfl, rfl⟩
  | paged page =>
    exact ⟨_, WideStream.servesQueue (WideStream.decodesItems_text page),
      WideStream.stands_ofReader ⟨rfl, rfl⟩⟩

theorem Handled.accounts {stands : σ → Queue w → Prop} (serves : ServesQueue stands)
    {items : List (Item w)} {source : σ} (started : stands source ⟨[], none, items⟩)
    {history : List (Handling w)} {now : σ} (handled : Handled source history now) :
    ∃ queue, stands now queue ∧ queue.Accounts items (.ofHistory history) := by
  -- By what was done last; every use keeps the stream standing for the queue it has come to.
  induction handled with
  | start => exact ⟨_, started, rfl, [], rfl, rfl, rfl⟩
  | look handled ih =>
    obtain ⟨queue, standing, accounts⟩ := ih
    rw [Account.ofHistory_snoc]
    exact ⟨queue.look, (serves.peek standing).2, accounts.look⟩
  | consume handled looked ih =>
    obtain ⟨queue, standing, accounts⟩ := ih
    obtain ⟨shown, further⟩ := serves.peek standing
    rw [looked] at shown further
    -- A look that shows a unit meets no item, so the queue is popped as it stood.
    rw [Queue.look_of_front shown.symm] at further
    rw [List.append_cons, Account.ofHistory_snoc, Account.ofHistory_snoc]
    exact ⟨queue.pop, serves.consume further (serves.peek_again looked),
      accounts.pop shown.symm⟩
  | giveBack unit handled ih =>
    obtain ⟨queue, standing, accounts⟩ := ih
    rw [Account.ofHistory_snoc]
    exact ⟨queue.giveBack unit, serves.putBack unit standing, accounts.giveBack unit⟩
  | takeFailure handled ih =>
    obtain ⟨queue, standing, accounts⟩ := ih
    obtain ⟨taken, further⟩ := serves.takeFailure standing
    rw [Account.ofHistory_snoc, taken]
    exact ⟨queue.clear, further, accounts.clear⟩
  | handOver handled ih =>
    obtain ⟨queue, standing, accounts⟩ := ih
    obtain ⟨taken, -⟩ := serves.takeFailure standing
    rw [Account.ofHistory_snoc, taken]
    exact ⟨queue.clear, serves.handOver standing, accounts.clear⟩

theorem ReadEvent.units_items (widen : Byte → CodeUnit w) (event : ReadEvent) :
    (event.items widen).filterMap Item.unit? = event.bytes.map widen := by
  cases event with
  | chunk bytes =>
    cases bytes with
    | nil => rfl
    | cons byte bytes => exact List.filterMap_map.trans (congrFun List.filterMap_eq_map' _)
  | interrupted => rfl
  | failed reason => rfl

theorem units_script (widen : Byte → CodeUnit w) (script : List ReadEvent) :
    (script.flatMap (ReadEvent.items widen)).filterMap Item.unit? =
      (script.flatMap ReadEvent.bytes).map widen := by
  induction script with
  | nil => rfl
  | cons event script ih =>
    rw [List.flatMap_cons, List.filterMap_append, event.units_items, ih, List.flatMap_cons,
      List.map_append]

/-- A stream reads its script as a queue, whatever is done to it and however often it is handed
over. Its history accounts for the items met so far: each unit was delivered once and each
failure taken or dropped once, in the order of the script, but for a failure that is still
held. The stream shows the unit given back last, or else the next unit of the script unless a
failure is held; a look meets one item at most, and one that shows a unit leaves it in place. -/
theorem script_read_in_order {script : List ReadEvent} {widen : Byte → CodeUnit w} {source : σ}
    (opened : OpensScript script widen σ source) {history : List (Handling w)} {now : σ}
    (handled : Handled source history now) :
    let account := Account.ofHistory history
    let looked := UnitSource.peek now
    (∃ queue : Queue w, queue.Accounts (script.flatMap (ReadEvent.items widen)) account ∧
        looked.1 = queue.front ∧
        (FallibleSource.takeFailure now).1 = queue.held ∧
        (UnitSource.peek looked.2).1 = queue.look.front ∧
        (FallibleSource.takeFailure looked.2).1 = queue.look.held) ∧
      account.delivered <+: (script.flatMap ReadEvent.bytes).map widen ∧
      (looked.1.isSome → UnitSource.peek looked.2 = looked) := by
  intro account looked
  obtain ⟨stands, serves, started⟩ := opened.stands
  obtain ⟨queue, standing, accounts⟩ := handled.accounts serves started
  obtain ⟨shown, further⟩ := serves.peek standing
  refine ⟨⟨queue, accounts, shown, (serves.takeFailure standing).1, (serves.peek further).1,
    (serves.takeFailure further).1⟩, ?_, ?_⟩
  · obtain ⟨issued, whole, units, -⟩ := accounts.issued
    rw [← units_script, whole, List.filterMap_append, ← units]
    exact List.prefix_append _ _
  · intro some
    obtain ⟨unit, found⟩ := Option.isSome_iff_exists.mp some
    have settled : looked = (Option.some unit, looked.2) := Prod.ext found rfl
    exact (serves.peek_again settled).trans settled.symm

/-- A unit that was given back behind a failure is consumed again once the failure is taken,
and the next read goes on where the failed one was made. -/
theorem failure_between_units :
    let script : List ReadEvent := [.chunk [.ofNat .narrow 0x80], .failed "unplugged",
      .interrupted, .chunk [.ofNat .narrow 98]]
    let source : WideStream := .ofReader (.text .windows1252) (.ofScript script)
    let euro : CodeUnit .wide := .ofNat .wide 0x20AC
    let history : List (Handling .wide) := [.looked (some euro), .consumed euro, .looked none,
      .gaveBack euro, .tookFailure (some "unplugged"), .looked (some euro), .consumed euro]
    let account : Account .wide := ⟨[], [euro], ["unplugged"]⟩
    ∃ now, OpensScript script CodePage.windows1252.toWide WideStream source ∧
      Handled source history now ∧ .ofHistory history = account ∧
      ∃ queue : Queue .wide,
        queue.Accounts (script.flatMap (ReadEvent.items CodePage.windows1252.toWide)) account ∧
        queue.front = some (.ofNat .wide 98) ∧ queue.held = none := by
  intro script source euro history account
  let first := UnitSource.peek source
  let stopped := UnitSource.peek (UnitSource.consume first.2)
  let taken := FallibleSource.takeFailure (UnitSource.putBack euro stopped.2)
  let again := UnitSource.peek taken.2
  have shown : first = (some euro, first.2) := Prod.ext (by decide +kernel) rfl
  have shown' : again = (some euro, again.2) := Prod.ext (by decide +kernel) rfl
  have started : Handled source [] source := .start
  have handled := ((started.consume shown).look.giveBack euro).takeFailure.consume shown'
  have answers : [.looked (some euro), .consumed euro] ++ [.looked stopped.1] ++ [.gaveBack euro] ++
      [.tookFailure taken.1] ++ [.looked (some euro), .consumed euro] = history := by
    decide +kernel
  rw [List.nil_append, answers] at handled
  have accounted : Account.ofHistory history = account := by decide +kernel
  obtain ⟨⟨queue, accounts, front, held, -⟩, -⟩ :=
    script_read_in_order (.paged .windows1252) handled
  rw [accounted] at accounts
  refine ⟨_, .paged .windows1252, handled, accounted, queue, accounts, ?_, ?_⟩
  · rw [← front]
    decide +kernel
  · rw [← held]
    decide +kernel

end FormattedInput
