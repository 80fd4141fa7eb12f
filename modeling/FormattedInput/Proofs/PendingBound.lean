import FormattedInput.Proofs.InputConservation
import FormattedInput.Proofs.Recording

/-!
How much a source holds back. A directive gives back at most two units, and it does so after it
has consumed: what earlier directives or calls gave back has been consumed again by then, as far
as new units are given back in its place. With the unit that was looked at, three units are
held back at most. -/
namespace FormattedInput

variable {σ : Type} {w : Width}

/-- A source that holds back what was put back and, behind it, at most so many units that it
looked at. -/
structure HoldsBack [UnitSource σ w] (park : σ → Leftover w) (most : Nat) : Prop where
  lookahead : ∀ source, (park source).lookahead.toList.length ≤ most
  peek_pushed : ∀ source, (park (UnitSource.peek source).2).pushed = (park source).pushed
  peek_settled : ∀ {source}, (park source).pushed ≠ [] → (UnitSource.peek source).2 = source
  consume_pushed : ∀ source, (park (UnitSource.consume source)).pushed = (park source).pushed.tail
  consume_lookahead : ∀ {source}, (park source).pushed ≠ [] →
    (park (UnitSource.consume source)).lookahead = (park source).lookahead
  putBack : ∀ unit source, park (UnitSource.putBack unit source) =
    ⟨(park source).lookahead, unit :: (park source).pushed⟩

theorem Leftover.length_units (left : Leftover w) :
    left.units.length = left.pushed.length + left.lookahead.toList.length :=
  List.length_append

theorem Leftover.length_convert (page : CodePage) (target : Width) (left : Leftover w) :
    (left.convert page target).units.length = left.units.length := by
  rw [Leftover.units_convert, List.length_map]

/-- No more than a bound is held back. A unit can still be given back: either all that was put
back was put back by this directive, or there is room for what it took. -/
structure Leftover.Within (bound : Nat) (deal : Dealings w) (left : Leftover w) : Prop where
  few : left.units.length ≤ bound
  room : left.pushed.length ≤ deal.returned ∨ left.units.length + deal.taken.length ≤ bound

namespace HoldsBack

variable [UnitSource σ w] {park : σ → Leftover w} {most bound : Nat}

theorem within_empty (holdsBack : HoldsBack park most) (enough : most ≤ bound)
    {deal : Dealings w} {source : σ} (empty : (park source).pushed = []) :
    (park source).Within bound deal := by
  have ahead := holdsBack.lookahead source
  constructor
  · rw [Leftover.length_units, empty, List.length_nil]
    omega
  · exact .inl (by rw [empty]; exact Nat.zero_le _)

theorem within_peek (holdsBack : HoldsBack park most) (enough : most ≤ bound)
    {deal : Dealings w} {source : σ} (within : (park source).Within bound deal) :
    (park (UnitSource.peek source).2).Within bound deal := by
  by_cases stacked : (park source).pushed = []
  · exact holdsBack.within_empty enough ((holdsBack.peek_pushed source).trans stacked)
  · rw [holdsBack.peek_settled stacked]
    exact within

theorem within_consume (holdsBack : HoldsBack park most) (enough : most ≤ bound)
    {earlier taken : Text w} {source : σ} (unit : CodeUnit w)
    (within : (park source).Within bound ⟨earlier, taken, 0⟩) :
    (park (UnitSource.consume source)).Within bound ⟨earlier, unit :: taken, 0⟩ := by
  have pushed := holdsBack.consume_pushed source
  cases stacked : (park source).pushed with
  | nil =>
    rw [stacked] at pushed
    exact holdsBack.within_empty enough pushed
  | cons first others =>
    -- One unit less is held back, one more was taken: the room stays as it is.
    have ahead := holdsBack.consume_lookahead (stacked ▸ List.cons_ne_nil first others)
    obtain ⟨few, room⟩ := within
    rw [stacked] at pushed
    simp only [Leftover.length_units, stacked, List.length_cons] at few room
    rw [List.tail_cons] at pushed
    constructor <;> simp only [Leftover.length_units, pushed, ahead, List.length_cons] <;> omega

theorem within_putBack (holdsBack : HoldsBack park most) (enough : most + 2 ≤ bound)
    {earlier taken : Text w} {returned : Nat} {unit : CodeUnit w} {source : σ}
    (few : returned < 2) (within : (park source).Within bound ⟨earlier, unit :: taken, returned⟩) :
    (park (UnitSource.putBack unit source)).Within bound ⟨earlier, taken, returned + 1⟩ := by
  -- The stack holds two units at most if this directive put them all back.
  have ahead := holdsBack.lookahead source
  obtain ⟨fits, room⟩ := within
  simp only [Leftover.length_units, List.length_cons] at fits room
  rw [holdsBack.putBack]
  constructor <;> simp only [Leftover.length_units, List.length_cons] <;> omega

theorem keeps (holdsBack : HoldsBack park most) (enough : most + 2 ≤ bound) :
    Keeps fun deal source => (park source).Within bound deal where
  peek := holdsBack.within_peek (by omega)
  consume := by
    intro earlier taken source seen unit within looked
    have further := holdsBack.within_peek (by omega) within
    rw [looked] at further
    exact holdsBack.within_consume (by omega) unit further
  putBack := holdsBack.within_putBack enough
  settle := by
    intro deal source within
    exact ⟨within.few, .inr within.few⟩

end HoldsBack

def Task.holdings [UnitSource σ w] (task : Task w) (park : σ → Leftover w) (source : σ) :
    List (Leftover w) :=
  (task.scan (Recorded.ofSource w source)).source.moments.map park

theorem Task.parked_mem_holdings [UnitSource σ w] (task : Task w) (park : σ → Leftover w)
    (source : σ) : park (task.scan source).source ∈ task.holdings park source := by
  obtain ⟨-, -, same⟩ := Recorded.scan_erased task source
  rw [← same]
  exact List.mem_map_of_mem (List.mem_append_right _ List.mem_cons_self)

/-- A scan that begins within a bound stays within it, if the bound leaves room for two units
beside those looked at. -/
theorem HoldsBack.holdings [UnitSource σ w] {park : σ → Leftover w} {most bound : Nat}
    (holdsBack : HoldsBack park most) (enough : most + 2 ≤ bound) (task : Task w) {source : σ}
    (few : (park source).units.length ≤ bound) :
    ∀ left ∈ task.holdings park source, left.units.length ≤ bound := by
  intro left member
  obtain ⟨moment, among, rfl⟩ := List.mem_map.mp member
  obtain ⟨deal, within⟩ :=
    Recorded.scan_always (holdsBack.keeps enough) task ⟨few, .inr few⟩ moment among
  exact within.few

theorem ByteStream.holdsBack : HoldsBack ByteStream.park 0 where
  lookahead _ := Nat.le_refl 0
  peek_pushed stream := by
    obtain ⟨feed, pushed⟩ := stream
    cases pushed <;> rfl
  peek_settled {stream} stacked := by
    obtain ⟨feed, pushed⟩ := stream
    cases pushed with
    | nil => contradiction
    | cons first pushed => rfl
  consume_pushed stream := by
    obtain ⟨feed, pushed⟩ := stream
    cases pushed <;> rfl
  consume_lookahead _ := rfl
  putBack _ _ := rfl

theorem WideStream.holdsBack : HoldsBack WideStream.park 1 where
  lookahead stream := Option.length_toList_le
  peek_pushed stream := by
    obtain ⟨feed, encoding, lookahead, pushed⟩ := stream
    cases pushed <;> cases lookahead <;> rfl
  peek_settled {stream} stacked := by
    obtain ⟨feed, encoding, lookahead, pushed⟩ := stream
    cases pushed with
    | nil => contradiction
    | cons first pushed => rfl
  consume_pushed stream := by
    obtain ⟨feed, encoding, lookahead, pushed⟩ := stream
    cases pushed <;> cases lookahead <;> rfl
  consume_lookahead {stream} stacked := by
    obtain ⟨feed, encoding, lookahead, pushed⟩ := stream
    cases pushed with
    | nil => contradiction
    | cons first pushed => rfl
  putBack _ _ := rfl

theorem ConsoleStream.holdsBack : HoldsBack (ConsoleStream.park (w := w)) 1 where
  lookahead source := Option.length_toList_le
  peek_pushed source := by
    obtain ⟨console, lookahead, pushed⟩ := source
    cases pushed <;> cases lookahead <;> rfl
  peek_settled {source} stacked := by
    obtain ⟨console, lookahead, pushed⟩ := source
    cases pushed with
    | nil => contradiction
    | cons first pushed => rfl
  consume_pushed source := by
    obtain ⟨console, lookahead, pushed⟩ := source
    cases pushed <;> cases lookahead <;> rfl
  consume_lookahead {source} stacked := by
    obtain ⟨console, lookahead, pushed⟩ := source
    cases pushed with
    | nil => contradiction
    | cons first pushed => rfl
  putBack _ _ := rfl

structure SharedCall where
  width : Width
  task : Task width

/-- A byte stream that calls read one after the other, and what is parked between them. -/
structure SharedStream where
  reader : ByteReader
  parked : ParkedInput

/-- The keyboard of a console that calls read one after the other, and what is parked between
them. A missing key is a read that finds the console closed. -/
structure SharedKeyboard where
  keys : List (Option Byte)
  parked : ParkedInput

namespace SharedStream

def ofReader (reader : ByteReader) : SharedStream := ⟨reader, .empty⟩

def openBytes (stream : SharedStream) : ByteStream :=
  .resume stream.reader (stream.parked.resume .latin1 .narrow)

def openWide (page : CodePage) (stream : SharedStream) : WideStream :=
  .resume (.text page) stream.reader (stream.parked.resume page .wide)

/-- A wide call widens the bytes through the code page of its locale and narrows what it parks
through the same page. -/
def serve (stream : SharedStream) (call : SharedCall) : SharedStream :=
  match call with
  | ⟨.narrow, task⟩ =>
    let done := task.scan stream.openBytes
    ⟨done.source.feed.reader, .park .latin1 done.source.park⟩
  | ⟨.wide, task⟩ =>
    let page := task.rules.locale.page
    let done := task.scan (stream.openWide page)
    ⟨done.source.feed.reader, .park page done.source.park⟩

def holdings (stream : SharedStream) (call : SharedCall) : List (Leftover call.width) :=
  match call with
  | ⟨.narrow, task⟩ => task.holdings ByteStream.park stream.openBytes
  | ⟨.wide, task⟩ => task.holdings WideStream.park (stream.openWide task.rules.locale.page)

end SharedStream

namespace SharedKeyboard

def ofKeys (keys : List (Option Byte)) : SharedKeyboard := ⟨keys, .empty⟩

def openConsole (w : Width) (keyboard : SharedKeyboard) : ConsoleStream w :=
  .resume (.ofKeys (keyboard.keys.map (Option.map (CodeUnit.convert .latin1 w))))
    (keyboard.parked.resume .latin1 w)

def serve (keyboard : SharedKeyboard) (call : SharedCall) : SharedKeyboard :=
  let done := call.task.scan (keyboard.openConsole call.width)
  ⟨done.source.console.keys.map (Option.map (CodeUnit.convert .latin1 .narrow)),
   .park .latin1 done.source.park⟩

def holdings (keyboard : SharedKeyboard) (call : SharedCall) : List (Leftover call.width) :=
  call.task.holdings ConsoleStream.park (keyboard.openConsole call.width)

end SharedKeyboard

theorem ParkedInput.length_park (page : CodePage) (left : Leftover w) :
    (ParkedInput.park page left).bytes.units.length = left.units.length :=
  left.length_convert page .narrow

namespace SharedStream

variable {stream : SharedStream}

theorem length_openBytes (stream : SharedStream) :
    stream.openBytes.park.units.length = stream.parked.bytes.units.length := by
  have resumed := stream.parked.bytes.length_convert .latin1 .narrow
  rw [← resumed, Leftover.length_units]
  rfl

theorem length_openWide (page : CodePage) (stream : SharedStream) :
    (stream.openWide page).park.units.length = stream.parked.bytes.units.length :=
  stream.parked.bytes.length_convert page .wide

theorem holdings_bounded (few : stream.parked.bytes.units.length ≤ 3) (call : SharedCall) :
    ∀ left ∈ stream.holdings call, left.units.length ≤ 3 := by
  obtain ⟨width, task⟩ := call
  cases width with
  | narrow =>
    exact ByteStream.holdsBack.holdings (by decide) task (stream.length_openBytes.trans_le few)
  | wide =>
    exact WideStream.holdsBack.holdings (by decide) task
      ((stream.length_openWide _).trans_le few)

theorem parked_serve (stream : SharedStream) (call : SharedCall) :
    ∃ left ∈ stream.holdings call,
      (stream.serve call).parked.bytes.units.length = left.units.length := by
  obtain ⟨width, task⟩ := call
  cases width with
  | narrow =>
    exact ⟨_, task.parked_mem_holdings ByteStream.park _, ParkedInput.length_park _ _⟩
  | wide => exact ⟨_, task.parked_mem_holdings WideStream.park _, ParkedInput.length_park _ _⟩

theorem parked_bounded (calls : List SharedCall) {stream : SharedStream}
    (few : stream.parked.bytes.units.length ≤ 3) :
    (calls.foldl serve stream).parked.bytes.units.length ≤ 3 := by
  induction calls generalizing stream with
  | nil => exact few
  | cons call calls ih =>
    obtain ⟨left, held, same⟩ := stream.parked_serve call
    exact ih (same.trans_le (holdings_bounded few call left held))

end SharedStream

namespace SharedKeyboard

variable {keyboard : SharedKeyboard}

theorem holdings_bounded (few : keyboard.parked.bytes.units.length ≤ 3) (call : SharedCall) :
    ∀ left ∈ keyboard.holdings call, left.units.length ≤ 3 := by
  apply ConsoleStream.holdsBack.holdings (by decide) call.task
  exact (keyboard.parked.bytes.length_convert .latin1 call.width).trans_le few

theorem parked_bounded (calls : List SharedCall) {keyboard : SharedKeyboard}
    (few : keyboard.parked.bytes.units.length ≤ 3) :
    (calls.foldl serve keyboard).parked.bytes.units.length ≤ 3 := by
  induction calls generalizing keyboard with
  | nil => exact few
  | cons call calls ih =>
    have held := holdings_bounded few call _
      (call.task.parked_mem_holdings ConsoleStream.park (keyboard.openConsole call.width))
    exact ih ((ParkedInput.length_park _ _).trans_le held)

end SharedKeyboard

namespace Request

def shared (request : Request) : SharedCall :=
  ⟨request.entry.width, request.entry.rules request.current request.call, request.call.format,
   request.call.slots⟩

end Request

namespace StandardInput

def asStream (input : StandardInput) : SharedStream := ⟨.ofBytes input.unread, input.stream⟩

def asKeyboard (input : StandardInput) : SharedKeyboard := ⟨input.unread.map some, input.console⟩

def holdings (input : StandardInput) (request : Request) : List (Leftover request.entry.width) :=
  match request.entry.origin.parking with
  | .stream => input.asStream.holdings request.shared
  | .console => input.asKeyboard.holdings request.shared

theorem openConsole_asKeyboard (w : Width) (input : StandardInput) :
    input.asKeyboard.openConsole w =
      .resume (.ofTerminal w input.unread) (input.console.resume .latin1 w) := by
  simp only [SharedKeyboard.openConsole, asKeyboard, Console.ofTerminal, Console.ofText,
    List.map_map]
  rfl

theorem parked_serve (input : StandardInput) (request : Request) :
    ∃ left ∈ input.holdings request,
      ((input.serve request).parked request.entry.origin.parking).length = left.units.length := by
  obtain ⟨⟨width, origin, policy, takesLocale⟩, current, call⟩ := request
  cases origin with
  | console =>
    refine ⟨_, Task.parked_mem_holdings _ ConsoleStream.park _, ?_⟩
    rw [openConsole_asKeyboard]
    exact ParkedInput.length_park .latin1 _
  | text | countedText | stream | standardInput =>
    cases width with
    | narrow => exact input.asStream.parked_serve ⟨.narrow, _⟩
    | wide => exact input.asStream.parked_serve ⟨.wide, _⟩

def Few (input : StandardInput) : Prop := ∀ parking, (input.parked parking).length ≤ 3

theorem Few.holdings {input : StandardInput} (few : input.Few) (request : Request) :
    ∀ left ∈ input.holdings request, left.units.length ≤ 3 := by
  unfold StandardInput.holdings
  cases request.entry.origin.parking with
  | stream =>
    have parked : input.asStream.parked.bytes.units.length ≤ 3 := few .stream
    exact SharedStream.holdings_bounded parked request.shared
  | console =>
    have parked : input.asKeyboard.parked.bytes.units.length ≤ 3 := few .console
    exact SharedKeyboard.holdings_bounded parked request.shared

theorem Few.serve {input : StandardInput} (few : input.Few) (request : Request) :
    (input.serve request).Few := by
  intro parking
  by_cases own : parking = request.entry.origin.parking
  · obtain ⟨left, held, same⟩ := input.parked_serve request
    rw [own, same]
    exact few.holdings request left held
  · have serves := call_serves request.entry request.current request.call input
    exact (congrArg List.length (serves.others parking own)).trans_le (few parking)

theorem Few.serveAll (requests : List Request) {input : StandardInput} (few : input.Few) :
    (input.serveAll requests).Few := by
  induction requests generalizing input with
  | nil => exact few
  | cons request requests ih => exact ih (few.serve request)

theorem few_ofBytes (bytes : List Byte) : (ofBytes bytes).Few := by
  intro parking
  cases parking <;> exact Nat.zero_le 3

end StandardInput

theorem ByteStream.held_bounded (tasks : List (Task .narrow)) {input : Counted ByteStream}
    (few : input.source.park.units.length ≤ 2) :
    (Task.scanAll tasks input).source.park.units.length ≤ 2 := by
  induction tasks generalizing input with
  | nil => exact few
  | cons task tasks ih =>
    exact ih (holdsBack.holdings (by decide) task few _
      (task.parked_mem_holdings ByteStream.park input.source))

theorem Leftover.pushed_le_capacity {left : Leftover w} (few : left.units.length ≤ 3) :
    left.pushed.length ≤ Leftover.capacity := by
  rw [Leftover.length_units] at few
  unfold Leftover.capacity
  omega

/-- At most three units are held back, at every moment of every call and after it, however many
calls of whatever width read one stream or one console, and at most two by one narrow stream.
A stack of units put back therefore never outgrows the room it has from the start. So it is
with the named calls on the standard input, in whatever order they come. -/
theorem pending_at_most_three :
    (∀ (reader : ByteReader) (calls : List SharedCall) (last : SharedCall),
      let stream := calls.foldl SharedStream.serve (.ofReader reader)
      (∀ left ∈ stream.holdings last,
        left.units.length ≤ 3 ∧ left.pushed.length ≤ Leftover.capacity) ∧
      (stream.serve last).parked.bytes.units.length ≤ 3) ∧
    (∀ (keys : List (Option Byte)) (calls : List SharedCall) (last : SharedCall),
      let keyboard := calls.foldl SharedKeyboard.serve (.ofKeys keys)
      (∀ left ∈ keyboard.holdings last,
        left.units.length ≤ 3 ∧ left.pushed.length ≤ Leftover.capacity) ∧
      (keyboard.serve last).parked.bytes.units.length ≤ 3) ∧
    (∀ (reader : ByteReader) (tasks : List (Task .narrow)) (last : Task .narrow),
      let kept := (Task.scanAll tasks ⟨.ofReader reader, 0⟩).source
      (∀ left ∈ last.holdings ByteStream.park kept, left.units.length ≤ 2) ∧
      (last.scan kept).source.park.units.length ≤ 2) ∧
    (∀ (bytes : List Byte) (requests : List Request) (last : Request),
      let input := (StandardInput.ofBytes bytes).serveAll requests
      (∀ left ∈ input.holdings last,
        left.units.length ≤ 3 ∧ left.pushed.length ≤ Leftover.capacity) ∧
      ∀ parking, ((input.serve last).parked parking).length ≤ 3) := by
  have unparked : ParkedInput.empty.bytes.units.length ≤ 3 := Nat.zero_le 3
  refine ⟨?_, ?_, ?_, ?_⟩
  · intro reader calls last stream
    have few : stream.parked.bytes.units.length ≤ 3 :=
      SharedStream.parked_bounded calls unparked
    refine ⟨fun left held => ?_, SharedStream.parked_bounded [last] few⟩
    have bounded := SharedStream.holdings_bounded few last left held
    exact ⟨bounded, Leftover.pushed_le_capacity bounded⟩
  · intro keys calls last keyboard
    have few : keyboard.parked.bytes.units.length ≤ 3 :=
      SharedKeyboard.parked_bounded calls unparked
    refine ⟨fun left held => ?_, SharedKeyboard.parked_bounded [last] few⟩
    have bounded := SharedKeyboard.holdings_bounded few last left held
    exact ⟨bounded, Leftover.pushed_le_capacity bounded⟩
  · intro reader tasks last kept
    have few : kept.park.units.length ≤ 2 := ByteStream.held_bounded tasks (Nat.zero_le 2)
    have after : (Task.scanAll [last] ⟨kept, 0⟩).source.park.units.length ≤ 2 :=
      ByteStream.held_bounded [last] few
    exact ⟨ByteStream.holdsBack.holdings (by decide) last few, after⟩
  · intro bytes requests last input
    have few : input.Few := (StandardInput.few_ofBytes bytes).serveAll requests
    refine ⟨fun left held => ?_, few.serve last⟩
    have bounded := few.holdings last left held
    exact ⟨bounded, Leftover.pushed_le_capacity bounded⟩

end FormattedInput
