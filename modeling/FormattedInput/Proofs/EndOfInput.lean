import FormattedInput.Proofs.Recording
import FormattedInput.Proofs.Running
import FormattedInput.Proofs.StreamQueue
import FormattedInput.Source.Console

/-!
How the end of the input is told from input that does not match. A directive that fails looks
at its input once more, and what this look shows decides. An end need not be permanent: it counts
if no later look of the directive shows a unit. -/
namespace FormattedInput

variable {σ : Type} {w : Width}

/-- A source that goes on showing a unit until it is consumed, and shows what was put back. Once
it is spent it shows nothing, however often it is looked at. -/
class StackedSource (σ : Type) (w : outParam Width) extends UnitSource σ w where
  peek_again : ∀ {source seen : σ} {unit : CodeUnit w},
    peek source = (some unit, seen) → peek seen = (some unit, seen)
  peek_putBack : ∀ (unit : CodeUnit w) (source : σ), (peek (putBack unit source)).1 = some unit
  IsSpent : σ → Prop
  peek_spent : ∀ {source : σ}, IsSpent source → (peek source).1 = none ∧ IsSpent (peek source).2

def ReadEvent.isFailed : ReadEvent → Bool
  | failed _ => true
  | chunk _ | interrupted => false

/-- No byte comes before a failing read. -/
def ByteReader.IsSpent (reader : ByteReader) : Prop :=
  reader.buffered = [] ∧
    ∀ event ∈ reader.script.takeWhile (fun event => !event.isFailed), event.bytes = []

theorem ByteReader.refill_spent {script : List ReadEvent}
    (spent : ∀ event ∈ script.takeWhile (fun event => !event.isFailed), event.bytes = []) :
    (refill script).1 = .endOfFile ∧ (refill script).2.IsSpent ∨
      ∃ reason, (refill script).1 = .failed reason := by
  fun_induction refill script with
  | case1 => exact .inl ⟨rfl, rfl, spent⟩
  | case2 script => exact .inl ⟨rfl, rfl, (List.forall_mem_cons.mp spent).2⟩
  | case3 byte bytes script => cases (List.forall_mem_cons.mp spent).1
  | case4 script ih => exact ih (List.forall_mem_cons.mp spent).2
  | case5 reason script => exact .inr ⟨reason, rfl⟩

namespace Feed

def IsSpent (feed : Feed) : Prop := feed.failure.isSome = true ∨ feed.reader.IsSpent

theorem look_spent {feed : Feed} (spent : feed.IsSpent) :
    feed.look.1 = none ∧ feed.look.2.IsSpent := by
  obtain ⟨⟨buffered, script⟩, failure, failures⟩ := feed
  cases failure with
  | some reason => exact ⟨rfl, .inl rfl⟩
  | none =>
    obtain none | ⟨rfl, quiet⟩ := spent
    · cases none
    · have refilled := ByteReader.refill_spent quiet
      simp only [look, ByteReader.look]
      generalize ByteReader.refill script = seen at refilled
      obtain ⟨shown, after⟩ := seen
      obtain ⟨rfl, further⟩ | ⟨reason, rfl⟩ := refilled
      · exact ⟨rfl, .inr further⟩
      · exact ⟨rfl, .inl rfl⟩

theorem take_spent {feed : Feed} (spent : feed.IsSpent) :
    feed.take.1 = none ∧ feed.take.2.IsSpent := by
  obtain ⟨shown, further⟩ := look_spent spent
  have looked : feed.look = (none, feed.look.2) := Prod.ext shown rfl
  rw [take, looked]
  exact ⟨rfl, further⟩

end Feed

theorem WideStream.decode_spent (encoding : Encoding) {feed : Feed} (spent : feed.IsSpent) :
    (decode encoding feed).1 = none ∧ (decode encoding feed).2.IsSpent := by
  obtain ⟨shown, further⟩ := Feed.take_spent spent
  have taken : feed.take = (none, feed.take.2) := Prod.ext shown rfl
  cases encoding with
  | text page =>
    rw [decode, taken]
    exact ⟨rfl, further⟩
  | utf16le =>
    rw [decode, taken]
    exact ⟨rfl, further⟩

instance : StackedSource ByteStream .narrow where
  peek_again := ByteStream.servesQueue.peek_again
  peek_putBack _ _ := rfl
  IsSpent stream := stream.pushed = [] ∧ stream.feed.IsSpent
  peek_spent := by
    rintro ⟨feed, pushed⟩ ⟨rfl, spent⟩
    obtain ⟨shown, further⟩ := Feed.look_spent spent
    exact ⟨shown, rfl, further⟩

instance : StackedSource WideStream .wide where
  peek_again looked := (WideStream.shows_peek looked).2
  peek_putBack _ _ := rfl
  IsSpent stream := stream.pushed = [] ∧ stream.lookahead = none ∧ stream.feed.IsSpent
  peek_spent := by
    rintro ⟨feed, encoding, lookahead, pushed⟩ ⟨rfl, rfl, spent⟩
    obtain ⟨shown, further⟩ := WideStream.decode_spent encoding spent
    exact ⟨shown, rfl, shown, further⟩

instance : StackedSource (ConsoleStream w) w where
  peek_again := by
    intro source seen unit looked
    obtain ⟨console, lookahead, pushed⟩ := source
    obtain ⟨shown, rfl⟩ := Prod.mk.inj looked
    match pushed, lookahead with
    | first :: pushed, lookahead => exact congrArg (·, _) shown
    | [], some first => exact congrArg (·, _) shown
    | [], none =>
      have key : console.read.1 = some unit := shown
      simp only [UnitSource.peek, ConsoleStream.peek, key]
  peek_putBack _ _ := rfl
  IsSpent source := source.pushed = [] ∧ source.lookahead = none ∧ source.console.rest = []
  peek_spent := by
    rintro ⟨⟨keys, echoed⟩, lookahead, pushed⟩ ⟨rfl, rfl, closed⟩
    match keys with
    | [] => exact ⟨rfl, rfl, rfl, rfl⟩
    | none :: keys => exact ⟨rfl, rfl, rfl, closed⟩
    | some key :: keys => cases closed

def Use.GivesBack : Use w → Prop
  | look | consume => False
  | putBack _ => True

namespace Recorded

section AnySource

variable [UnitSource σ w]

def MeetsEnd (entry : Counted σ × Use w) : Prop :=
  entry.2 = .look ∧ (UnitSource.peek entry.1.source).1 = none

/-- An end is met, and no look behind it shows a unit. -/
def StaysEnded (uses : List (Counted σ × Use w)) : Prop :=
  ∃ earlier met later, uses = earlier ++ met :: later ∧ MeetsEnd met ∧
    ∀ use ∈ later, use.2 = .look → MeetsEnd use

theorem StaysEnded.met {uses : List (Counted σ × Use w)} (stays : StaysEnded uses) :
    ∃ use ∈ uses, MeetsEnd use := by
  obtain ⟨earlier, met, later, rfl, meets, -⟩ := stays
  exact ⟨met, List.mem_append_right _ List.mem_cons_self, meets⟩

theorem StaysEnded.last {uses : List (Counted σ × Use w)} (stays : StaysEnded uses)
    {last : Counted σ × Use w} (ends : uses.getLast? = some last) (looked : last.2 = .look) :
    MeetsEnd last := by
  obtain ⟨earlier, met, later, rfl, meets, quiet⟩ := stays
  rw [List.getLast?_append, List.getLast?_cons, Option.some_or] at ends
  obtain rfl := Option.some.inj ends
  cases found : later.getLast? with
  | none => exact meets
  | some final =>
    rw [found] at looked
    exact quiet final (List.mem_of_getLast? found) looked

theorem staysEnded_last {uses : List (Counted σ × Use w)} {last : Counted σ × Use w}
    (ends : uses.getLast? = some last) (meets : MeetsEnd last) : StaysEnded uses := by
  obtain ⟨earlier, rfl⟩ := List.getLast?_eq_some_iff.mp ends
  exact ⟨earlier, last, [], rfl, meets, nofun⟩

end AnySource

variable [StackedSource σ w]

/-- An end that lasts however often it is looked at. -/
def MeetsLastingEnd (entry : Counted σ × Use w) : Prop :=
  MeetsEnd entry ∧ StackedSource.IsSpent (UnitSource.peek entry.1.source).2

def EndsSpent (recorded : Recorded σ w) : Prop :=
  ∃ last, recorded.record.getLast? = some last ∧ MeetsLastingEnd last ∧
    recorded.input.source = (UnitSource.peek last.1.source).2

/-- How far a directive has got. Until it has given a unit back, a look that met an end is its
last use. Afterwards there is a unit to be shown, and a last look has shown one. -/
structure Course (deal : Dealings w) (recorded : Recorded σ w) : Prop where
  forward : deal.returned = 0 → ∀ entry ∈ recorded.record, ¬ entry.2.GivesBack
  back : deal.returned ≠ 0 → (UnitSource.peek recorded.input.source).1.isSome = true ∧
    ∀ last ∈ recorded.record.getLast?, last.2 = .look →
      (UnitSource.peek last.1.source).1.isSome = true
  ended : (∃ entry ∈ recorded.record, MeetsLastingEnd entry) →
    (∃ entry ∈ recorded.record, entry.2.GivesBack) ∨ recorded.EndsSpent

variable {deal : Dealings w} {recorded : Recorded σ w}

theorem Course.look (course : Course deal recorded) :
    Course deal (recorded.note .look recorded.input.peek.2) where
  forward clean entry member := by
    rcases mem_note member with earlier | rfl
    · exact course.forward clean entry earlier
    · exact id
  back returned := by
    obtain ⟨shown, -⟩ := course.back returned
    obtain ⟨unit, found⟩ := Option.isSome_iff_exists.mp shown
    have again := StackedSource.peek_again (Prod.ext found rfl)
    refine ⟨(congrArg (·.1.isSome) again).trans rfl, ?_⟩
    intro last ends looked
    rw [getLast?_note] at ends
    obtain rfl := Option.some.inj ends
    exact shown
  ended := by
    rintro ⟨entry, member, meets⟩
    rcases mem_note member with earlier | rfl
    · rcases course.ended ⟨entry, earlier, meets⟩ with ⟨given, among, gives⟩ | ends
      · exact .inl ⟨given, record_note _ _ _ among, gives⟩
      · -- This look comes right after the one that met the end, so it meets the end again.
        obtain ⟨last, -, ⟨-, spent⟩, now⟩ := ends
        rw [← now] at spent
        obtain ⟨nothing, further⟩ := StackedSource.peek_spent spent
        exact .inr ⟨_, getLast?_note _ _ _, ⟨⟨rfl, nothing⟩, further⟩, rfl⟩
    · exact .inr ⟨_, getLast?_note _ _ _, meets, rfl⟩

theorem Course.consume {earlier taken : Text w} {seen : Recorded σ w} {unit : CodeUnit w}
    (course : Course ⟨earlier, taken, 0⟩ recorded)
    (looked : UnitSource.peek recorded = (some unit, seen)) :
    Course ⟨earlier, unit :: taken, 0⟩ (UnitSource.consume seen) := by
  obtain ⟨shown, rfl⟩ := Prod.mk.inj looked
  have further := course.look
  constructor
  · intro clean entry member
    rcases mem_note member with before | rfl
    · exact further.forward rfl entry before
    · exact id
  · exact fun returned => absurd rfl returned
  · rintro ⟨entry, member, meets⟩
    rcases mem_note member with before | rfl
    · rcases further.ended ⟨entry, before, meets⟩ with ⟨given, among, gives⟩ | ends
      · exact absurd gives (further.forward rfl given among)
      · -- The look before was the last use, and it showed a unit.
        obtain ⟨last, ends, ⟨⟨-, nothing⟩, -⟩, -⟩ := ends
        rw [getLast?_note] at ends
        obtain rfl := Option.some.inj ends
        cases shown.symm.trans nothing
    · cases meets.1.1

theorem course_kept : KeptWithin (Course (σ := σ) (w := w)) where
  peek := Course.look
  consume := Course.consume
  putBack := by
    intro earlier taken returned unit recorded few course
    constructor
    · exact fun clean => absurd clean (Nat.succ_ne_zero returned)
    · intro returned
      refine ⟨congrArg Option.isSome (StackedSource.peek_putBack unit _), ?_⟩
      intro last ends looked
      have put : (recorded.note (.putBack unit) (recorded.input.putBack unit)).record.getLast? =
        some last := ends
      rw [getLast?_note] at put
      obtain rfl := Option.some.inj put
      cases looked
    · intro met
      exact .inl ⟨_, List.mem_append_right _ List.mem_cons_self, trivial⟩

end Recorded

/-- A directive that found nothing has looked last, and halts by what it was shown. -/
theorem Counted.Unmatched.lastLook [UnitSource σ w] {halt : Halt} {after : Counted (Recorded σ w)}
    (failed : Unmatched halt after) :
    ∃ last : Counted σ, after.source.record.getLast? = some (last, .look) ∧
      halt = if (UnitSource.peek last.source).1.isNone then .inputExhausted after.consumed
        else .mismatch after.consumed := by
  obtain ⟨⟨recorded, consumed⟩, ended⟩ := failed
  refine ⟨recorded.input, ?_⟩
  have looked : (⟨recorded, consumed⟩ : Counted (Recorded σ w)).peek =
      (recorded.input.peek.1, ⟨recorded.note .look recorded.input.peek.2, consumed⟩) := rfl
  rw [unmatched, looked] at ended
  have shown : recorded.input.peek.1 = (UnitSource.peek recorded.input.source).1 := rfl
  rw [← shown]
  cases found : recorded.input.peek.1 with
  | none =>
    rw [found] at ended
    obtain ⟨rfl, rfl⟩ := Prod.mk.inj ended
    exact ⟨Recorded.getLast?_note _ _ _, rfl⟩
  | some unit =>
    rw [found] at ended
    obtain ⟨rfl, rfl⟩ := Prod.mk.inj ended
    exact ⟨Recorded.getLast?_note _ _ _, rfl⟩

namespace Progress

def recording (w : Width) (progress : Progress σ) : Progress (Recorded σ w) :=
  ⟨⟨.ofSource w progress.input.source, progress.input.consumed⟩, progress.arguments,
   progress.completed, progress.assigned, progress.events⟩

def uses [UnitSource σ w] (rules : Rules) (directive : Directive) (before : Progress σ) :
    List (Counted σ × Use w) :=
  ((before.recording w).execute rules directive).2.input.source.record

theorem execute_recording [UnitSource σ w] (rules : Rules) (directive : Directive)
    (before : Progress σ) :
    ((before.recording w).execute rules directive).1 = (before.execute rules directive).1 ∧
      (before.execute rules directive).2.input.consumed =
        ((before.recording w).execute rules directive).2.input.consumed := by
  have started : (before.recording w).InStep
      (fun (_ : Dealings w) (recorded : Recorded σ w) source => recorded.input.source = source)
      before :=
    ⟨⟨List.replicate before.input.consumed .nul, rfl, rfl, List.length_replicate.symm⟩,
      rfl, rfl, rfl, rfl⟩
  obtain ⟨halt, ends⟩ := started.execute Recorded.erases.toMovesAlike rules directive
  obtain ⟨deal, inStep⟩ := ends.input
  exact ⟨halt, inStep.consumed⟩

theorem execute_course [StackedSource σ w] (rules : Rules) (directive : Directive)
    (before : Progress σ) :
    ∃ deal, Recorded.Course (w := w) deal
      ((before.recording w).execute rules directive).2.input.source := by
  have started : (before.recording w).InStep
      (fun deal (recorded other : Recorded σ w) =>
        other = recorded ∧ Recorded.Course deal recorded) (before.recording w) :=
    ⟨⟨List.replicate before.input.consumed .nul, ⟨rfl, nofun, nofun, nofun⟩, rfl,
      List.length_replicate.symm⟩, rfl, rfl, rfl, rfl⟩
  obtain ⟨-, ends⟩ := started.execute Recorded.course_kept.movesAlike rules directive
  obtain ⟨deal, inStep⟩ := ends.input
  exact ⟨deal, inStep.source.2⟩

end Progress

namespace Recorded

variable [UnitSource σ w]

theorem mem_look {recorded seen : Recorded σ w} {shown : Option (CodeUnit w)}
    (looked : UnitSource.peek recorded = (shown, seen)) {entry : Counted σ × Use w}
    (member : entry ∈ seen.record) :
    entry ∈ recorded.record ∨ ¬ entry.2.GivesBack ∧ (MeetsEnd entry → shown = none) := by
  obtain ⟨rfl, rfl⟩ := Prod.mk.inj looked
  rcases mem_note member with earlier | rfl
  · exact .inl earlier
  · exact .inr ⟨id, And.right⟩

theorem mem_look_some {recorded seen : Recorded σ w} {unit : CodeUnit w}
    (looked : UnitSource.peek recorded = (some unit, seen)) {entry : Counted σ × Use w}
    (member : entry ∈ seen.record) :
    entry ∈ recorded.record ∨ ¬ entry.2.GivesBack ∧ ¬ MeetsEnd entry := by
  rcases mem_look looked member with earlier | ⟨forward, ends⟩
  · exact .inl earlier
  · exact .inr ⟨forward, fun meets => Option.some_ne_none unit (ends meets)⟩

/-- A run gives nothing back, and it has met an end only if it stopped there. -/
theorem takeRun_uses (accept : CodeUnit w → Bool) (room width : Option Nat)
    (input : Counted (Recorded σ w)) :
    let run := input.takeRun accept room width
    ∀ entry ∈ run.input.source.record, entry ∈ input.source.record ∨
      ¬ entry.2.GivesBack ∧ (MeetsEnd entry → run.overflows = false ∧ run.width ≠ some 0) := by
  fun_induction Counted.takeRun accept room width input with
  | case1 room input => exact fun entry member => .inl member
  | case2 room width input going source looked =>
    intro run entry member
    exact (mem_look looked member).imp_right fun added => ⟨added.1, fun _ => ⟨rfl, going⟩⟩
  | case3 width input going unit source looked accepted =>
    intro run entry member
    exact (mem_look_some looked member).imp_right fun added =>
      ⟨added.1, fun meets => absurd meets added.2⟩
  | case4 room width input going unit source looked accepted roomy run =>
    rename_i ih
    intro whole entry member
    rcases ih entry member with before | added
    · -- The uses of this round are a look that showed the unit and its consumption.
      rcases mem_note before with seen | rfl
      · exact (mem_look_some looked seen).imp_right fun added =>
          ⟨added.1, fun meets => absurd meets added.2⟩
      · exact .inr ⟨id, fun meets => by cases meets.1⟩
    · exact .inr added
  | case5 room width input going unit source looked rejected =>
    intro run entry member
    exact (mem_look_some looked member).imp_right fun added =>
      ⟨added.1, fun meets => absurd meets added.2⟩

theorem mem_unmatched {input : Counted (Recorded σ w)} {entry : Counted σ × Use w}
    (member : entry ∈ input.unmatched.2.source.record) :
    entry ∈ input.source.record ∨ ¬ entry.2.GivesBack := by
  have left : input.unmatched.2.source = (UnitSource.peek input.source).2 := by
    rw [Counted.unmatched, Counted.peek]
    cases (UnitSource.peek input.source).1 <;> rfl
  rw [left] at member
  exact (mem_look (Prod.ext rfl rfl) member).imp_right And.left

theorem takeText_characters {elements width : Option Nat} {input after : Counted (Recorded σ w)}
    {units : Text w} {stop : TextEnd}
    (read : input.takeText .characters elements width = ((units, stop), after))
    (fresh : input.source.record = []) :
    (∀ use ∈ after.source.record, ¬ use.2.GivesBack) ∧
      ((∃ use ∈ after.source.record, MeetsEnd use) → ∃ halt, stop = .failed halt) := by
  have uses := takeRun_uses TextShape.characters.accepts (elements.map TextShape.characters.room)
    (TextShape.characters.width width) (input.dropLeading .characters)
  have start : (input.dropLeading .characters).source.record = [] := fresh
  simp only [start, List.not_mem_nil, false_or] at uses
  unfold Counted.takeText at read
  simp only at read
  split at read
  · rename_i overflows
    cases read
    refine ⟨fun use member => (uses use member).1, ?_⟩
    rintro ⟨use, member, meets⟩
    rw [((uses use member).2 meets).1] at overflows
    cases overflows
  · split at read
    · obtain ⟨same, rfl⟩ := Prod.mk.inj read
      obtain ⟨-, rfl⟩ := Prod.mk.inj same
      refine ⟨?_, fun _ => ⟨_, rfl⟩⟩
      intro use member
      rcases mem_unmatched member with earlier | forward
      · exact (uses use earlier).1
      · exact forward
    · rename_i full
      cases read
      refine ⟨fun use member => (uses use member).1, ?_⟩
      rintro ⟨use, member, meets⟩
      exact absurd (bne_iff_ne.mpr ((uses use member).2 meets).2) full

theorem convertText_characters (policy : Policy) (index : Nat) (elements width : Option Nat)
    {input : Counted (Recorded σ w)} (fresh : input.source.record = []) :
    let read := input.convertText policy index .characters elements width
    (∀ use ∈ read.2.source.record, ¬ use.2.GivesBack) ∧
      ((∃ use ∈ read.2.source.record, MeetsEnd use) →
        ∃ halt, read.1.halt = some halt ∧ halt.isOnInput = true) := by
  intro read
  rcases taken : input.takeText .characters elements width with ⟨⟨units, stop⟩, after⟩
  obtain ⟨forward, ended⟩ := takeText_characters taken fresh
  simp only [read, Counted.convertText, taken]
  refine ⟨by cases stop <;> exact forward, fun met => ?_⟩
  cases stop with
  | complete | overflow =>
    obtain ⟨halt, complete⟩ := ended met
    cases complete
  | failed halt => exact ⟨halt, rfl, (Counted.takeText_unmatched taken).onInput⟩

end Recorded

namespace Progress

theorem execute_characters [UnitSource σ w] (rules : Rules) {conversion : Conversion}
    {swapped : Bool} (kind : conversion.kind = .chars swapped) (before : Progress σ) :
    let uses := before.uses (w := w) rules (.conversion conversion)
    (∀ use ∈ uses, ¬ use.2.GivesBack) ∧
      ((∃ use ∈ uses, Recorded.MeetsEnd use) →
        ∃ halt, (before.execute rules (.conversion conversion)).1 = some halt ∧
          halt.isOnInput = true) := by
  have fresh : (before.recording w).input.source.record = [] := rfl
  obtain ⟨same, -⟩ := before.execute_recording rules (.conversion conversion)
  rw [← same]
  unfold uses
  generalize before.recording w = start at fresh
  obtain ⟨suppress, width, length, asked⟩ := conversion
  obtain rfl : asked = .chars swapped := kind
  simp only [execute, convert]
  rcases rules.policy.destination w (start.completed + 1) ⟨suppress, width, length, .chars swapped⟩
    start.arguments with ⟨broken | destination, arguments⟩
  · simp only [fresh, List.not_mem_nil, false_and, exists_false, false_implies, implies_true,
      and_self]
  · have read : start.input.convert rules (start.completed + 1)
        ⟨suppress, width, length, .chars swapped⟩ (destination.map Destination.room) =
        start.input.convertText rules.policy (start.completed + 1) .characters
          (destination.map Destination.room) width := rfl
    obtain ⟨forward, ended⟩ := Recorded.convertText_characters rules.policy (start.completed + 1)
      (destination.map Destination.room) width fresh
    simp only [read]
    generalize start.input.convertText rules.policy (start.completed + 1) .characters
      (destination.map Destination.room) width = found at forward ended
    obtain ⟨⟨content, halt⟩, after⟩ := found
    cases halt with
    | none =>
      refine ⟨forward, fun met => ?_⟩
      obtain ⟨halt, stopped, -⟩ := ended met
      cases stopped
    | some halt => exact ⟨forward, ended⟩

theorem execute_tells [UnitSource σ w] (rules : Rules) {directive : Directive}
    {before after : Progress σ} {halt : Halt}
    (stopped : before.execute rules directive = (some halt, after))
    (onInput : halt.isOnInput = true) :
    ∃ last, (before.uses (w := w) rules directive).getLast? = some (last, .look) ∧
      halt = if (UnitSource.peek last.source).1.isNone then .inputExhausted after.input.consumed
        else .mismatch after.input.consumed := by
  obtain ⟨same, alike⟩ := before.execute_recording (w := w) rules directive
  rw [stopped] at same alike
  obtain ⟨last, ends, found⟩ :=
    Counted.Unmatched.lastLook (execute_unmatched rules (Prod.ext same rfl) onInput)
  exact ⟨last, ends, alike ▸ found⟩

theorem execute_returned [StackedSource σ w] (rules : Rules) {directive : Directive}
    {before : Progress σ} (given : ∃ use ∈ before.uses rules directive, use.2.GivesBack)
    {last : Counted σ} (ends : (before.uses rules directive).getLast? = some (last, .look)) :
    (UnitSource.peek last.source).1.isSome = true := by
  obtain ⟨use, member, gives⟩ := given
  obtain ⟨deal, course⟩ := before.execute_course rules directive
  have returned : deal.returned ≠ 0 := fun clean => course.forward clean use member gives
  exact (course.back returned).2 _ ends rfl

theorem execute_lasting [StackedSource σ w] (rules : Rules) {directive : Directive}
    {before : Progress σ}
    (met : ∃ use ∈ before.uses rules directive, Recorded.MeetsLastingEnd use)
    (forward : ∀ use ∈ before.uses rules directive, ¬ use.2.GivesBack) :
    Recorded.StaysEnded (before.uses rules directive) := by
  obtain ⟨deal, course⟩ := before.execute_course rules directive
  rcases course.ended met with ⟨use, member, gives⟩ | ⟨final, ends, lasting, -⟩
  · exact absurd gives (forward use member)
  · exact Recorded.staysEnded_last ends lasting.1

theorem scan_halted [UnitSource σ w] (rules : Rules) {format : Text w} {slots : List Slot}
    {source : σ} {passed later : List Directive} {directive : Directive}
    {before after : Progress σ} {halt : Halt}
    (split : (Format.read format).steps.map Prod.fst = passed ++ directive :: later)
    (reached : (start w rules slots source).run rules passed = (none, before))
    (failed : before.execute rules directive = (some halt, after)) :
    (scan rules format slots source).report.halt = some halt ∧
      (scan rules format slots source).report.consumed = after.input.consumed := by
  have ran : (start w rules slots source).run rules ((Format.read format).steps.map Prod.fst) =
      (some halt, after) := by
    rw [split, run_append, reached]
    simp only [andThen, run, failed]
  simp only [scan, runFormat_halted rules ran, and_self]

end Progress

/-- What a directive that fails is shown tells the end of the input from a mismatch. The scan
halts because the input is exhausted if an end is met and no later look of the directive shows a
unit, whether or not units follow the end; single characters that meet such an end always halt it
so. It halts on a mismatch if every look shows a unit, and if a unit is given back, such as the
sign in front of no number. An end that lasts is such an end where nothing is given back, as it
never is by single characters. -/
theorem end_of_input_halts [StackedSource σ w] (rules : Rules) (format : Text w)
    (slots : List Slot) (source : σ) {passed later : List Directive} {directive : Directive}
    {before : Progress σ}
    (split : (Format.read format).steps.map Prod.fst = passed ++ directive :: later)
    (reached : (Progress.start w rules slots source).run rules passed = (none, before)) :
    let uses := before.uses rules directive
    let report := (scan rules format slots source).report
    (∀ halt, (before.execute rules directive).1 = some halt → halt.isOnInput = true →
      report.halt = some halt ∧
      (Recorded.StaysEnded uses → halt = .inputExhausted report.consumed) ∧
      ((∀ use ∈ uses, ¬ Recorded.MeetsEnd use) → halt = .mismatch report.consumed) ∧
      ((∃ use ∈ uses, use.2.GivesBack) → halt = .mismatch report.consumed)) ∧
    (∀ conversion swapped, directive = .conversion conversion →
      conversion.kind = .chars swapped →
        (∀ use ∈ uses, ¬ use.2.GivesBack) ∧
        (Recorded.StaysEnded uses → report.halt = some (.inputExhausted report.consumed))) ∧
    ((∃ use ∈ uses, Recorded.MeetsLastingEnd use) → (∀ use ∈ uses, ¬ use.2.GivesBack) →
      Recorded.StaysEnded uses) := by
  intro uses report
  -- A directive that fails has looked last, and what it was shown decides the halt.
  have told (halt : Halt) (stopped : (before.execute rules directive).1 = some halt)
      (onInput : halt.isOnInput = true) : report.halt = some halt ∧
        ∃ last, uses.getLast? = some (last, .look) ∧
          halt = if (UnitSource.peek last.source).1.isNone then .inputExhausted report.consumed
            else .mismatch report.consumed := by
    have failed : before.execute rules directive = (some halt, _) := Prod.ext stopped rfl
    obtain ⟨halted, consumed⟩ := Progress.scan_halted rules split reached failed
    simp only [report, consumed]
    exact ⟨halted, Progress.execute_tells rules failed onInput⟩
  have exhausted (halt : Halt) (stopped : (before.execute rules directive).1 = some halt)
      (onInput : halt.isOnInput = true) (stays : Recorded.StaysEnded uses) :
      halt = .inputExhausted report.consumed := by
    obtain ⟨-, last, ends, found⟩ := told halt stopped onInput
    obtain ⟨-, nothing⟩ := stays.last ends rfl
    rw [found, nothing]
    rfl
  refine ⟨fun halt stopped onInput => ?_, ?_, Progress.execute_lasting rules⟩
  · obtain ⟨halted, last, ends, found⟩ := told halt stopped onInput
    have mismatched (shown : (UnitSource.peek last.source).1.isNone = false) :
        halt = .mismatch report.consumed := by
      rw [found, shown]
      rfl
    refine ⟨halted, exhausted halt stopped onInput, fun shows => mismatched ?_,
      fun given => mismatched ?_⟩
    · have member := List.mem_of_getLast? ends
      exact Option.isNone_eq_false_iff.mpr
        (Option.isSome_iff_ne_none.mpr fun nothing => shows _ member ⟨rfl, nothing⟩)
    · exact Option.isNone_eq_false_iff.mpr (Progress.execute_returned rules given ends)
  · rintro conversion swapped rfl kind
    obtain ⟨forward, ended⟩ := before.execute_characters rules kind
    refine ⟨forward, fun stays => ?_⟩
    obtain ⟨halt, stopped, onInput⟩ := ended stays.met
    rw [(told halt stopped onInput).1, exhausted halt stopped onInput stays]

/-- Two reads in a row meet the end of the file behind the first of three characters. The scan
halts on that end, although a byte follows it. -/
theorem passing_end_exhausts :
    let script : List ReadEvent := [.chunk (Text.ofString .narrow "a"), .chunk [], .chunk [],
      .chunk (Text.ofString .narrow "b")]
    let source : ByteStream := .ofReader (.ofScript script)
    let format := Text.ofString .narrow "%3c"
    let slots : List Slot := [.buffer .narrow (List.replicate 4 .nul)]
    let three : Conversion := ⟨false, some 3, .absent, .chars false⟩
    let start := Progress.start .narrow ⟨.plain, .c⟩ slots source
    let done := scan ⟨.plain, .c⟩ format slots source
    (Format.read format).steps.map Prod.fst = [.conversion three] ∧
      start.run ⟨.plain, .c⟩ [] = (none, start) ∧
      Recorded.StaysEnded (start.uses ⟨.plain, .c⟩ (.conversion three)) ∧
      done.report.halt = some (.inputExhausted 1) ∧
      (UnitSource.peek done.source).1 = some (.ofNat .narrow 'b'.toNat) := by
  intro script source format slots three start done
  have split : (Format.read format).steps.map Prod.fst = [.conversion three] := by decide +kernel
  have parsed : (Format.read format).steps.map Prod.fst = [] ++ .conversion three :: [] := split
  have started : start.run ⟨.plain, .c⟩ [] = (none, start) := rfl
  let first : ByteStream := ⟨.ofReader ⟨[], script.drop 1⟩, []⟩
  let second : ByteStream := ⟨.ofReader ⟨[], script.drop 2⟩, []⟩
  have used : start.uses ⟨.plain, .c⟩ (.conversion three) =
      (start.uses ⟨.plain, .c⟩ (.conversion three)).take 2 ++
        (⟨first, 1⟩, .look) :: [(⟨second, 1⟩, .look)] := by decide +kernel
  have again : ∀ use ∈ [((⟨second, 1⟩ : Counted ByteStream), Use.look (w := .narrow))],
      use.2 = .look → Recorded.MeetsEnd use := by
    intro use member _
    obtain rfl := List.mem_singleton.mp member
    exact ⟨rfl, rfl⟩
  have stays : Recorded.StaysEnded (start.uses ⟨.plain, .c⟩ (.conversion three)) :=
    ⟨_, _, _, used, ⟨rfl, rfl⟩, again⟩
  obtain ⟨-, characters, -⟩ :=
    end_of_input_halts ⟨.plain, .c⟩ format slots source parsed started
  have consumed : done.report.consumed = 1 := by decide +kernel
  have halted := (characters three false rfl rfl).2 stays
  rw [consumed] at halted
  exact ⟨split, started, stays, halted, by decide +kernel⟩

/-- A sign at the end of the input is given back and does not match, although the end was met
behind it. -/
theorem lone_sign_mismatches :
    let source : ByteStream := .ofReader (.ofScript [.chunk (Text.ofString .narrow "+")])
    let format := Text.ofString .narrow "%d"
    let slots : List Slot := [.integer ⟨true, .word⟩ 99]
    let number : Conversion := ⟨false, none, .absent, .decimal⟩
    let start := Progress.start .narrow ⟨.plain, .c⟩ slots source
    (Format.read format).steps.map Prod.fst = [.conversion number] ∧
      (start.execute ⟨.plain, .c⟩ (.conversion number)).1 = some (.mismatch 0) ∧
      (∃ use ∈ start.uses ⟨.plain, .c⟩ (.conversion number),
        use.2 = .look ∧ (UnitSource.peek use.1.source).1 = none) ∧
      (scan ⟨.plain, .c⟩ format slots source).report.halt = some (.mismatch 0) := by
  decide +kernel

end FormattedInput
