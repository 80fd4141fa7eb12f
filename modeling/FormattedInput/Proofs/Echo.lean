import FormattedInput.Proofs.Lockstep
import FormattedInput.Source.Console
import FormattedInput.Source.Parked

/-!
What a console echoes. At any time the units echoed, the unit looked at and the keys to come are
the keys typed, in order, and what was put back are the units echoed last. Every key is
therefore echoed once, by the scan that first consumes it, however many sources read the
console and park what they leave. -/
namespace FormattedInput

namespace CodePage

variable {w : Width}

/-- A unit that survives parking: the page narrows it to a byte that it widens to the unit. -/
def Spells (page : CodePage) (unit : CodeUnit w) : Prop :=
  CodeUnit.convert page w (CodeUnit.convert page .narrow unit) = unit

instance (page : CodePage) (unit : CodeUnit w) : Decidable (page.Spells unit) :=
  inferInstanceAs (Decidable (_ = _))

theorem toNarrow_shared {first second : CodePage} {unit : CodeUnit .wide}
    (spelled : first.toWide (first.toNarrow unit) = unit)
    (spelled' : second.toWide (second.toNarrow unit) = unit) :
    first.toNarrow unit = second.toNarrow unit := by
  -- The pages differ in what they widen a byte to, so every byte is tried.
  have every : ∀ code : Fin 256, let wide := first.toWide (.ofNat .narrow code.val)
      second.toWide (second.toNarrow wide) = wide →
        first.toNarrow wide = second.toNarrow wide := by
    cases first <;> cases second <;> decide +kernel
  have same : CodeUnit.ofNat .narrow (first.toNarrow unit).code = first.toNarrow unit :=
    CodeUnit.ext (CodeUnit.code_ofNat (first.toNarrow unit).code_lt)
  have shared := every ⟨(first.toNarrow unit).code, (first.toNarrow unit).code_lt⟩
  simp only [same, spelled] at shared
  exact shared spelled'

theorem Spells.convert {first second : CodePage} {unit : CodeUnit w} (spelled : first.Spells unit)
    (spelled' : second.Spells unit) :
    CodeUnit.convert second w (CodeUnit.convert first .narrow unit) = unit := by
  cases w with
  | narrow => rfl
  | wide =>
    have shared : first.toNarrow unit = second.toNarrow unit := toNarrow_shared spelled spelled'
    exact (congrArg second.toWide shared).trans spelled'

end CodePage

namespace Leftover

variable {w : Width}

theorem convert_convert {first second : CodePage} {left : Leftover w}
    (spelled : ∀ unit ∈ left.units, first.Spells unit ∧ second.Spells unit) :
    (left.convert first .narrow).convert second w = left := by
  obtain ⟨lookahead, pushed⟩ := left
  have back (units : Text w) (among : ∀ unit ∈ units, unit ∈ pushed ++ lookahead.toList) :
      (units.map (CodeUnit.convert first .narrow)).map (CodeUnit.convert second w) = units := by
    rw [List.map_map]
    refine (List.map_congr_left fun unit member => ?_).trans (List.map_id units)
    obtain ⟨here, there⟩ := spelled unit (among unit member)
    exact here.convert there
  have stack := back pushed fun unit member => List.mem_append_left _ member
  have ahead := back lookahead.toList fun unit member => List.mem_append_right _ member
  simp only [convert, stack, mk.injEq, and_true]
  cases lookahead with
  | none => rfl
  | some unit => exact congrArg some (List.cons.inj ahead).1

end Leftover

namespace ConsoleStream

variable {w : Width}

/-- The console was typed certain keys, of which the first ones were consumed before the scan
began. What has been echoed is all that was consumed and what was put back. -/
structure Echoes (typed passed : Text w) (deal : Dealings w) (source : ConsoleStream w) :
    Prop where
  whole : source.console.echoed ++ (source.lookahead.toList ++ source.console.rest) = typed
  echoed : source.console.echoed = passed ++ (deal.kept.reverse ++ source.pushed)

variable {typed passed : Text w}

theorem Echoes.peek {deal : Dealings w} {source : ConsoleStream w}
    (echoes : Echoes typed passed deal source) : Echoes typed passed deal source.peek.2 := by
  obtain ⟨⟨keys, echoed⟩, lookahead, pushed⟩ := source
  match pushed, lookahead, keys with
  | first :: pushed, lookahead, keys => exact echoes
  | [], some first, keys => exact echoes
  | [], none, [] => exact echoes
  | [], none, none :: keys => exact ⟨echoes.whole, echoes.echoed⟩
  | [], none, some key :: keys => exact ⟨echoes.whole, echoes.echoed⟩

theorem Echoes.consume {earlier taken : Text w} {source seen : ConsoleStream w}
    {unit : CodeUnit w} (echoes : Echoes typed passed ⟨earlier, taken, 0⟩ source)
    (looked : source.peek = (some unit, seen)) :
    Echoes typed passed ⟨earlier, unit :: taken, 0⟩ seen.consume := by
  have kept : (Dealings.kept ⟨earlier, unit :: taken, 0⟩).reverse =
      (Dealings.kept ⟨earlier, taken, 0⟩).reverse ++ [unit] := List.reverse_cons
  have further := echoes.peek
  rw [looked] at further
  have shown : seen.pushed.head? = some unit ∨ seen.pushed = [] ∧ seen.lookahead = some unit := by
    obtain ⟨console, lookahead, pushed⟩ := source
    obtain ⟨first, rfl⟩ := Prod.mk.inj looked
    match pushed, lookahead with
    | first :: pushed, lookahead => exact .inl ‹_›
    | [], some first => exact .inr ⟨rfl, ‹_›⟩
    | [], none => exact .inr ⟨rfl, ‹_›⟩
  obtain ⟨whole, echoed⟩ := further
  obtain ⟨console, lookahead, pushed⟩ := seen
  rcases shown with front | ⟨empty, ahead⟩
  · -- The unit was echoed when it was first consumed: it moves from the stack to what is kept.
    cases pushed with
    | nil => cases front
    | cons first pushed =>
      obtain rfl := Option.some.inj front
      refine ⟨whole, ?_⟩
      rw [kept, List.append_assoc]
      exact echoed
  · -- The key is echoed now, and nothing put back stands in front of it.
    obtain rfl := empty
    obtain rfl := ahead
    constructor
    · rw [← whole]
      simp [ConsoleStream.consume, Console.echo, Console.rest]
    · simp only at echoed
      simp [ConsoleStream.consume, Console.echo, kept, echoed]

theorem echoes_keeps (typed passed : Text w) : Keeps (Echoes typed passed) where
  peek := Echoes.peek
  consume := Echoes.consume
  putBack := by
    intro earlier taken returned unit source few echoes
    refine ⟨echoes.whole, echoes.echoed.trans ?_⟩
    simp [Dealings.kept, ConsoleStream.putBack, UnitSource.putBack]
  settle := by
    intro deal source echoes
    exact ⟨echoes.whole, echoes.echoed⟩

def Echoed (typed : Text w) (input : Counted (ConsoleStream w)) : Prop :=
  ∃ passed : Text w, passed.length = input.consumed ∧
    Echoes typed passed (.fresh []) input.source

theorem echoed_ofKeys (keys : List (Option (CodeUnit w))) :
    Echoed (Console.ofKeys keys).rest ⟨.ofConsole (.ofKeys keys), 0⟩ :=
  ⟨[], rfl, rfl, rfl⟩

theorem Echoed.scan {input : Counted (ConsoleStream w)} (echoed : Echoed typed input)
    (task : Task w) :
    Echoed typed ⟨(task.scan input.source).source,
      input.consumed + (task.scan input.source).report.consumed⟩ := by
  obtain ⟨passed, counted, echoes⟩ := echoed
  obtain ⟨kept, further, ended⟩ :=
    scan_keeps (echoes_keeps typed passed) task.rules task.format task.slots echoes
  refine ⟨passed ++ kept.reverse, ?_, ended.whole, ?_⟩
  · rw [List.length_append, List.length_reverse, counted, further]
    rfl
  · rw [List.append_assoc]
    exact ended.echoed

theorem Echoed.scanAll (tasks : List (Task w)) {input : Counted (ConsoleStream w)}
    (echoed : Echoed typed input) : Echoed typed (Task.scanAll tasks input) := by
  induction tasks generalizing input with
  | nil => exact echoed
  | cons task tasks ih => exact ih (echoed.scan task)

theorem Echoed.held {input : Counted (ConsoleStream w)} (echoed : Echoed typed input) :
    ∀ unit ∈ input.source.park.units, unit ∈ typed := by
  obtain ⟨passed, -, echoes⟩ := echoed
  intro unit member
  rw [← echoes.whole]
  rcases List.mem_append.mp member with stacked | ahead
  · refine List.mem_append_left _ ?_
    rw [echoes.echoed]
    exact List.mem_append_right _ (List.mem_append_right _ stacked)
  · exact List.mem_append_right _ (List.mem_append_left _ ahead)

theorem Echoed.echo {input : Counted (ConsoleStream w)} (echoed : Echoed typed input) :
    let source := input.source
    source.console.echoed ++ source.lookahead.toList ++ source.console.rest = typed ∧
      source.pushed <:+ source.console.echoed ∧
      source.console.echoed = typed.take (input.consumed + source.pushed.length) := by
  obtain ⟨passed, counted, whole, split⟩ := echoed
  have length : input.source.console.echoed.length =
      input.consumed + input.source.pushed.length := by
    rw [split, List.length_append, counted]
    rfl
  refine ⟨(List.append_assoc _ _ _).trans whole, ⟨passed, split.symm⟩, ?_⟩
  rw [← whole, ← length, List.take_left]

end ConsoleStream

structure ConsoleSession (w : Width) where
  page : CodePage
  tasks : List (Task w)

/-- A console that is read by one source after the other, with what is parked between them and
all that was consumed. -/
structure SharedConsole (w : Width) where
  console : Console w
  parked : ParkedInput
  consumed : Nat

namespace SharedConsole

variable {w : Width}

def ofKeys (keys : List (Option (CodeUnit w))) : SharedConsole w := ⟨.ofKeys keys, .empty, 0⟩

def scanned (session : ConsoleSession w) (shared : SharedConsole w) : Counted (ConsoleStream w) :=
  Task.scanAll session.tasks
    ⟨.resume shared.console (shared.parked.resume session.page w), shared.consumed⟩

def serve (shared : SharedConsole w) (session : ConsoleSession w) : SharedConsole w :=
  let after := shared.scanned session
  ⟨after.source.console, .park session.page after.source.park, after.consumed⟩

/-- Whichever page takes up what is parked, the source goes on as if it had been kept. -/
def Continues (typed : Text w) (shared : SharedConsole w) : Prop :=
  ∃ source, ConsoleStream.Echoed typed ⟨source, shared.consumed⟩ ∧
    ∀ page : CodePage, (∀ unit ∈ typed, page.Spells unit) →
      ConsoleStream.resume shared.console (shared.parked.resume page w) = source

theorem Continues.scanned {typed : Text w} {shared : SharedConsole w}
    (continues : shared.Continues typed) {session : ConsoleSession w}
    (spelled : ∀ unit ∈ typed, session.page.Spells unit) :
    ConsoleStream.Echoed typed (shared.scanned session) := by
  obtain ⟨source, echoed, resumed⟩ := continues
  rw [SharedConsole.scanned, resumed session.page spelled]
  exact echoed.scanAll session.tasks

theorem Continues.serve {typed : Text w} {shared : SharedConsole w}
    (continues : shared.Continues typed) {session : ConsoleSession w}
    (spelled : ∀ unit ∈ typed, session.page.Spells unit) :
    (shared.serve session).Continues typed := by
  have echoed := continues.scanned spelled
  refine ⟨(shared.scanned session).source, echoed, ?_⟩
  intro page spelled'
  have back : ((shared.scanned session).source.park.convert session.page .narrow).convert page w =
      (shared.scanned session).source.park := by
    apply Leftover.convert_convert
    intro unit member
    have typing := echoed.held unit member
    exact ⟨spelled unit typing, spelled' unit typing⟩
  exact congrArg (ConsoleStream.resume (shared.scanned session).source.console) back

theorem continues_ofKeys (keys : List (Option (CodeUnit w))) :
    (ofKeys keys).Continues (Console.ofKeys keys).rest :=
  ⟨.ofConsole (.ofKeys keys), ConsoleStream.echoed_ofKeys keys, fun _ _ => rfl⟩

theorem Continues.serveAll {typed : Text w} {sessions : List (ConsoleSession w)}
    {shared : SharedConsole w} (continues : shared.Continues typed)
    (spelled : ∀ session ∈ sessions, ∀ unit ∈ typed, session.page.Spells unit) :
    (sessions.foldl SharedConsole.serve shared).Continues typed := by
  induction sessions generalizing shared with
  | nil => exact continues
  | cons session sessions ih =>
    obtain ⟨first, later⟩ := List.forall_mem_cons.mp spelled
    exact ih (continues.serve first) later

/-- Keys echo once each. A console that was typed keys is read by any number of sources, each of
which takes up what the one before it parked and makes any number of scans. After every scan
the units echoed, then the one looked at, then the keys not yet read are the keys typed; what
was put back are the units echoed last; and the echo reaches exactly as far as was ever
consumed. -/
theorem keys_echo_once (keys : List (Option (CodeUnit w))) (sessions : List (ConsoleSession w))
    (last : ConsoleSession w)
    (spelled : ∀ session ∈ last :: sessions, ∀ unit ∈ (Console.ofKeys keys).rest,
      session.page.Spells unit) :
    let typed := (Console.ofKeys keys).rest
    let after := (sessions.foldl serve (ofKeys keys)).scanned last
    let source := after.source
    source.console.echoed ++ source.lookahead.toList ++ source.console.rest = typed ∧
      source.pushed <:+ source.console.echoed ∧
      source.console.echoed = typed.take (after.consumed + source.pushed.length) := by
  intro typed after source
  obtain ⟨here, earlier⟩ := List.forall_mem_cons.mp spelled
  have continues := (continues_ofKeys keys).serveAll earlier
  exact (continues.scanned here).echo

/-- The sign of no number is echoed by the scan that gives it back, and not once more by the
next source, which reads it as part of a word. -/
theorem given_back_sign_echoes_once :
    let rules : Rules := ⟨.plain, .c⟩
    let keys := (Text.ofString .wide "-q").map some
    let number : ConsoleSession .wide :=
      ⟨.windows1252, [⟨rules, Text.ofString .wide "%d", [.integer ⟨true, .word⟩ 0]⟩]⟩
    let word : ConsoleSession .wide :=
      ⟨.latin1, [⟨rules, Text.ofString .wide "%s", [.buffer .wide (List.replicate 4 .nul)]⟩]⟩
    let between := (ofKeys keys).scanned number
    let after := ((ofKeys keys).serve number).scanned word
    (∀ session ∈ [word, number], ∀ unit ∈ (Console.ofKeys keys).rest,
        session.page.Spells unit) ∧
      between.source.pushed = Text.ofString .wide "-" ∧
      between.source.console.echoed = Text.ofString .wide "-" ∧
      after.source.console.echoed = Text.ofString .wide "-q" := by
  intro rules keys number word between after
  have spelled : ∀ session ∈ [word, number], ∀ unit ∈ (Console.ofKeys keys).rest,
      session.page.Spells unit := by decide +kernel
  obtain ⟨-, -, echo⟩ := keys_echo_once keys [] number fun session member =>
    spelled session (List.mem_cons_of_mem word member)
  obtain ⟨-, -, echo'⟩ := keys_echo_once keys [number] word spelled
  have pushed : between.source.pushed = Text.ofString .wide "-" := by decide +kernel
  have reached : (Console.ofKeys keys).rest.take (between.consumed + between.source.pushed.length) =
      Text.ofString .wide "-" := by decide +kernel
  have reached' : (Console.ofKeys keys).rest.take (after.consumed + after.source.pushed.length) =
      Text.ofString .wide "-q" := by decide +kernel
  exact ⟨spelled, pushed, echo.trans reached, echo'.trans reached'⟩

end SharedConsole

end FormattedInput
