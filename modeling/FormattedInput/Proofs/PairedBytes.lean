import FormattedInput.Proofs.StreamDelivery
import FormattedInput.Proofs.StreamQueue

/-!
A stream of two bytes a unit is a queue of pairs. A failed read or an early end of the file
breaks the row of bytes: a byte that waits for its partner there is lost, and pairing starts
afresh behind the break. As long as no break falls inside a unit, the bytes of the script are
delivered two by two. Where one does, the units behind it are made of the wrong bytes. -/
namespace FormattedInput

def CodeUnit.ofBytes (low high : Byte) : CodeUnit .wide :=
  .ofNat .wide (low.code + 256 * high.code)

/-- The units that bytes make two by two. An odd one at the end makes none. -/
def pairs : List Byte → Text .wide
  | low :: high :: bytes => .ofBytes low high :: pairs bytes
  | [_] | [] => []

/-- What a row of bytes comes to when it is read two by two. A byte with no byte right behind it
is lost. -/
def Item.paired : List (Item .narrow) → List (Item .wide)
  | .unit low :: .unit high :: later => .unit (.ofBytes low high) :: paired later
  | .unit _ :: later => paired later
  | .endOfFile :: later => .endOfFile :: paired later
  | .failure reason :: later => .failure reason :: paired later
  | [] => []

/-- Each read that fails or meets the end of the file has whole units in front of it. -/
def BreaksBetweenUnits (script : List ReadEvent) : Prop :=
  ∀ before event after, script = before ++ event :: after → ¬ event.IsSteady →
    (before.flatMap ReadEvent.bytes).length % 2 = 0

def Queue.paired (bytes : Queue .narrow) : Queue .wide :=
  ⟨[], bytes.held, Item.paired bytes.coming⟩

theorem Queue.paired_stopped {held : Option String} {coming : List (Item .narrow)}
    (stopped : (Queue.mk [] held coming).front = none) :
    (Queue.mk [] held coming).paired.front = none ∧
      (Queue.mk [] held coming).paired.take = (Queue.mk [] held coming).take.paired := by
  cases held with
  | some reason => exact ⟨rfl, rfl⟩
  | none =>
    cases coming with
    | nil => exact ⟨rfl, rfl⟩
    | cons item later =>
      cases item with
      | unit byte => cases stopped
      | endOfFile | failure reason => exact ⟨rfl, rfl⟩

theorem Item.paired_alone {later : List (Item .narrow)} (low : Byte)
    (stopped : (Queue.mk [] none later).front = none) :
    Item.paired (.unit low :: later) = Item.paired later := by
  cases later with
  | nil => rfl
  | cons item later =>
    cases item with
    | unit high => cases stopped
    | endOfFile | failure reason => rfl

namespace WideStream

def SuppliesPaired (feed : Feed) (held : Option String) (coming : List (Item .wide)) : Prop :=
  ∃ bytes, feed.Supplies id held bytes ∧ coming = Item.paired bytes

theorem decodesItems_utf16le : DecodesItems .utf16le SuppliesPaired where
  decode := by
    rintro feed held coming ⟨bytes, supplies, rfl⟩
    obtain ⟨low, further⟩ := supplies.take
    rw [Option.map_id_apply] at low
    -- A unit takes two bytes; the first or the second read may be the one that stops.
    cases front : Queue.front ⟨[], held, bytes⟩ with
    | none =>
      obtain ⟨nothing, left⟩ := Queue.paired_stopped front
      have taken : feed.take = (none, feed.take.2) := Prod.ext (low.trans front) rfl
      rw [decode, taken]
      exact ⟨nothing.symm, _, (congrArg Queue.held left) ▸ further, congrArg Queue.coming left⟩
    | some byte =>
      obtain ⟨rfl, later, rfl⟩ := Queue.coming_of_front rfl front
      have taken : feed.take = (some byte, feed.take.2) := Prod.ext (low.trans front) rfl
      rw [Queue.take, front] at further
      have behind : feed.take.2.Supplies id none later := further
      obtain ⟨high, last⟩ := behind.take
      rw [Option.map_id_apply] at high
      rw [decode, taken]
      simp only
      rw [high]
      cases next : Queue.front ⟨[], none, later⟩ with
      | none =>
        obtain ⟨nothing, left⟩ := Queue.paired_stopped next
        rw [Item.paired_alone byte next]
        exact ⟨nothing.symm, _, (congrArg Queue.held left) ▸ last, congrArg Queue.coming left⟩
      | some partner =>
        obtain ⟨-, rest, rfl⟩ := Queue.coming_of_front rfl next
        exact ⟨rfl, rest, last, rfl⟩
  failure := fun ⟨_, supplies, _⟩ => supplies.failure
  clear := fun _ ⟨bytes, supplies, paired⟩ => ⟨bytes, ⟨rfl, supplies.items⟩, paired⟩

end WideStream

theorem pairs_append {bytes : List Byte} (whole : bytes.length % 2 = 0) (later : List Byte) :
    pairs (bytes ++ later) = pairs bytes ++ pairs later := by
  fun_induction pairs bytes with
  | case1 low high bytes ih =>
    simp only [List.length_cons] at whole
    simp only [List.cons_append, pairs, ih (by omega)]
  | case2 last => simp at whole
  | case3 => rfl

theorem Item.paired_append {bytes : List Byte} (whole : bytes.length % 2 = 0)
    (later : List (Item .narrow)) :
    paired (bytes.map .unit ++ later) = (pairs bytes).map .unit ++ paired later := by
  fun_induction pairs bytes with
  | case1 low high bytes ih =>
    simp only [List.length_cons] at whole
    simp only [List.map_cons, List.cons_append, paired, ih (by omega)]
  | case2 last => simp at whole
  | case3 => rfl

theorem Item.paired_units (bytes : List Byte) :
    paired (bytes.map .unit) = (pairs bytes).map .unit := by
  fun_induction pairs bytes with
  | case1 low high bytes ih => simp only [List.map_cons, paired, ih]
  | case2 last => rfl
  | case3 => rfl

theorem Item.units_map {w : Width} (units : Text w) :
    (units.map Item.unit).filterMap unit? = units := by
  rw [List.filterMap_map]
  exact List.filterMap_some

theorem ReadEvent.items_steady {event : ReadEvent} (steady : event.IsSteady) :
    event.items id = event.bytes.map .unit := by
  cases event with
  | chunk bytes =>
    cases bytes with
    | nil => exact absurd rfl steady
    | cons byte bytes => rfl
  | interrupted => rfl
  | failed reason => exact steady.elim

theorem ReadEvent.units_broken {event : ReadEvent} (breaks : ¬ event.IsSteady)
    (later : List (Item .narrow)) :
    event.bytes = [] ∧ (Item.paired (event.items id ++ later)).filterMap Item.unit? =
      (Item.paired later).filterMap Item.unit? := by
  cases event with
  | chunk bytes =>
    cases bytes with
    | nil => exact ⟨rfl, rfl⟩
    | cons byte bytes => exact absurd (List.cons_ne_nil byte bytes) breaks
  | interrupted => exact absurd trivial breaks
  | failed reason => exact ⟨rfl, rfl⟩

theorem units_paired_script {script : List ReadEvent} (pending : List Byte)
    (between : ∀ before event after, script = before ++ event :: after → ¬ event.IsSteady →
      (pending ++ before.flatMap ReadEvent.bytes).length % 2 = 0) :
    (Item.paired (pending.map .unit ++ script.flatMap (ReadEvent.items id))).filterMap Item.unit? =
      pairs (pending ++ script.flatMap ReadEvent.bytes) := by
  -- `pending` holds the bytes read since the last break, an even number of them at the next.
  induction script generalizing pending with
  | nil =>
    rw [List.flatMap_nil, List.flatMap_nil, List.append_nil, List.append_nil, Item.paired_units,
      Item.units_map]
  | cons event script ih =>
    have later (before : List ReadEvent) (broken : ReadEvent) (after : List ReadEvent)
        (split : script = before ++ broken :: after) (breaks : ¬ broken.IsSteady) :
        (pending ++ event.bytes ++ before.flatMap ReadEvent.bytes).length % 2 = 0 := by
      rw [List.append_assoc]
      exact between (event :: before) broken after (congrArg (event :: ·) split) breaks
    rw [List.flatMap_cons, List.flatMap_cons]
    by_cases steady : event.IsSteady
    · rw [ReadEvent.items_steady steady, ← List.append_assoc, ← List.map_append,
        ← List.append_assoc]
      exact ih (pending ++ event.bytes) later
    · have whole : pending.length % 2 = 0 := by
        simpa using between [] event script rfl steady
      obtain ⟨nothing, apart⟩ :=
        ReadEvent.units_broken steady (script.flatMap (ReadEvent.items id))
      have rest := ih [] fun before broken after split breaks => by
        have even := later before broken after split breaks
        rw [nothing, List.append_nil, List.length_append] at even
        rw [List.nil_append]
        omega
      rw [List.map_nil, List.nil_append, List.nil_append] at rest
      rw [Item.paired_append whole, List.filterMap_append, Item.units_map, apart, rest, nothing,
        List.nil_append, pairs_append whole]

/-- A stream of two bytes a unit reads its script as a queue of pairs, whatever is done to it and
however often it is handed over. As long as no read breaks a unit, what it delivered and what is
still to come are the bytes of the script two by two. -/
theorem pairs_read_in_order {script : List ReadEvent} {history : List (Handling .wide)}
    {now : WideStream}
    (handled : Handled (WideStream.ofReader .utf16le (.ofScript script)) history now) :
    let account := Account.ofHistory history
    let looked := UnitSource.peek now
    ∃ queue : Queue .wide,
      queue.Accounts (Item.paired (script.flatMap (ReadEvent.items id))) account ∧
        looked.1 = queue.front ∧ (FallibleSource.takeFailure now).1 = queue.held ∧
        (UnitSource.peek looked.2).1 = queue.look.front ∧
        (FallibleSource.takeFailure looked.2).1 = queue.look.held ∧
        (BreaksBetweenUnits script → account.delivered ++ queue.coming.filterMap Item.unit? =
          pairs (script.flatMap ReadEvent.bytes)) := by
  intro account looked
  have serves := WideStream.servesQueue WideStream.decodesItems_utf16le
  have started : WideStream.SuppliesPaired (.ofReader (.ofScript script)) none
      (Item.paired (script.flatMap (ReadEvent.items id))) := ⟨_, ⟨rfl, rfl⟩, rfl⟩
  obtain ⟨queue, standing, accounts⟩ :=
    handled.accounts serves (WideStream.stands_ofReader started)
  obtain ⟨shown, further⟩ := serves.peek standing
  refine ⟨queue, accounts, shown, (serves.takeFailure standing).1, (serves.peek further).1,
    (serves.takeFailure further).1, ?_⟩
  intro between
  obtain ⟨issued, whole, units, -⟩ := accounts.issued
  have all := units_paired_script [] between
  rw [← units, ← List.filterMap_append, ← whole]
  exact all

theorem failure_between_pairs :
    let script : List ReadEvent := [.chunk [.ofNat .narrow 0x41], .interrupted,
      .chunk [.ofNat .narrow 0x42], .failed "unplugged",
      .chunk [.ofNat .narrow 0x43, .ofNat .narrow 0x44]]
    let source : WideStream := .ofReader .utf16le (.ofScript script)
    let first : CodeUnit .wide := .ofNat .wide 0x4241
    let second : CodeUnit .wide := .ofNat .wide 0x4443
    let history : List (Handling .wide) := [.looked (some first), .consumed first, .looked none,
      .tookFailure (some "unplugged"), .looked (some second), .consumed second]
    ∃ now, Handled source history now ∧ BreaksBetweenUnits script ∧
      pairs (script.flatMap ReadEvent.bytes) = [first, second] ∧
      ∃ queue : Queue .wide,
        queue.Accounts (Item.paired (script.flatMap (ReadEvent.items id))) (.ofHistory history) ∧
        queue.coming.filterMap Item.unit? = [] := by
  intro script source first second history
  let shown := UnitSource.peek source
  let stopped := UnitSource.peek (UnitSource.consume shown.2)
  let taken := FallibleSource.takeFailure stopped.2
  let again := UnitSource.peek taken.2
  have looked : shown = (some first, shown.2) := Prod.ext (by decide +kernel) rfl
  have looked' : again = (some second, again.2) := Prod.ext (by decide +kernel) rfl
  have started : Handled source [] source := .start
  have handled := ((started.consume looked).look).takeFailure.consume looked'
  have answers : [.looked (some first), .consumed first] ++ [.looked stopped.1] ++
      [.tookFailure taken.1] ++ [.looked (some second), .consumed second] = history := by
    decide +kernel
  rw [List.nil_append, answers] at handled
  have between : BreaksBetweenUnits script := by
    intro before event after split breaks
    dsimp only [script] at split
    rcases before with _ | ⟨_, _ | ⟨_, _ | ⟨_, _ | ⟨_, _ | ⟨_, before⟩⟩⟩⟩⟩
    · rfl
    · cases split
      exact absurd trivial breaks
    · cases split
      exact absurd (List.cons_ne_nil _ _) breaks
    · cases split
      rfl
    · cases split
      rfl
    · simp at split
  have spelled : pairs (script.flatMap ReadEvent.bytes) = [first, second] := by decide +kernel
  have delivered : (Account.ofHistory history).delivered = [first, second] := by decide +kernel
  obtain ⟨queue, accounts, -, -, -, -, whole⟩ := pairs_read_in_order handled
  have rest := whole between
  rw [delivered, spelled] at rest
  exact ⟨_, handled, between, spelled, queue, accounts, List.append_right_eq_self.mp rest⟩

/-- A failure inside a unit: its first byte is lost, and the unit delivered behind it is made of
the second and the third, which is none of the pairs. -/
theorem failure_inside_pair :
    let script : List ReadEvent := [.chunk [.ofNat .narrow 0x41], .failed "unplugged",
      .chunk [.ofNat .narrow 0x42, .ofNat .narrow 0x43, .ofNat .narrow 0x44]]
    let source : WideStream := .ofReader .utf16le (.ofScript script)
    let torn : CodeUnit .wide := .ofNat .wide 0x4342
    let history : List (Handling .wide) := [.looked none, .tookFailure (some "unplugged"),
      .looked (some torn), .consumed torn]
    (∃ now, Handled source history now) ∧ .chunk [] ∉ script ∧
      (Account.ofHistory history).delivered = [torn] ∧
      pairs (script.flatMap ReadEvent.bytes) = [.ofNat .wide 0x4241, .ofNat .wide 0x4443] ∧
      ¬ (Account.ofHistory history).delivered <+: pairs (script.flatMap ReadEvent.bytes) := by
  intro script source torn history
  let stopped := UnitSource.peek source
  let taken := FallibleSource.takeFailure stopped.2
  let again := UnitSource.peek taken.2
  have looked : again = (some torn, again.2) := Prod.ext (by decide +kernel) rfl
  have started : Handled source [] source := .start
  have handled := started.look.takeFailure.consume looked
  have answers : [] ++ [.looked stopped.1] ++ [.tookFailure taken.1] ++
      [.looked (some torn), .consumed torn] = history := by decide +kernel
  rw [answers] at handled
  refine ⟨⟨_, handled⟩, ?_, ?_, ?_, ?_⟩ <;> decide +kernel

end FormattedInput
