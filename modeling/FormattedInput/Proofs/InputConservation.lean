import FormattedInput.Proofs.StreamDelivery
import FormattedInput.Proofs.TextScan
import FormattedInput.StandardInput
import Mathlib.Data.List.Induction

/-!
The calls on a process's standard input lose, repeat and reorder nothing. Each call
reads what is parked for it and then what is unread, as if both lay in memory, and
what it does not consume is parked or unread again, in the same order. -/
namespace FormattedInput

namespace CodePage

theorem toNarrow_toWide (page : CodePage) (byte : Byte) :
    page.toNarrow (page.toWide byte) = byte := by
  have every : ∀ code : Fin 256, (page.toNarrow (page.toWide (.ofNat .narrow code.val))).code =
      code.val := by
    cases page <;> decide +kernel
  have same : CodeUnit.ofNat .narrow byte.code = byte :=
    CodeUnit.ext (CodeUnit.code_ofNat byte.code_lt)
  have back := every ⟨byte.code, byte.code_lt⟩
  simp only [same] at back
  exact CodeUnit.ext back

end CodePage

namespace CodeUnit

theorem convert_back (page : CodePage) (w : Width) (byte : Byte) :
    CodeUnit.convert page .narrow (CodeUnit.convert page w byte) = byte := by
  cases w with
  | narrow => rfl
  | wide => exact page.toNarrow_toWide byte

theorem map_convert_back (page : CodePage) (w : Width) (bytes : List Byte) :
    (bytes.map (CodeUnit.convert page w)).map (CodeUnit.convert page .narrow) = bytes := by
  rw [List.map_map]
  exact (List.map_congr_left fun byte _ => convert_back page w byte).trans (List.map_id bytes)

theorem drop_convert_back (page : CodePage) (w : Width) (count : Nat) (bytes : List Byte) :
    ((bytes.map (CodeUnit.convert page w)).drop count).map (CodeUnit.convert page .narrow) =
      bytes.drop count := by
  rw [← List.map_drop, map_convert_back]

end CodeUnit

theorem Leftover.units_convert {w : Width} (page : CodePage) (target : Width)
    (left : Leftover w) :
    (left.convert page target).units = left.units.map (CodeUnit.convert page target) := by
  rw [convert, units, units, List.map_append, Option.toList_map]

/-- Over a source that follows a text, a scan does what it does over the text, and
what it did not consume is left. -/
theorem scan_follows {σ : Type} {w : Width} [UnitSource σ w] {same : σ → TextSource w → Prop}
    (follows : Follows same) (rules : Rules) (format : Text w) (slots : List Slot) {source : σ}
    {units : Text w} (related : same source ⟨[], units⟩) :
    let memory := scan rules format slots (⟨[], units⟩ : TextSource w)
    (scan rules format slots source).report = memory.report ∧
      (scan rules format slots source).slots = memory.slots ∧
      ∃ left, same (scan rules format slots source).source left ∧
        left.after = units.drop memory.report.consumed := by
  obtain ⟨report, stored, last⟩ := scan_tracks follows rules format slots related
  obtain ⟨moved, -⟩ := scan_source rules format slots (⟨[], units⟩ : TextSource w)
  refine ⟨report, stored, _, last, ?_⟩
  rw [moved, TextSource.after_forward]

inductive Parking where
  | stream
  | console
deriving DecidableEq

def Origin.parking : Origin → Parking
  | console => .console
  | text | countedText | stream | standardInput => .stream

namespace StandardInput

def parked (parking : Parking) (input : StandardInput) : List Byte :=
  match parking with
  | .stream => input.streamParked
  | .console => input.consoleParked

def pending (parking : Parking) (input : StandardInput) : List Byte :=
  input.parked parking ++ input.unread

def widening (parking : Parking) (locale : Locale) : CodePage :=
  match parking with
  | .stream => locale.page
  | .console => .latin1

/-- The call over a text in memory that holds the bytes in front of it. -/
def inMemory (entry : EntryPoint) (current : Locale) (request : Call entry.width)
    (input : StandardInput) : Scan (TextSource entry.width) :=
  let page := widening entry.origin.parking (entry.rules current request).locale
  entry.run current request
    ⟨[], (input.pending entry.origin.parking).map (CodeUnit.convert page entry.width)⟩

/-- What a call returns, stores and leaves behind, told by the call in memory. -/
structure Serves (parking : Parking) {w : Width} (memory : Scan (TextSource w))
    (input : StandardInput) (answer : (Report × List Slot) × StandardInput) : Prop where
  result : answer.1 = (memory.report, memory.slots)
  left : answer.2.pending parking = (input.pending parking).drop memory.report.consumed
  unread : answer.2.unread <:+ input.unread
  others : ∀ other, other ≠ parking → answer.2.parked other = input.parked other

theorem rest_ofBytes (bytes : List Byte) : (ByteReader.ofBytes bytes).rest = bytes :=
  List.append_nil bytes

theorem units_resume (page : CodePage) (w : Width) (parked : ParkedInput) :
    (parked.resume page w).units = parked.bytes.units.map (CodeUnit.convert page w) :=
  Leftover.units_convert page w parked.bytes

theorem units_park {w : Width} (page : CodePage) (left : Leftover w) :
    (ParkedInput.park page left).bytes.units = left.units.map (CodeUnit.convert page .narrow) :=
  Leftover.units_convert page .narrow left

theorem scanBytes_serves (rules : Rules) (format : Text .narrow) (slots : List Slot)
    (page : CodePage) (input : StandardInput) :
    Serves .stream (scan rules format slots
      (⟨[], (input.pending .stream).map (CodeUnit.convert page .narrow)⟩ :
        TextSource .narrow)) input
      (input.scanBytes rules format slots) := by
  have others (other : Parking) (apart : other ≠ .stream) :
      (input.scanBytes rules format slots).2.parked other = input.parked other := by
    cases other with
    | stream => contradiction
    | console => rfl
  have same (page : CodePage) (bytes : List Byte) :
      bytes.map (CodeUnit.convert page .narrow) = bytes := List.map_id bytes
  have related : ByteStream.Delivers input.unread
      (ByteStream.resume (.ofBytes input.unread) (input.stream.resume .latin1 .narrow))
      ⟨[], input.pending .stream⟩ := by
    refine ⟨⟨rfl, fun _ member => nomatch member⟩, ?_, ?_⟩
    · simp only [ByteStream.resume, Feed.ofReader, rest_ofBytes, units_resume, same, pending,
        parked, streamParked]
    · exact (rest_ofBytes input.unread).symm ▸ List.suffix_rfl
  obtain ⟨report, stored, left, delivers, after⟩ :=
    scan_follows (ByteStream.follows input.unread) rules format slots related
  rw [same]
  refine ⟨Prod.ext report stored, ?_, delivers.front, others⟩
  rw [pending, parked, ← after, ← delivers.units]
  simp only [scanBytes, streamParked, units_park, same]
  simp only [ByteStream.park, Leftover.units, Option.toList_none, List.append_nil]

theorem scanWide_serves (rules : Rules) (format : Text .wide) (slots : List Slot)
    (input : StandardInput) :
    Serves .stream (scan rules format slots
      (⟨[], (input.pending .stream).map (CodeUnit.convert rules.locale.page .wide)⟩ :
        TextSource .wide)) input
      (input.scanWide rules format slots) := by
  have others (other : Parking) (apart : other ≠ .stream) :
      (input.scanWide rules format slots).2.parked other = input.parked other := by
    cases other with
    | stream => contradiction
    | console => rfl
  have related : WideStream.Delivers rules.locale.page input.unread
      (WideStream.resume (.text rules.locale.page) (.ofBytes input.unread)
        (input.stream.resume rules.locale.page .wide))
      ⟨[], (input.pending .stream).map (CodeUnit.convert rules.locale.page .wide)⟩ := by
    refine ⟨⟨rfl, fun _ member => nomatch member⟩, rfl, ?_, ?_⟩
    · have held := units_resume rules.locale.page .wide input.stream
      rw [Leftover.units] at held
      simp only [WideStream.resume, Feed.ofReader, rest_ofBytes, held, pending, parked,
        streamParked, List.map_append]
      rfl
    · exact (rest_ofBytes input.unread).symm ▸ List.suffix_rfl
  obtain ⟨report, stored, left, delivers, after⟩ :=
    scan_follows (WideStream.follows rules.locale.page input.unread) rules format slots related
  refine ⟨Prod.ext report stored, ?_, delivers.front, others⟩
  have back (bytes : List Byte) : (bytes.map rules.locale.page.toWide).map
      (CodeUnit.convert rules.locale.page .narrow) = bytes :=
    CodeUnit.map_convert_back rules.locale.page .wide bytes
  rw [← CodeUnit.drop_convert_back rules.locale.page .wide, ← after, ← delivers.units, pending,
    parked, List.map_append, back]
  simp only [scanWide, streamParked, units_park]
  rfl

theorem scanConsole_serves {w : Width} (rules : Rules) (format : Text w) (slots : List Slot)
    (input : StandardInput) :
    Serves .console (scan rules format slots
      (⟨[], (input.pending .console).map (CodeUnit.convert .latin1 w)⟩ : TextSource w)) input
      (input.scanConsole rules format slots) := by
  have others (other : Parking) (apart : other ≠ .console) :
      (input.scanConsole rules format slots).2.parked other = input.parked other := by
    cases other with
    | stream => rfl
    | console => contradiction
  have related : ConsoleStream.Delivers (input.unread.map (CodeUnit.convert .latin1 w))
      (ConsoleStream.resume (.ofTerminal w input.unread) (input.console.resume .latin1 w))
      ⟨[], (input.pending .console).map (CodeUnit.convert .latin1 w)⟩ := by
    refine ⟨input.unread.map (CodeUnit.convert .latin1 w), rfl, ?_, List.suffix_rfl⟩
    have held := units_resume .latin1 w input.console
    rw [Leftover.units] at held
    simp only [ConsoleStream.resume, held, pending, parked, consoleParked, List.map_append]
  obtain ⟨report, stored, left, ⟨rest, keys, units, front⟩, after⟩ :=
    scan_follows (ConsoleStream.follows _) rules format slots related
  have unread : (input.scanConsole rules format slots).2.unread =
      rest.map (CodeUnit.convert .latin1 .narrow) := by
    simp only [scanConsole, Console.terminalRest, Console.rest, keys, List.filterMap_map]
    simp
  refine ⟨Prod.ext report stored, ?_, ?_, others⟩
  · rw [← CodeUnit.drop_convert_back .latin1 w, ← after, ← units, pending, unread, List.map_append]
    simp only [scanConsole, parked, consoleParked, units_park]
    rfl
  · have typed := front.map (CodeUnit.convert .latin1 .narrow)
    rwa [CodeUnit.map_convert_back, ← unread] at typed

theorem call_serves (entry : EntryPoint) (current : Locale) (request : Call entry.width)
    (input : StandardInput) :
    Serves entry.origin.parking (input.inMemory entry current request) input
      (input.call entry current request) := by
  obtain ⟨width, origin, policy, takesLocale⟩ := entry
  cases origin with
  | console => exact scanConsole_serves _ request.format request.slots input
  | text | countedText | stream | standardInput =>
    cases width with
    | narrow => exact scanBytes_serves _ request.format request.slots _ input
    | wide => exact scanWide_serves _ request.format request.slots input

end StandardInput

structure Request where
  entry : EntryPoint
  current : Locale
  call : Call entry.width

namespace StandardInput

def serve (input : StandardInput) (request : Request) : StandardInput :=
  (input.call request.entry request.current request.call).2

def serveAll (requests : List Request) (input : StandardInput) : StandardInput :=
  requests.foldl serve input

def consumption (input : StandardInput) (request : Request) : Nat :=
  (input.inMemory request.entry request.current request.call).report.consumed

end StandardInput

inductive Whereabouts where
  | consumedBy (call : Nat)
  | parkedAt (parking : Parking)
  | unread
deriving DecidableEq

/-- The bytes of an input in order, each in its one place. -/
abbrev Ledger := List (Byte × Whereabouts)

namespace Ledger

def held (place : Whereabouts) (ledger : Ledger) : List Byte :=
  (ledger.filter fun entry => entry.2 = place).map Prod.fst

def allAt (place : Whereabouts) (bytes : List Byte) : Ledger := bytes.map fun byte => (byte, place)

def move (origin target : Whereabouts) : Nat → Ledger → Ledger
  | 0, ledger => ledger
  | _, [] => []
  | count + 1, (byte, place) :: ledger =>
    if place = origin then (byte, target) :: move origin target count ledger
    else (byte, place) :: move origin target (count + 1) ledger

@[simp] theorem held_nil (place : Whereabouts) : held place [] = [] := rfl

theorem held_cons (place other : Whereabouts) (byte : Byte) (ledger : Ledger) :
    held place ((byte, other) :: ledger) =
      if other = place then byte :: held place ledger else held place ledger := by
  by_cases same : other = place <;> simp [held, same]

@[simp] theorem held_append (place : Whereabouts) (first second : Ledger) :
    held place (first ++ second) = held place first ++ held place second := by
  simp [held]

theorem held_allAt (place other : Whereabouts) (bytes : List Byte) :
    held place (allAt other bytes) = if other = place then bytes else [] := by
  induction bytes with
  | nil => split <;> rfl
  | cons byte bytes ih =>
    rw [allAt, List.map_cons, held_cons, ← allAt, ih]
    split <;> rfl

theorem map_fst_allAt (place : Whereabouts) (bytes : List Byte) :
    (allAt place bytes).map Prod.fst = bytes := by
  rw [allAt, List.map_map]
  exact List.map_id bytes

variable {origin target : Whereabouts}

theorem map_fst_move (origin target : Whereabouts) (count : Nat) (ledger : Ledger) :
    (move origin target count ledger).map Prod.fst = ledger.map Prod.fst := by
  fun_induction move origin target count ledger with
  | case1 => rfl
  | case2 => rfl
  | case3 count byte ledger ih => rw [List.map_cons, List.map_cons, ih]
  | case4 count byte place ledger other ih => rw [List.map_cons, List.map_cons, ih]

theorem held_origin_move (apart : target ≠ origin) (count : Nat) (ledger : Ledger) :
    held origin (move origin target count ledger) = (held origin ledger).drop count := by
  fun_induction move origin target count ledger with
  | case1 => rfl
  | case2 => rw [held_nil, List.drop_nil]
  | case3 count byte ledger ih =>
    rw [held_cons, held_cons, if_neg apart, if_pos rfl, ih]
    rfl
  | case4 count byte place ledger other ih =>
    rw [held_cons, held_cons, if_neg other, if_neg other, ih]

theorem held_target_move (count : Nat) {ledger : Ledger} (apart : target ≠ origin)
    (fresh : held target ledger = []) :
    held target (move origin target count ledger) = (held origin ledger).take count := by
  fun_induction move origin target count ledger with
  | case1 ledger => rw [fresh, List.take_zero]
  | case2 => rw [held_nil, held_nil, List.take_nil]
  | case3 count byte ledger ih =>
    rw [held_cons, if_neg apart.symm] at fresh
    rw [held_cons, held_cons, if_pos rfl, if_pos rfl, ih fresh]
    rfl
  | case4 count byte place ledger other ih =>
    rw [held_cons] at fresh
    by_cases there : place = target
    · simp [there] at fresh
    · rw [if_neg there] at fresh
      rw [held_cons, held_cons, if_neg there, if_neg other, ih fresh]

theorem held_other_move {place : Whereabouts} (spared : place ≠ origin) (apart : place ≠ target)
    (count : Nat) (ledger : Ledger) :
    held place (move origin target count ledger) = held place ledger := by
  fun_induction move origin target count ledger with
  | case1 => rfl
  | case2 => rfl
  | case3 count byte ledger ih =>
    rw [held_cons, held_cons, if_neg apart.symm, if_neg spared.symm, ih]
  | case4 count byte other ledger elsewhere ih => rw [held_cons, held_cons, ih]

end Ledger

namespace StandardInput

def consumedBytes (requests : List Request) (input : StandardInput) (call : Nat) : List Byte :=
  match requests[call]? with
  | none => []
  | some request =>
    let before := input.serveAll (requests.take call)
    (before.pending request.entry.origin.parking).take (before.consumption request)

/-- A ledger of the bytes that were ever read by a sequence of calls. -/
structure Accounts (bytes : List Byte) (requests : List Request) (read : Ledger) : Prop where
  whole : read.map Prod.fst ++ (serveAll requests (ofBytes bytes)).unread = bytes
  parked : ∀ parking, read.held (.parkedAt parking) =
    (serveAll requests (ofBytes bytes)).parked parking
  unread : read.held .unread = []
  consumed : ∀ call, read.held (.consumedBy call) = consumedBytes requests (ofBytes bytes) call

theorem serveAll_snoc (requests : List Request) (request : Request) (input : StandardInput) :
    serveAll (requests ++ [request]) input = (serveAll requests input).serve request := by
  rw [serveAll, List.foldl_append]
  rfl

theorem consumedBytes_snoc (requests : List Request) (request : Request) (input : StandardInput)
    (call : Nat) :
    consumedBytes (requests ++ [request]) input call =
      if call = requests.length then
        ((serveAll requests input).pending request.entry.origin.parking).take
          ((serveAll requests input).consumption request)
      else consumedBytes requests input call := by
  unfold consumedBytes
  by_cases last : call = requests.length
  · simp [last]
  · rw [if_neg last]
    by_cases earlier : call < requests.length
    · rw [List.getElem?_append_left earlier, List.take_append_of_le_length (Nat.le_of_lt earlier)]
    · have none : requests[call]? = none := List.getElem?_eq_none (by omega)
      have beyond : (requests ++ [request])[call]? = .none :=
        List.getElem?_eq_none (by rw [List.length_append, List.length_singleton]; omega)
      rw [none, beyond]

theorem split_read {kept read unread : List Byte} {count : Nat}
    (left : kept ++ unread = (read ++ unread).drop count) :
    kept = read.drop count ∧ (read ++ unread).take count = read.take count := by
  have lengths := congrArg List.length left
  simp only [List.length_append, List.length_drop] at lengths
  by_cases within : count ≤ read.length
  · rw [List.drop_append_of_le_length within] at left
    exact ⟨List.append_cancel_right left, List.take_append_of_le_length within⟩
  · have empty : unread = [] := List.length_eq_zero_iff.mp (by omega)
    subst empty
    simp only [List.append_nil] at left ⊢
    exact ⟨left, trivial⟩

theorem accounts_serve {bytes : List Byte} {requests : List Request} {read : Ledger}
    (accounts : Accounts bytes requests read) (request : Request) :
    ∃ further, Accounts bytes (requests ++ [request]) further := by
  obtain ⟨whole, parked, unread, consumed⟩ := accounts
  have bought := consumedBytes_snoc requests request (ofBytes bytes)
  have served := serveAll_snoc requests request (ofBytes bytes)
  generalize serveAll requests (ofBytes bytes) = input at whole parked bought served
  have serves := call_serves request.entry request.current request.call input
  obtain ⟨taken, split⟩ := serves.unread
  have left := serves.left
  rw [pending, pending, ← split, ← List.append_assoc] at left
  obtain ⟨kept, gone⟩ := split_read left
  -- No byte was consumed by a call that has not been made.
  have fresh : read.held (.consumedBy requests.length) = [] := by
    rw [consumed, consumedBytes, List.getElem?_eq_none (Nat.le_refl _)]
  have moved : Whereabouts.consumedBy requests.length ≠
      .parkedAt request.entry.origin.parking := Whereabouts.noConfusion
  -- What the call read is parked first, then the front of its parking is consumed.
  refine ⟨Ledger.move (.parkedAt request.entry.origin.parking) (.consumedBy requests.length)
    (input.consumption request)
    (read ++ Ledger.allAt (.parkedAt request.entry.origin.parking) taken), ?_, ?_, ?_, ?_⟩
  · rw [Ledger.map_fst_move, List.map_append, Ledger.map_fst_allAt, served, List.append_assoc]
    exact (congrArg (read.map Prod.fst ++ ·) split).trans whole
  · intro parking
    rw [served]
    by_cases same : parking = request.entry.origin.parking
    · subst same
      rw [Ledger.held_origin_move moved, Ledger.held_append, Ledger.held_allAt, if_pos rfl, parked]
      exact kept.symm
    · rw [Ledger.held_other_move (by simpa using same) Whereabouts.noConfusion, Ledger.held_append,
        Ledger.held_allAt, if_neg (by simpa using Ne.symm same), List.append_nil, parked]
      exact (serves.others parking same).symm
  · rw [Ledger.held_other_move Whereabouts.noConfusion Whereabouts.noConfusion, Ledger.held_append,
      Ledger.held_allAt, if_neg Whereabouts.noConfusion, List.append_nil, unread]
  · intro call
    rw [bought]
    by_cases last : call = requests.length
    · subst last
      rw [if_pos rfl, Ledger.held_target_move _ moved, Ledger.held_append, Ledger.held_allAt,
        if_pos rfl, parked]
      · rw [pending, ← split, ← List.append_assoc]
        exact gone.symm
      · rw [Ledger.held_append, Ledger.held_allAt, if_neg moved.symm, List.append_nil, fresh]
    · rw [if_neg last, Ledger.held_other_move Whereabouts.noConfusion (by simpa using last),
        Ledger.held_append, Ledger.held_allAt, if_neg Whereabouts.noConfusion, List.append_nil,
        consumed]

theorem accounts_serveAll (bytes : List Byte) (requests : List Request) :
    ∃ read, Accounts bytes requests read := by
  -- By the last call, as a ledger grows at its end.
  induction requests using List.reverseRecOn with
  | nil =>
    refine ⟨[], rfl, ?_, rfl, fun _ => rfl⟩
    intro parking
    cases parking <;> rfl
  | append_singleton requests request ih =>
    obtain ⟨read, accounts⟩ := ih
    exact accounts_serve accounts request

/-- Each call on the standard input does what it does over a text in memory that holds
the bytes parked for it and then the unread ones. It leaves what it did not consume in
that order, and what is parked elsewhere as it was. After any number of calls, every
byte has been consumed by one of them or is parked in one place or is unread. -/
theorem calls_conserve_input (bytes : List Byte) (requests : List Request) :
    (∀ call : Fin requests.length,
      let input := serveAll (requests.take call) (ofBytes bytes)
      let request := requests[call]
      Serves request.entry.origin.parking
        (input.inMemory request.entry request.current request.call) input
        (input.call request.entry request.current request.call)) ∧
    ∃ ledger : Ledger, ledger.map Prod.fst = bytes ∧
      (∀ parking, ledger.held (.parkedAt parking) =
        (serveAll requests (ofBytes bytes)).parked parking) ∧
      ledger.held .unread = (serveAll requests (ofBytes bytes)).unread ∧
      ∀ call, ledger.held (.consumedBy call) = consumedBytes requests (ofBytes bytes) call := by
  constructor
  · intro call
    exact call_serves _ _ _ _
  · obtain ⟨read, whole, parked, unread, consumed⟩ := accounts_serveAll bytes requests
    refine ⟨read ++ Ledger.allAt .unread (serveAll requests (ofBytes bytes)).unread,
      ?_, ?_, ?_, ?_⟩
    · rw [List.map_append, Ledger.map_fst_allAt, whole]
    · intro parking
      rw [Ledger.held_append, Ledger.held_allAt, if_neg Whereabouts.noConfusion, List.append_nil,
        parked]
    · rw [Ledger.held_append, Ledger.held_allAt, if_pos rfl, unread, List.nil_append]
    · intro call
      rw [Ledger.held_append, Ledger.held_allAt, if_neg Whereabouts.noConfusion, List.append_nil,
        consumed]

end StandardInput

end FormattedInput
