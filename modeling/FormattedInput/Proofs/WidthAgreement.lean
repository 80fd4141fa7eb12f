import FormattedInput.Proofs.Demands
import FormattedInput.Proofs.SlotAgreement
import FormattedInput.Scan.Report

/-!
The narrow and the wide functions agree on ASCII. What a text conversion stores depends on the
width of the call, so each of the two calls hands in buffers of the width that it asks for. All
else in the argument lists is alike, and a directive that both calls execute leaves them alike:
they take the same arguments, read the same units, store the same codes and halt for the same
reason. -/
namespace FormattedInput

namespace Conversion

/-- The destinations that a narrow and a wide call give a conversion: to a text conversion the
buffers that it asks for in either call, to any other conversion the same kind of slot. -/
def IsGiven (asked : Conversion) (kind other : SlotKind) : Prop :=
  match asked.requirement? .narrow, asked.requirement? .wide with
  | some (.buffer w), some (.buffer w') => kind = .buffer w ∧ other = .buffer w'
  | _, _ => other = kind

instance (asked : Conversion) (kind other : SlotKind) : Decidable (asked.IsGiven kind other) := by
  unfold IsGiven
  split <;> infer_instance

theorem IsGiven.accepts {asked : Conversion} {kind other : SlotKind}
    {requirement requirement' : Requirement} (given : asked.IsGiven kind other)
    (needs : asked.requirement? .narrow = some requirement)
    (needs' : asked.requirement? .wide = some requirement') :
    (requirement' = requirement ∧ other = kind) ∨
      (requirement.accepts kind = true ∧ requirement'.accepts other = true) := by
  obtain ⟨suppress, width, length, conversion⟩ := asked
  cases conversion with
  | string swapped | chars swapped | charClass set =>
    cases needs
    cases needs'
    obtain ⟨rfl, rfl⟩ := given
    exact .inr ⟨beq_self_eq_true _, beq_self_eq_true _⟩
  | decimal | integer | octal | unsigned | hex | float | pointer | count =>
    cases needs
    cases needs'
    exact .inl ⟨rfl, given⟩
  | percent => cases needs

end Conversion

namespace Policy

/-- Two argument lists give every conversion among the directives the destination that it
asks for. -/
def Serves (policy : Policy) (place : Nat) (directives : List Directive)
    (kinds others : List SlotKind) : Prop :=
  ∀ entry ∈ policy.destinations place directives, ∀ kind ∈ kinds[entry.1]?,
    ∀ other ∈ others[entry.1]?, entry.2.IsGiven kind other

instance (policy : Policy) (place : Nat) (directives : List Directive)
    (kinds others : List SlotKind) :
    Decidable (policy.Serves place directives kinds others) := by
  unfold Serves
  infer_instance

section Serving

variable {policy : Policy} {place : Nat} {later : List Directive} {kinds others : List SlotKind}

theorem Serves.first {asked : Conversion}
    (serves : policy.Serves place (.conversion asked :: later) kinds others)
    (takes : asked.arity policy ≠ 0) :
    ∀ kind ∈ kinds[place]?, ∀ other ∈ others[place]?, asked.IsGiven kind other :=
  serves (place, asked) (mem_destinations_first takes place later)

theorem Serves.rest {directive : Directive}
    (serves : policy.Serves place (directive :: later) kinds others) :
    policy.Serves (place + directive.arity policy) later kinds others := by
  intro entry member
  exact serves entry (mem_destinations_rest policy place directive member)

end Serving

end Policy

section Taking

variable {agrees : Nat → Nat → Nat → Nat → Prop} {arguments others : Arguments}

theorem Arguments.Beside.destination (beside : Beside agrees arguments others) {policy : Policy}
    (index : Nat) {asked : Conversion}
    (given : asked.arity policy ≠ 0 → ∀ slot ∈ arguments.slots[arguments.taken]?,
      ∀ other ∈ others.slots[arguments.taken]?, asked.IsGiven slot.kind other.kind) :
    Carried id (Beside agrees) (policy.destination .narrow index asked arguments)
      (policy.destination .wide index asked others) := by
  cases suppressed : asked.suppress with
  | true =>
    simp only [Policy.destination, suppressed]
    exact ⟨rfl, beside⟩
  | false =>
    have needs := asked.requirement?_isNone .narrow
    have needs' := asked.requirement?_isNone .wide
    cases required : asked.requirement? .narrow with
    | none =>
      rw [required] at needs
      rw [← needs] at needs'
      have required' : asked.requirement? .wide = none := Option.isNone_iff_eq_none.mp needs'
      simp only [Policy.destination, suppressed, required, required']
      exact ⟨rfl, beside⟩
    | some requirement =>
      rw [required] at needs
      rw [← needs] at needs'
      obtain ⟨requirement', required'⟩ : ∃ other, asked.requirement? .wide = some other :=
        Option.isSome_iff_exists.mp (Option.isNone_eq_false_iff.mp needs')
      have takes : asked.arity policy ≠ 0 := by
        rw [Conversion.arity, suppressed, ← needs, Option.isNone_some, Bool.or_self,
          if_neg Bool.false_ne_true]
        split <;> decide
      simp only [Policy.destination, suppressed, required, required']
      -- Either both lists have ended, or both show a slot of the same size.
      rcases beside.next with ⟨next, next'⟩ | ⟨slot, other, after, after', next, next', here,
        here', alike, further⟩
      · rw [next, next']
        exact ⟨rfl, beside⟩
      · rw [next, next']
        obtain ⟨room, _, _, taken, taken', last⟩ :=
          (further.roomFor policy index asked.kind alike.size).split
        simp only [taken, taken', beside.taken]
        rcases (given takes slot here other here').accepts required required' with
          ⟨rfl, same⟩ | ⟨fits, fits'⟩
        · rw [same]
          split
          · exact ⟨rfl, last⟩
          · exact ⟨rfl, further⟩
        · rw [if_pos fits, if_pos fits']
          exact ⟨rfl, last⟩

end Taking

namespace Progress

variable {σ τ : Type} {same : σ → τ → Prop}
  {agrees : Nat → Nat → Nat → Nat → Prop} {small : Progress σ} {large : Progress τ}

/-- The states of the two scans in front of the same directive. -/
structure Beside (same : σ → τ → Prop) (agrees : Nat → Nat → Nat → Nat → Prop)
    (small : Progress σ) (large : Progress τ) : Prop where
  input : small.input.Matches same large.input
  arguments : small.arguments.Beside agrees large.arguments
  completed : large.completed = small.completed
  assigned : large.assigned = small.assigned

theorem store_beside (refl : ∀ place index code, agrees place index code code)
    {arguments others : Arguments} (beside : arguments.Beside agrees others) (page : CodePage)
    (destination : Option Destination) {content : Option (Content .narrow)}
    (ascii : ∀ stored ∈ content, stored.IsAscii) :
    (store page destination content arguments).Beside agrees
      (store page destination (content.map Content.widened) others) := by
  cases destination with
  | none => exact beside
  | some destination =>
    cases content with
    | none => exact beside
    | some content =>
      refine ⟨beside.taken, beside.slots.modify ?_⟩
      intro slot other alike
      exact alike.store (refl destination.place) page (ascii content rfl)

theorem Beside.record (beside : Beside same agrees small large) (asked : Conversion) :
    Beside same agrees (small.record asked) (large.record asked) where
  input := beside.input
  arguments := beside.arguments
  completed := congrArg (· + 1) beside.completed
  assigned := by simp only [Progress.record, beside.assigned]

def Gives (policy : Policy) (directives : List Directive) (small : Progress σ)
    (large : Progress τ) : Prop :=
  policy.Serves small.arguments.taken directives (small.arguments.slots.map Slot.kind)
    (large.arguments.slots.map Slot.kind)

variable [UnitSource σ .narrow] [UnitSource τ .wide]

theorem convert_beside (widens : Widens same)
    (refl : ∀ place index code, agrees place index code code) {rules : Rules}
    {asked : Conversion} {later : List Directive} (beside : Beside same agrees small large)
    (gives : Gives rules.policy (.conversion asked :: later) small large) :
    Carried id (Beside same agrees) (small.convert rules asked) (large.convert rules asked) := by
  have given (takes : asked.arity rules.policy ≠ 0) :
      ∀ slot ∈ small.arguments.slots[small.arguments.taken]?,
        ∀ other ∈ large.arguments.slots[small.arguments.taken]?,
          asked.IsGiven slot.kind other.kind := by
    intro slot here other here'
    apply gives.first takes
    · rw [List.getElem?_map, here]
      rfl
    · rw [List.getElem?_map, here']
      rfl
  obtain ⟨destination, taken, taken', granted, granted', further⟩ :=
    (beside.arguments.destination (small.completed + 1) given).split
  rw [id_eq] at granted'
  simp only [Progress.convert, beside.completed, granted, granted']
  cases destination with
  | error broken => exact ⟨rfl, beside.input, further, rfl, beside.assigned⟩
  | ok destination =>
    obtain ⟨carried, ascii⟩ := beside.input.convert widens rules (small.completed + 1) asked
      (destination.map Destination.room)
    obtain ⟨⟨content, halt⟩, after, after', read, read', related⟩ := carried.split
    rw [read] at ascii
    simp only [read, read', Result.widened]
    have stored := store_beside refl further rules.locale.page destination ascii
    cases halt with
    | some halt => exact ⟨rfl, related, stored, rfl, beside.assigned⟩
    | none =>
      refine ⟨rfl, Beside.record ?_ asked⟩
      exact ⟨related, stored, rfl, beside.assigned⟩

theorem execute_beside (widens : Widens same)
    (refl : ∀ place index code, agrees place index code code) {rules : Rules}
    {directive : Directive} {later : List Directive} (beside : Beside same agrees small large)
    (gives : Gives rules.policy (directive :: later) small large) :
    Carried id (Beside same agrees) (small.execute rules directive)
      (large.execute rules directive) := by
  cases directive with
  | whitespace =>
    exact ⟨rfl, beside.input.dropSpace widens, beside.arguments, beside.completed,
      beside.assigned⟩
  | literal code =>
    obtain ⟨halt, related⟩ := beside.input.takeLiteral widens code
    exact ⟨halt, related, beside.arguments, beside.completed, beside.assigned⟩
  | conversion asked => exact convert_beside widens refl beside gives

theorem Gives.rest {rules : Rules} {directive : Directive} {later : List Directive}
    (gives : Gives rules.policy (directive :: later) small large) {small' : Progress σ}
    {large' : Progress τ} (ran : small.execute rules directive = (none, small'))
    (ran' : large.execute rules directive = (none, large')) :
    Gives rules.policy later small' large' := by
  have kinds := kinds_execute rules directive small
  have kinds' := kinds_execute rules directive large
  rw [ran] at kinds
  rw [ran'] at kinds'
  unfold Gives
  rw [kinds, kinds', taken_goesOn ran]
  exact Policy.Serves.rest gives

theorem run_beside (widens : Widens same)
    (refl : ∀ place index code, agrees place index code code) {rules : Rules}
    {directives : List Directive} (beside : Beside same agrees small large)
    (gives : Gives rules.policy directives small large) :
    Carried id (Beside same agrees) (small.run rules directives) (large.run rules directives) := by
  induction directives generalizing small large with
  | nil => exact ⟨rfl, beside⟩
  | cons directive later ih =>
    obtain ⟨halt, small', large', ran, ran', further⟩ :=
      (execute_beside widens refl beside gives).split
    rw [id_eq] at ran'
    rw [run, run, ran, ran']
    cases halt with
    | some halt => exact ⟨rfl, further⟩
    | none => exact ih further (gives.rest ran ran')

theorem runFormat_beside (widens : Widens same)
    (refl : ∀ place index code, agrees place index code code) {rules : Rules}
    {reading : Format.Reading} (beside : Beside same agrees small large)
    (gives : Gives rules.policy reading.directives small large) :
    Carried id (Beside same agrees) (small.runFormat rules reading)
      (large.runFormat rules reading) := by
  obtain ⟨halt, small', large', ran, ran', further⟩ := (run_beside widens refl beside gives).split
  rw [id_eq] at ran'
  rw [runFormat, runFormat, ← Format.Reading.directives, ran, ran']
  cases halt with
  | some halt => exact ⟨rfl, further⟩
  | none => exact ⟨rfl, further⟩

end Progress

namespace TextSource

theorem position_widened (source : TextSource .narrow) :
    source.widened.position = source.position := source.before.length_widened

theorem ofText_widened (text : Text .narrow) : ofText text.widened = (ofText text).widened := by
  rw [ofText, Text.beforeNul_widened]
  rfl

end TextSource

def codeAt? (slots : List Slot) (place index : Nat) : Option Nat :=
  match slots[place]? with
  | some (.buffer _ units) => units.codes[index]?
  | _ => none

/-- What two elements hold once the calls that were handed these slots have returned: the same
code, or else what each held before. -/
def LeftAlike (narrow wide : List Slot) (place index code code' : Nat) : Prop :=
  code' = code ∨ codeAt? narrow place index = some code ∧ codeAt? wide place index = some code'

section Leaving

variable {narrow wide : List Slot}

theorem leftAlike_start (shaped : wide.map Slot.outline = narrow.map Slot.outline) :
    SlotsBeside (LeftAlike narrow wide) narrow wide := by
  have beside := SlotsBeside.of_outlines shaped
  refine ⟨beside.length, ?_⟩
  intro place slot other found found'
  cases beside.each found found' with
  | same slot => exact .same slot
  | text alike =>
    refine .text ⟨alike.length, ?_⟩
    intro index code code' shown shown'
    refine .inr ⟨?_, ?_⟩
    · rw [codeAt?, found]
      exact shown
    · rw [codeAt?, found']
      exact shown'

theorem holdings_left {slots others : List Slot}
    (left : SlotsBeside (LeftAlike narrow wide) slots others)
    (alike : wide.map Slot.holding = narrow.map Slot.holding) :
    others.map Slot.holding = slots.map Slot.holding := by
  have same := SlotsBeside.iff_holdings.mpr alike
  apply SlotsBeside.iff_holdings.mp
  apply left.mono
  rintro place index code code' (stored | ⟨found, found'⟩)
  · exact stored
  · unfold codeAt? at found found'
    rcases same.lookup place with ⟨none, -⟩ | ⟨slot, other, here, here', beside⟩
    · rw [none] at found
      cases found
    · rw [here] at found
      rw [here'] at found'
      cases beside with
      | same slot =>
        cases slot with
        | buffer w units => exact Option.some.inj (found'.symm.trans found)
        | integer type value | float format bits | capacity count => cases found
      | text beside => exact beside.each found found'

end Leaving

/-- A narrow scan of ASCII and a wide scan of the same units, widened, by the same format give
the same counts, halt alike and stop at the same place. The argument lists agree in numbers,
capacities and the sizes of buffers, and each text conversion has a buffer of the width that it
asks for in either call. Numbers come out the same; a buffer holds the same codes as the other
call's wherever it was stored into, and everywhere if the two held the same before. -/
theorem widened_scan_agrees (rules : Rules) {format : Text .narrow} (spelled : format.IsAscii)
    {source : TextSource .narrow} (ascii : source.IsAscii) {narrow wide : List Slot}
    (shaped : wide.map Slot.outline = narrow.map Slot.outline)
    (serves : rules.policy.Serves 0 (Format.read format).directives (narrow.map Slot.kind)
      (wide.map Slot.kind)) :
    let small := scan rules format narrow source
    let large := scan rules format.widened wide source.widened
    large.report.assigned = small.report.assigned ∧
      large.report.consumed = small.report.consumed ∧
      large.report.halt = small.report.halt ∧
      large.report.returnValue = small.report.returnValue ∧
      large.source = small.source.widened ∧ large.source.position = small.source.position ∧
      SlotsBeside (LeftAlike narrow wide) small.slots large.slots ∧
      (wide.map Slot.holding = narrow.map Slot.holding →
        large.slots.map Slot.holding = small.slots.map Slot.holding) := by
  intro small large
  have started : Progress.Beside TextSource.Beside (LeftAlike narrow wide)
      (Progress.start .narrow rules narrow source)
      (Progress.start .wide rules wide source.widened) :=
    ⟨⟨⟨rfl, ascii⟩, rfl⟩, ⟨rfl, leftAlike_start shaped⟩, rfl, rfl⟩
  obtain ⟨halt, ended⟩ := Progress.runFormat_beside TextSource.beside_widens
    (fun _ _ _ => .inl rfl) started serves
  have reread : (Progress.start .wide rules wide source.widened).runFormat rules
      (Format.read format) = (Progress.start .wide rules wide source.widened).runFormat rules
        (Format.read format.widened) := by rw [Format.read_widened spelled]
  rw [reread] at halt ended
  have assigned : large.report.assigned = small.report.assigned := ended.assigned
  have stopped : large.report.halt = small.report.halt := halt
  have reached : large.source = small.source.widened := ended.input.source.1
  have position : large.source.position = small.source.position := by
    rw [reached, TextSource.position_widened]
  have returned : large.report.returnValue = small.report.returnValue := by
    rw [Report.returnValue, Report.returnValue, assigned, stopped]
  have left : SlotsBeside (LeftAlike narrow wide) small.slots large.slots := ended.arguments.slots
  exact ⟨assigned, ended.input.consumed, stopped, returned, reached, position, left,
    holdings_left left⟩

/-- Buffers whose widths differ between the calls, and two whose widths do not. -/
theorem widened_secure_scan_agrees :
    let slots := fun call swapped => [.integer ⟨true, .half⟩ 0,
      .buffer call (.ofCodes call [0, 0, 0]), .capacity 3,
      .buffer swapped (.ofCodes swapped [0, 0]), .capacity 2,
      .buffer .narrow (.ofCodes .narrow [0, 0]), .capacity 1,
      .buffer .wide (.ofCodes .wide [0, 0, 0]), .capacity 3]
    let small := scan ⟨.secure, .c⟩ (.ofString .narrow "%hd%s%S =%hc%l[a-z]")
      (slots .narrow .wide) (TextSource.ofText (.ofString .narrow "-12 ab C\t=?xyz"))
    let large := scan ⟨.secure, .c⟩ (.ofString .wide "%hd%s%S =%hc%l[a-z]")
      (slots .wide .narrow) (TextSource.ofText (.ofString .wide "-12 ab C\t=?xyz"))
    small.report.halt = some (.violation (.bufferTooSmall 5 3)) ∧
      large.report.halt = some (.violation (.bufferTooSmall 5 3)) ∧
      large.report.returnValue = 4 ∧
      large.slots.map Slot.holding = small.slots.map Slot.holding := by
  intro slots small large
  have spelled : (Text.ofString .narrow "%hd%s%S =%hc%l[a-z]").IsAscii := by decide +kernel
  have ascii : (TextSource.ofText (.ofString .narrow "-12 ab C\t=?xyz")).IsAscii :=
    ⟨by decide +kernel, by decide +kernel⟩
  have shaped : (slots .wide .narrow).map Slot.outline =
      (slots .narrow .wide).map Slot.outline := by decide +kernel
  have serves : Policy.secure.Serves 0
      (Format.read (Text.ofString .narrow "%hd%s%S =%hc%l[a-z]")).directives
      ((slots .narrow .wide).map Slot.kind) ((slots .wide .narrow).map Slot.kind) := by
    decide +kernel
  obtain ⟨-, -, stopped, returned, -, -, -, holding⟩ :=
    widened_scan_agrees ⟨.secure, .c⟩ spelled ascii shaped serves
  have format : (Text.ofString .narrow "%hd%s%S =%hc%l[a-z]").widened =
      Text.ofString .wide "%hd%s%S =%hc%l[a-z]" := by decide +kernel
  have input : (Text.ofString .narrow "-12 ab C\t=?xyz").widened =
      Text.ofString .wide "-12 ab C\t=?xyz" := by decide +kernel
  rw [format, ← TextSource.ofText_widened, input] at stopped returned holding
  have overflows : small.report.halt = some (.violation (.bufferTooSmall 5 3)) := by
    decide +kernel
  have count : small.report.returnValue = 4 := by decide +kernel
  have empty : (slots .wide .narrow).map Slot.holding = (slots .narrow .wide).map Slot.holding := by
    decide +kernel
  exact ⟨overflows, stopped.trans overflows, returned.trans count, holding empty⟩

end FormattedInput
