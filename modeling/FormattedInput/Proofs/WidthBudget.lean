import FormattedInput.Proofs.PrintedFormat
import FormattedInput.Proofs.TextScan
import FormattedInput.Source.Console

/-!
A width bounds what a conversion reads, not only what it keeps. A conversion looks at its source
only while it may still consume a unit, or to see a unit that it put back. On a console it
therefore asks for a key only as long as it has taken fewer keys than its width. -/
namespace FormattedInput

variable {σ : Type} {w : Width}

/-- The most units that a conversion may consume. Single characters without a width are one. -/
def Conversion.limit (asked : Conversion) : Option Nat :=
  match asked.kind with
  | .chars _ => some (asked.width.getD 1)
  | _ => asked.width

/-- An invariant of a source that a conversion keeps within its width. It is said of how many
units were spent, that is consumed and not put back, and how many were put back. -/
structure KeptInWidth [UnitSource σ w] (most : Nat) (holds : Nat → Nat → σ → Prop) : Prop where
  peek : ∀ {spent source}, spent < most → holds spent 0 source →
    holds spent 0 (UnitSource.peek source).2
  consume : ∀ {spent source seen unit}, spent < most → holds spent 0 source →
    UnitSource.peek source = (some unit, seen) → holds (spent + 1) 0 (UnitSource.consume seen)
  putBack : ∀ {spent returned source} (unit), holds (spent + 1) returned source →
    holds spent (returned + 1) (UnitSource.putBack unit source)
  peek_returned : ∀ {spent returned source}, holds spent (returned + 1) source →
    holds spent (returned + 1) (UnitSource.peek source).2

structure Counted.Spends (holds : Nat → Nat → σ → Prop) (start spent returned : Nat)
    (input : Counted σ) : Prop where
  source : holds spent returned input.source
  counted : input.consumed = start + spent

structure Field.Spends (holds : Nat → Nat → σ → Prop) (most start spent : Nat) (field : Field σ) :
    Prop where
  input : field.input.Spends holds start spent 0
  width : field.width = some (most - spent)
  within : spent ≤ most

variable [UnitSource σ w] {most start spent returned : Nat} {holds : Nat → Nat → σ → Prop}

namespace Counted.Spends

variable {input : Counted σ}

theorem putBack (kept : KeptInWidth most holds) (unit : CodeUnit w)
    (spends : input.Spends holds start (spent + 1) returned) :
    (input.putBack unit).Spends holds start spent (returned + 1) :=
  ⟨kept.putBack unit spends.source, congrArg (· - 1) spends.counted⟩

theorem putBack? (kept : KeptInWidth most holds) {unit : Option (CodeUnit w)}
    (spends : input.Spends holds start (spent + unit.toList.length) returned) :
    (input.putBack? unit).Spends holds start spent (returned + unit.toList.length) := by
  cases unit with
  | none => exact spends
  | some unit => exact spends.putBack kept unit

theorem unmatched (kept : KeptInWidth most holds) (spends : input.Spends holds start spent returned)
    (may : spent < most ∨ 0 < returned) :
    input.unmatched.2.Spends holds start spent returned := by
  have looked : holds spent returned (UnitSource.peek input.source).2 := by
    cases returned with
    | zero => exact kept.peek (may.resolve_right (Nat.lt_irrefl 0)) spends.source
    | succ returned => exact kept.peek_returned spends.source
  rw [Counted.unmatched, Counted.peek]
  cases (UnitSource.peek input.source).1 with
  | none => exact ⟨looked, spends.counted⟩
  | some unit => exact ⟨looked, spends.counted⟩

end Counted.Spends

namespace Field.Spends

variable {field : Field σ}

theorem roomy (spends : field.Spends holds most start spent) (going : field.width ≠ some 0) :
    spent < most := by
  have left : most - spent ≠ 0 := fun none => going (spends.width.trans (congrArg some none))
  omega

theorem look (kept : KeptInWidth most holds) (spends : field.Spends holds most start spent)
    (going : field.width ≠ some 0) {shown : Option (CodeUnit w)} {source : σ}
    (looked : UnitSource.peek field.input.source = (shown, source)) :
    Spends holds most start spent ⟨⟨source, field.input.consumed⟩, field.width⟩ := by
  have further := kept.peek (spends.roomy going) spends.input.source
  rw [looked] at further
  exact ⟨⟨further, spends.input.counted⟩, spends.width, spends.within⟩

theorem consume (kept : KeptInWidth most holds) (spends : field.Spends holds most start spent)
    (going : field.width ≠ some 0) {unit : CodeUnit w} {source : σ}
    (looked : UnitSource.peek field.input.source = (some unit, source)) :
    Spends holds most start (spent + 1)
      ⟨⟨UnitSource.consume source, field.input.consumed + 1⟩, field.width.map (· - 1)⟩ := by
  have room := spends.roomy going
  refine ⟨⟨kept.consume room spends.input.source looked, congrArg (· + 1) spends.input.counted⟩,
    ?_, room⟩
  rw [spends.width, Option.map_some, Nat.sub_sub]

theorem takeIf (kept : KeptInWidth most holds) (spends : field.Spends holds most start spent)
    {accept : CodeUnit w → Bool} {shown : Option (CodeUnit w)} {after : Field σ}
    (took : field.takeIf accept = (shown, after)) :
    after.Spends holds most start (spent + shown.toList.length) := by
  unfold Field.takeIf at took
  split at took
  · cases took
    exact spends
  · rename_i going
    rw [Counted.peek] at took
    cases looked : UnitSource.peek field.input.source with
    | mk seen source =>
      rw [looked] at took
      cases seen with
      | none =>
        cases took
        exact spends.look kept going looked
      | some unit =>
        simp only at took
        split at took
        · cases took
          exact spends.consume kept going looked
        · cases took
          exact spends.look kept going looked

theorem takeRun (kept : KeptInWidth most holds) (spends : field.Spends holds most start spent)
    (accept : CodeUnit w → Bool) (room : Option Nat) :
    let run := field.input.takeRun accept room field.width
    Spends holds most start (spent + run.units.length) ⟨run.input, run.width⟩ := by
  obtain ⟨input, width⟩ := field
  simp only
  fun_induction Counted.takeRun accept room width input generalizing spent with
  | case1 room input => exact spends
  | case2 room width input going source looked => exact spends.look kept going looked
  | case3 width input going unit source looked accepted => exact spends.look kept going looked
  | case4 room width input going unit source looked accepted roomy run =>
    rename_i ih
    have later := ih (spends.consume kept going looked)
    rwa [Nat.add_assoc, Nat.add_comm 1] at later
  | case5 room width input going unit source looked rejected =>
    exact spends.look kept going looked

theorem takeWhile (kept : KeptInWidth most holds) (spends : field.Spends holds most start spent)
    {accept : CodeUnit w → Bool} {units : Text w} {after : Field σ}
    (took : field.takeWhile accept = (units, after)) :
    after.Spends holds most start (spent + units.length) := by
  cases took
  exact spends.takeRun kept accept none

theorem takeMark (kept : KeptInWidth most holds) (spends : field.Spends holds most start spent)
    {base : IntegerBase} {mark : BaseMark w} {after : Field σ}
    (took : base.takeMark field = (mark, after)) :
    ∃ more, after.Spends holds most start (spent + more) ∧ (mark.marker.isSome → 0 < more) ∧
      (mark.marker = none → mark.zero = false → more = 0) := by
  unfold IntegerBase.takeMark at took
  split at took
  · rcases found : field.takeIf (fun unit => unit.is '0') with ⟨shown, next⟩
    have zero := spends.takeIf kept found
    rw [found] at took
    cases shown with
    | none =>
      cases took
      exact ⟨0, zero, nofun, fun _ _ => rfl⟩
    | some unit =>
      rcases marked : next.takeIf (fun unit => unit.is 'x' || unit.is 'X') with ⟨shown, last⟩
      have marker := zero.takeIf kept marked
      simp only [marked] at took
      cases shown with
      | none =>
        cases took
        exact ⟨1, marker, nofun, nofun⟩
      | some unit =>
        cases took
        exact ⟨2, marker, fun _ => Nat.succ_pos 1, nofun⟩
  · cases took
    exact ⟨0, spends, nofun, fun _ _ => rfl⟩

theorem takeFraction (kept : KeptInWidth most holds) (spends : field.Spends holds most start spent)
    {point : Nat} {separator : Option (CodeUnit w)} {digits : Text w} {after : Field σ}
    (took : field.takeFraction point = ((separator, digits), after)) :
    after.Spends holds most start (spent + separator.toList.length + digits.length) := by
  rw [Field.takeFraction] at took
  rcases found : field.takeIf (fun unit => unit.code == point) with ⟨shown, next⟩
  have pointed := spends.takeIf kept found
  rw [found] at took
  cases shown with
  | none =>
    cases took
    exact pointed
  | some unit =>
    cases took
    exact pointed.takeWhile kept rfl

end Field.Spends

def Counted.Ended (holds : Nat → Nat → σ → Prop) (start : Nat) (input : Counted σ) : Prop :=
  ∃ spent returned, input.Spends holds start spent returned

theorem Field.Spends.takeExponent {field : Field σ} (kept : KeptInWidth most holds)
    (spends : field.Spends holds most start spent) :
    field.takeExponent.2.input.Ended holds start := by
  rw [Field.takeExponent]
  rcases found : field.takeIf (fun unit => unit.is 'e' || unit.is 'E') with ⟨shown, next⟩
  have marker := spends.takeIf kept found
  cases shown with
  | none => exact ⟨_, _, marker.input⟩
  | some unit =>
    rcases signed : next.takeSign with ⟨sign, more⟩
    rcases read : more.takeWhile (CodeUnit.isDigit 10) with ⟨digits, last⟩
    have raised := (marker.takeIf kept signed).takeWhile kept read
    simp only [signed, read]
    split
    · rename_i none
      obtain rfl := List.isEmpty_iff.mp none
      -- The sign was taken last and goes back first.
      exact ⟨_, _, (raised.input.putBack? kept).putBack kept unit⟩
    · exact ⟨_, _, raised.input⟩

namespace Counted.Spends

variable {input : Counted σ}

theorem field (spends : input.Spends holds start 0 0) :
    Field.Spends holds most start 0 ⟨input, some most⟩ :=
  ⟨spends, rfl, Nat.zero_le most⟩

theorem takeInteger (kept : KeptInWidth most holds) (positive : 0 < most)
    (spends : input.Spends holds start 0 0) (base : IntegerBase) :
    (input.takeInteger base (some most)).2.Ended holds start := by
  rcases signed : Field.takeSign ⟨input, some most⟩ with ⟨sign, first⟩
  rcases marked : base.takeMark first with ⟨mark, second⟩
  rcases read : second.takeWhile (CodeUnit.isDigit mark.base) with ⟨digits, last⟩
  obtain ⟨more, found, marker, plain⟩ := (spends.field.takeIf kept signed).takeMark kept marked
  have taken := (found.takeWhile kept read).input
  simp only [Counted.takeInteger, signed, marked, read]
  split
  · rename_i none
    rw [Bool.and_eq_true, List.isEmpty_iff, Bool.not_eq_eq_eq_not, Bool.not_true] at none
    obtain ⟨rfl, unmarked⟩ := none
    cases back : mark.marker with
    | some unit =>
      obtain ⟨before, rfl⟩ := Nat.exists_eq_succ_of_ne_zero (Nat.ne_of_gt (marker (back ▸ rfl)))
      exact ⟨_, _, taken.putBack kept unit⟩
    | none =>
      obtain rfl := plain back unmarked
      exact ⟨_, _, (taken.putBack? kept).unmatched kept (.inl positive)⟩
  · exact ⟨_, _, taken⟩

theorem takeDecimal (kept : KeptInWidth most holds) (positive : 0 < most)
    (spends : input.Spends holds start 0 0) (point : Nat) :
    (input.takeDecimal point (some most)).2.Ended holds start := by
  rcases signed : Field.takeSign ⟨input, some most⟩ with ⟨sign, first⟩
  rcases read : first.takeWhile (CodeUnit.isDigit 10) with ⟨whole, second⟩
  rcases pointed : second.takeFraction point with ⟨⟨separator, digits⟩, last⟩
  have taken :=
    ((spends.field.takeIf kept signed).takeWhile kept read).takeFraction kept pointed
  simp only [Counted.takeDecimal, signed, read, pointed]
  split
  · rename_i none
    rw [Bool.and_eq_true, List.isEmpty_iff, List.isEmpty_iff] at none
    obtain ⟨rfl, rfl⟩ := none
    have unsigned := (taken.input.putBack? kept).putBack? kept
    exact ⟨_, _, unsigned.unmatched kept (.inl positive)⟩
  · exact taken.takeExponent kept

/-- A text that lacks units has room for one more: nothing was taken, or characters are missing. -/
theorem takeText (kept : KeptInWidth most holds) (positive : 0 < most) {shape : TextShape}
    {width : Option Nat} (limit : shape.width width = some most) (elements : Option Nat)
    (spends : (input.dropLeading shape).Spends holds start 0 0) :
    (input.takeText shape elements width).2.Ended holds start := by
  have run := spends.field.takeRun kept shape.accepts (elements.map shape.room)
  unfold Counted.takeText
  rw [limit]
  simp only at run ⊢
  split
  · exact ⟨_, _, run.input⟩
  · split
    · rename_i lacks
      refine ⟨_, _, run.input.unmatched kept (.inl ?_)⟩
      cases shape with
      | characters => exact run.roomy (bne_iff_ne.mp lacks)
      | word | members set =>
        rw [List.isEmpty_iff.mp lacks]
        exact positive
    · exact ⟨_, _, run.input⟩

theorem takeLiteral (kept : KeptInWidth most holds) (positive : 0 < most) (code : Nat)
    (spends : input.Spends holds start 0 0) : (input.takeLiteral code).2.Ended holds start := by
  rw [Counted.takeLiteral]
  rcases looked : input.peek with ⟨shown, seen⟩
  obtain ⟨found, rfl⟩ := Prod.mk.inj looked
  simp only
  split
  · rename_i same
    cases shown with
    | none => cases same
    | some unit =>
      exact ⟨1, 0, kept.consume positive spends.source (Prod.ext found rfl),
        congrArg (· + 1) spends.counted⟩
  · have further : Spends holds start 0 0
        ⟨(UnitSource.peek input.source).2, input.consumed⟩ :=
      ⟨kept.peek positive spends.source, spends.counted⟩
    exact ⟨_, _, further.unmatched kept (.inl positive)⟩

theorem convertInteger (kept : KeptInWidth most holds) (positive : 0 < most)
    (spends : input.dropSpace.Spends holds start 0 0) (base : IntegerBase) :
    (input.convertInteger base (some most)).2.Ended holds start := by
  have ended := spends.takeInteger kept positive base
  rw [Counted.convertInteger]
  rcases read : input.dropSpace.takeInteger base (some most) with ⟨value, after⟩
  rw [read] at ended
  cases value <;> exact ended

theorem convertFloat (kept : KeptInWidth most holds) (positive : 0 < most)
    (spends : input.dropSpace.Spends holds start 0 0) (point : Nat) :
    (input.convertFloat point (some most)).2.Ended holds start := by
  have ended := spends.takeDecimal kept positive point
  rw [Counted.convertFloat]
  rcases read : input.dropSpace.takeDecimal point (some most) with ⟨value, after⟩
  rw [read] at ended
  cases value <;> exact ended

theorem convertText (kept : KeptInWidth most holds) (positive : 0 < most) (shape : TextShape)
    {width : Option Nat} (limit : shape.width width = some most) (policy : Policy) (index : Nat)
    (elements : Option Nat) (spends : (input.dropLeading shape).Spends holds start 0 0) :
    (input.convertText policy index shape elements width).2.Ended holds start := by
  have ended := spends.takeText kept positive limit elements
  rw [Counted.convertText]
  rcases read : input.takeText shape elements width with ⟨⟨units, stop⟩, after⟩
  rw [read] at ended
  cases stop <;> exact ended

end Counted.Spends

def Counted.skip (kind : ConversionKind) (input : Counted σ) : Counted σ :=
  if kind.skipsSpace then input.dropSpace else input

theorem Counted.Spends.convert {input : Counted σ} {asked : Conversion}
    (kept : KeptInWidth most holds) (positive : 0 < most) (limit : asked.limit = some most)
    (spends : (input.skip asked.kind).Spends holds start 0 0) (rules : Rules) (index : Nat)
    (elements : Option Nat) :
    (input.convert rules index asked elements).2.Ended holds start := by
  obtain ⟨suppress, width, length, kind⟩ := asked
  cases kind with
  | decimal | unsigned | integer | octal | hex | pointer =>
    obtain rfl : width = some most := limit
    exact spends.convertInteger kept positive _
  | float =>
    obtain rfl : width = some most := limit
    exact spends.convertFloat kept positive _
  | string swapped =>
    exact spends.convertText kept positive .word limit rules.policy index elements
  | chars swapped =>
    exact spends.convertText kept positive .characters limit rules.policy index elements
  | charClass set =>
    exact spends.convertText kept positive (.members set) limit rules.policy index elements
  | count => exact ⟨0, 0, spends⟩
  | percent => exact spends.takeLiteral kept positive '%'.toNat

namespace Console

/-- How many of the reads took a key; the others found the console closed. -/
def keyCount (reads : List (Option (CodeUnit w))) : Nat := (reads.filterMap id).length

/-- No read was made once so many keys had been taken. -/
def ReadsFor (most : Nat) (reads : List (Option (CodeUnit w))) : Prop :=
  ∀ before key after, reads = before ++ key :: after → keyCount before < most

theorem keyCount_snoc (reads : List (Option (CodeUnit w))) (key : Option (CodeUnit w)) :
    keyCount (reads ++ [key]) = keyCount reads + key.toList.length := by
  rw [keyCount, List.filterMap_append, List.length_append]
  cases key <;> rfl

theorem readsFor_nil (most : Nat) : ReadsFor most ([] : List (Option (CodeUnit w))) := by
  intro before key after none
  cases before <;> cases none

theorem ReadsFor.snoc {most : Nat} {reads : List (Option (CodeUnit w))}
    (readsFor : ReadsFor most reads) (few : keyCount reads < most) (key : Option (CodeUnit w)) :
    ReadsFor most (reads ++ [key]) := by
  intro before last after split
  rcases List.eq_nil_or_concat' after with rfl | ⟨others, final, rfl⟩
  · rw [(List.append_inj' split rfl).1] at few
    exact few
  · rw [← List.cons_append, ← List.append_assoc] at split
    exact readsFor before last others (List.append_inj' split rfl).1

theorem ReadsFor.keyCount_le {most : Nat} {reads : List (Option (CodeUnit w))}
    (readsFor : ReadsFor most reads) : keyCount reads ≤ most := by
  rcases List.eq_nil_or_concat' reads with rfl | ⟨others, final, rfl⟩
  · exact Nat.zero_le most
  · have few := readsFor others final [] rfl
    have one : final.toList.length ≤ 1 := Option.length_toList_le
    rw [keyCount_snoc]
    omega

end Console

namespace ConsoleStream

open Console (keyCount ReadsFor)

/-- What was read of the keys was spent, is held in front because it was put back, or is the one
key that was looked at. -/
structure Draws (keys : List (Option (CodeUnit w))) (most spent returned : Nat)
    (source : ConsoleStream w) : Prop where
  pushed : source.pushed.length = returned
  reads : ∃ taken, keys = taken ++ source.console.keys ∧ ReadsFor most taken ∧
    keyCount taken = spent + returned + source.lookahead.toList.length

variable {keys : List (Option (CodeUnit w))} {most spent returned : Nat}
  {source seen : ConsoleStream w}

theorem Draws.peek (draws : Draws keys most spent 0 source) (room : spent < most) :
    Draws keys most spent 0 source.peek.2 := by
  obtain ⟨⟨coming, echoed⟩, lookahead, pushed⟩ := source
  obtain ⟨empty, taken, split, readsFor, counted⟩ := draws
  obtain rfl := List.eq_nil_of_length_eq_zero empty
  match lookahead, coming with
  | some first, coming => exact ⟨rfl, taken, split, readsFor, counted⟩
  | none, [] => exact ⟨rfl, taken, split, readsFor, counted⟩
  | none, key :: coming =>
    have few : keyCount taken < most := by
      rw [counted]
      exact room
    refine ⟨rfl, taken ++ [key], ?_, readsFor.snoc few key, ?_⟩
    · exact split.trans (List.append_cons taken key coming)
    · rw [Console.keyCount_snoc, counted]
      rfl

theorem Draws.consume (draws : Draws keys most spent 0 source) (room : spent < most)
    {unit : CodeUnit w} (looked : source.peek = (some unit, seen)) :
    Draws keys most (spent + 1) 0 seen.consume := by
  have further := draws.peek room
  rw [looked] at further
  have ahead : seen.lookahead = some unit := by
    obtain ⟨console, lookahead, pushed⟩ := source
    obtain rfl := List.eq_nil_of_length_eq_zero draws.pushed
    obtain ⟨shown, rfl⟩ := Prod.mk.inj looked
    cases lookahead <;> exact shown
  obtain ⟨console, lookahead, pushed⟩ := seen
  obtain ⟨empty, taken, split, readsFor, counted⟩ := further
  obtain rfl := List.eq_nil_of_length_eq_zero empty
  obtain rfl : lookahead = some unit := ahead
  exact ⟨rfl, taken, split, readsFor, counted⟩

theorem draws_kept (keys : List (Option (CodeUnit w))) (most : Nat) :
    KeptInWidth most (Draws keys most) where
  peek room draws := draws.peek room
  consume room draws looked := draws.consume room looked
  putBack := by
    intro spent returned source unit draws
    obtain ⟨pushed, taken, split, readsFor, counted⟩ := draws
    have moved : spent + 1 + returned = spent + (returned + 1) := by omega
    rw [moved] at counted
    exact ⟨congrArg (· + 1) pushed, taken, split, readsFor, counted⟩
  peek_returned := by
    intro spent returned source draws
    obtain ⟨console, lookahead, pushed⟩ := source
    cases pushed with
    | nil => cases draws.pushed
    | cons first pushed => exact draws

def isBlank (key : Option (CodeUnit w)) : Bool := key.any CodeUnit.isSpace

theorem dropSpace_keys (keys : List (Option (CodeUnit w))) (echoed : Text w) (start : Nat) :
    (⟨⟨⟨keys, echoed⟩, none, []⟩, start⟩ : Counted (ConsoleStream w)).dropSpace =
      ⟨⟨⟨(keys.dropWhile isBlank).tail, echoed ++ (keys.takeWhile isBlank).filterMap id⟩,
        (keys.dropWhile isBlank).head?.join, []⟩, start + (keys.takeWhile isBlank).length⟩ := by
  induction keys generalizing echoed start with
  | nil =>
    rw [Counted.dropSpace, Counted.takeRun_round, if_neg (Option.some_ne_none 0).symm]
    simp [UnitSource.peek, peek, Console.read]
  | cons key keys ih =>
    rw [Counted.dropSpace, Counted.takeRun_round, if_neg (Option.some_ne_none 0).symm]
    cases key with
    | none => simp [UnitSource.peek, peek, Console.read, isBlank]
    | some unit =>
      by_cases space : unit.isSpace = true
      · have later := ih (echoed ++ [unit]) (start + 1)
        rw [Counted.dropSpace] at later
        simp [UnitSource.peek, peek, Console.read, isBlank, space, UnitSource.consume, consume,
          Console.echo, later, Nat.add_assoc, Nat.add_comm 1]
      · simp [UnitSource.peek, peek, Console.read, isBlank, space]

def blanks (kind : ConversionKind) (keys : List (Option (CodeUnit w))) :
    List (Option (CodeUnit w)) :=
  if kind.skipsSpace then keys.takeWhile isBlank else []

theorem draws_skip (kind : ConversionKind) (console : Console w) (positive : 0 < most)
    (start : Nat) :
    ∃ behind, console.keys = blanks kind console.keys ++ behind ∧
      Counted.Spends (Draws behind most) (start + (blanks kind console.keys).length) 0 0
        (Counted.skip kind ⟨.ofConsole console, start⟩) := by
  obtain ⟨keys, echoed⟩ := console
  unfold blanks Counted.skip
  split
  · refine ⟨keys.dropWhile isBlank, List.takeWhile_append_dropWhile.symm, ?_⟩
    rw [ofConsole, dropSpace_keys]
    refine ⟨⟨rfl, ?_⟩, rfl⟩
    cases keys.dropWhile isBlank with
    | nil => exact ⟨[], rfl, Console.readsFor_nil most, rfl⟩
    | cons key coming =>
      exact ⟨[key], rfl, (Console.readsFor_nil most).snoc positive key,
        (Console.keyCount_snoc [] key).trans (by cases key <;> rfl)⟩
  · exact ⟨keys, rfl, ⟨rfl, [], rfl, Console.readsFor_nil most, rfl⟩, rfl⟩

end ConsoleStream

theorem Format.limit_pos {format : Text w} {asked : Conversion} {stop most : Nat}
    (written : (.conversion asked, stop) ∈ (read format).steps)
    (limit : asked.limit = some most) : 0 < most := by
  have printable := readFrom_printable 0 format.nulFree_beforeNul
  obtain ⟨fits, -⟩ := printable.readable _ (List.mem_map_of_mem written)
  obtain ⟨suppress, width, length, kind⟩ := asked
  cases width with
  | some number =>
    have positive := (fits number rfl).1
    cases kind <;> cases limit <;> exact positive
  | none =>
    cases kind <;> cases limit
    exact Nat.one_pos

/-- A conversion that is refused its destination reads nothing; any other begins behind the
whitespace. -/
theorem Progress.execute_draws {asked : Conversion} (positive : 0 < most)
    (limit : asked.limit = some most) (rules : Rules) {progress : Progress (ConsoleStream w)}
    {console : Console w} (clear : progress.input.source = .ofConsole console) :
    ∃ skipped behind, console.keys = skipped ++ behind ∧
      skipped <+: ConsoleStream.blanks asked.kind console.keys ∧
      (progress.execute rules (.conversion asked)).2.input.Ended
        (ConsoleStream.Draws behind most) (progress.input.consumed + skipped.length) := by
  obtain ⟨⟨source, consumed⟩, arguments, completed, assigned, events⟩ := progress
  obtain rfl : source = .ofConsole console := clear
  rw [execute, Progress.convert]
  split
  · exact ⟨[], console.keys, rfl, List.nil_prefix, 0, 0,
      ⟨rfl, [], rfl, Console.readsFor_nil most, rfl⟩, rfl⟩
  · rename_i destination arguments granted
    obtain ⟨behind, split, spends⟩ :=
      ConsoleStream.draws_skip asked.kind console positive consumed
    have ended := spends.convert (ConsoleStream.draws_kept behind most) positive limit rules
      (completed + 1) (destination.map Destination.room)
    refine ⟨_, behind, split, List.prefix_rfl, ?_⟩
    simp only
    split <;> exact ended

/-- A conversion with a width takes no more keys from a console than its width allows, besides the
whitespace that it skips at the start, whether it completes or halts. What it took and did not
consume is held back. It makes no read once it has taken as many keys as its width, so one that
used its full width never waits for the key behind. -/
theorem width_bounds_keys {format : Text w} {asked : Conversion} {stop most : Nat}
    (written : (.conversion asked, stop) ∈ (Format.read format).steps)
    (limit : asked.limit = some most) (rules : Rules) {progress : Progress (ConsoleStream w)}
    {console : Console w} (clear : progress.input.source = .ofConsole console) :
    let after := (progress.execute rules (.conversion asked)).2.input
    ∃ skipped taken, console.keys = skipped ++ taken ++ after.source.console.keys ∧
      skipped <+: ConsoleStream.blanks asked.kind console.keys ∧
      Console.keyCount taken ≤ most ∧ Console.ReadsFor most taken ∧
      after.consumed + after.source.park.units.length =
        progress.input.consumed + skipped.length + Console.keyCount taken := by
  intro after
  obtain ⟨skipped, behind, front, blank, spent, returned, draws, counted⟩ :=
    Progress.execute_draws (Format.limit_pos written limit) limit rules clear
  obtain ⟨pushed, taken, split, readsFor, held⟩ := draws
  refine ⟨skipped, taken, ?_, blank, readsFor.keyCount_le, readsFor, ?_⟩
  · rw [front, split, List.append_assoc]
  · have parked : after.source.park.units.length =
        returned + after.source.lookahead.toList.length :=
      List.length_append.trans (congrArg (· + _) pushed)
    have held : Console.keyCount taken =
        spent + returned + after.source.lookahead.toList.length := held
    rw [counted, parked, held]
    omega

/-- A marker without a digit uses up the width. It is put back and the key behind it is left to
the keyboard. -/
theorem marker_uses_width :
    let unit (letter : Char) : CodeUnit .wide := .ofNat .wide letter.toNat
    let keys := [some (unit ' '), none, some (unit '0'), some (unit 'x'), some (unit 'g')]
    let asked : Conversion := ⟨false, some 2, .absent, .hex⟩
    let start : Progress (ConsoleStream .wide) := .start .wide ⟨.plain, .c⟩
      [.integer ⟨false, .word⟩ 9] (.ofConsole (.ofKeys keys))
    let after := (start.execute ⟨.plain, .c⟩ (.conversion asked)).2.input
    (.conversion asked, 3) ∈ (Format.read (.ofString .wide "%2x")).steps ∧
      asked.limit = some 2 ∧ start.input.source = .ofConsole (.ofKeys keys) ∧
      after.source.console.keys = [some (unit 'g')] ∧ after.source.park.units = [unit 'x'] ∧
      ∃ skipped taken, keys = skipped ++ taken ++ [some (unit 'g')] ∧
        skipped <+: [some (unit ' ')] ∧ Console.keyCount taken ≤ 2 ∧ Console.ReadsFor 2 taken ∧
        after.consumed + 1 = skipped.length + Console.keyCount taken := by
  intro unit keys asked start after
  have written : (Directive.conversion asked, 3) ∈ (Format.read (.ofString .wide "%2x")).steps := by
    decide +kernel
  have left : after.source.console.keys = [some (unit 'g')] := by decide +kernel
  have held : after.source.park.units = [unit 'x'] := by decide +kernel
  have clear : start.input.source = .ofConsole (.ofKeys keys) := rfl
  obtain ⟨skipped, taken, split, blank, few, readsFor, counted⟩ :=
    width_bounds_keys written rfl ⟨.plain, .c⟩ clear
  have blanks : ConsoleStream.blanks asked.kind (Console.ofKeys keys).keys = [some (unit ' ')] := by
    decide +kernel
  refine ⟨written, rfl, clear, left, held, skipped, taken, ?_, blanks ▸ blank, few, readsFor, ?_⟩
  · rw [← left]
    exact split
  · have total : after.consumed + after.source.park.units.length =
        0 + skipped.length + Console.keyCount taken := counted
    rwa [held, Nat.zero_add] at total

end FormattedInput
