import FormattedInput.Proofs.TextScan

/-!
How far ahead of its end a scan has looked. A reader that stops in front of some unit has
looked at it; one that gives units back has looked further, by a sign, a point and the unit
behind them at most. So a scan that leaves three units behind has not met the end of its
input, and nothing changes for it when the input goes on. -/
namespace FormattedInput

variable {w : Width}

def TextSource.followedBy (more : Text w) (source : TextSource w) : TextSource w :=
  { source with after := source.after ++ more }

def Counted.followedBy (more : Text w) (input : Counted (TextSource w)) :
    Counted (TextSource w) :=
  ⟨input.source.followedBy more, input.consumed⟩

def Field.followedBy (more : Text w) (field : Field (TextSource w)) : Field (TextSource w) :=
  ⟨field.input.followedBy more, field.width⟩

def Run.followedBy (more : Text w) (run : Run (TextSource w) w) : Run (TextSource w) w :=
  { run with input := run.input.followedBy more }

def Progress.followedBy (more : Text w) (progress : Progress (TextSource w)) :
    Progress (TextSource w) :=
  { progress with input := progress.input.followedBy more }

variable (more : Text w)

namespace Counted

theorem Reaches.left {input after : Counted (TextSource w)} (reached : input.Reaches after) :
    after.rest.length ≤ input.rest.length := by
  obtain ⟨count, within, rfl⟩ := reached
  simp only [rest_advance, List.length_drop]
  omega

theorem putBack_left (unit : CodeUnit w) (input : Counted (TextSource w)) :
    (input.putBack unit).rest.length ≤ input.rest.length + 1 := by
  obtain ⟨⟨before, after⟩, consumed⟩ := input
  cases before with
  | nil => exact Nat.le_succ after.length
  | cons last before => exact Nat.le_refl (after.length + 1)

theorem putBack?_left (unit : Option (CodeUnit w)) (input : Counted (TextSource w)) :
    (input.putBack? unit).rest.length ≤ input.rest.length + 1 := by
  cases unit with
  | none => exact Nat.le_succ input.rest.length
  | some unit => exact putBack_left unit input

theorem looks_followedBy {input : Counted (TextSource w)} {unit : CodeUnit w}
    {seen : TextSource w} (looked : UnitSource.peek input.source = (some unit, seen)) :
    seen = input.source ∧ UnitSource.peek (input.followedBy more).source =
      (some unit, (input.followedBy more).source) ∧
      UnitSource.consume (input.followedBy more).source =
        (UnitSource.consume input.source).followedBy more := by
  obtain ⟨⟨before, after⟩, consumed⟩ := input
  cases after with
  | nil => cases looked
  | cons first after =>
    cases looked
    exact ⟨rfl, rfl, rfl⟩

theorem peek_followedBy {input : Counted (TextSource w)} (going : 1 ≤ input.rest.length) :
    (input.followedBy more).peek = (input.peek.1, input.peek.2.followedBy more) := by
  obtain ⟨⟨before, after⟩, consumed⟩ := input
  cases after with
  | nil => contradiction
  | cons unit after => rfl

theorem consume_followedBy {input : Counted (TextSource w)} (going : 1 ≤ input.rest.length) :
    (input.followedBy more).consume = input.consume.followedBy more := by
  obtain ⟨⟨before, after⟩, consumed⟩ := input
  cases after with
  | nil => contradiction
  | cons unit after => rfl

theorem putBack_followedBy (unit : CodeUnit w) (input : Counted (TextSource w)) :
    (input.followedBy more).putBack unit = (input.putBack unit).followedBy more := by
  obtain ⟨⟨before, after⟩, consumed⟩ := input
  cases before with
  | nil => rfl
  | cons last before => rfl

theorem putBack?_followedBy (unit : Option (CodeUnit w)) (input : Counted (TextSource w)) :
    (input.followedBy more).putBack? unit = (input.putBack? unit).followedBy more := by
  cases unit with
  | none => rfl
  | some unit => exact putBack_followedBy more unit input

theorem unmatched_followedBy {input : Counted (TextSource w)} (going : 1 ≤ input.rest.length) :
    (input.followedBy more).unmatched =
      (input.unmatched.1, input.unmatched.2.followedBy more) := by
  obtain ⟨⟨before, after⟩, consumed⟩ := input
  cases after with
  | nil => contradiction
  | cons unit after => rfl

theorem fail_followedBy {α : Type} {input after : Counted (TextSource w)}
    {outcome : Except Halt α} (failed : input.fail = (outcome, after))
    (going : 1 ≤ after.rest.length) :
    (input.followedBy more).fail = (outcome, after.followedBy more) := by
  obtain ⟨rfl, rfl⟩ := Prod.mk.inj (failed.symm.trans (fail_text input))
  simp only [fail, unmatched_followedBy more going, unmatched_stays]

theorem takeRun_followedBy (accept : CodeUnit w → Bool) (room width : Option Nat)
    {input : Counted (TextSource w)}
    (going : 1 ≤ (input.takeRun accept room width).input.rest.length) :
    (input.followedBy more).takeRun accept room width =
      (input.takeRun accept room width).followedBy more := by
  fun_induction takeRun accept room width input with
  | case1 room input =>
    rw [takeRun_round, if_pos rfl]
    rfl
  | case2 room width input open_ source looked =>
    obtain ⟨empty, rfl⟩ := Prod.mk.inj looked
    have nothing : input.rest = [] := List.head?_eq_none_iff.mp empty
    have longer : 1 ≤ input.rest.length := going
    simp only [nothing, List.length_nil] at longer
    contradiction
  | case3 width input open_ unit source looked accepted =>
    obtain ⟨rfl, looked', -⟩ := looks_followedBy more looked
    rw [takeRun_round, if_neg open_, looked']
    simp only [accepted, if_true]
    rfl
  | case4 room width input open_ unit source looked accepted roomy run =>
    rename_i ih
    obtain ⟨rfl, looked', consumed⟩ := looks_followedBy more looked
    have later : (⟨(UnitSource.consume input.source).followedBy more, input.consumed + 1⟩ :
        Counted (TextSource w)).takeRun accept (room.map (· - 1)) (width.map (· - 1)) =
          run.followedBy more := ih going
    rw [takeRun_round, if_neg open_, looked']
    simp only [accepted, if_true, if_neg roomy, consumed]
    simp only [followedBy, later]
    rfl
  | case5 room width input open_ unit source looked rejected =>
    obtain ⟨rfl, looked', -⟩ := looks_followedBy more looked
    rw [takeRun_round, if_neg open_, looked']
    simp only [rejected]
    rfl

theorem dropSpace_followedBy {input : Counted (TextSource w)}
    (going : 1 ≤ input.dropSpace.rest.length) :
    (input.followedBy more).dropSpace = input.dropSpace.followedBy more :=
  congrArg Run.input (takeRun_followedBy more CodeUnit.isSpace none none going)

end Counted

namespace Field

variable {field after : Field (TextSource w)}

theorem takeIf_left {accept : CodeUnit w → Bool} {taken : Option (CodeUnit w)}
    (took : field.takeIf accept = (taken, after)) :
    after.input.rest.length + taken.toList.length = field.input.rest.length := by
  obtain ⟨same, front, took'⟩ := field.takeIf_advance accept
  have within := (front.trans field.rest_begins).length_le
  obtain ⟨rfl, rfl⟩ := Prod.mk.inj (took.symm.trans took')
  simp only [input_advance, Counted.rest_advance, List.length_drop]
  omega

theorem takeWhile_left {accept : CodeUnit w → Bool} {units : Text w}
    (took : field.takeWhile accept = (units, after)) :
    after.input.rest.length + units.length = field.input.rest.length := by
  have within := (field.length_takeWhile_le accept).trans field.rest_begins.length_le
  obtain ⟨rfl, rfl⟩ := Prod.mk.inj (took.symm.trans (field.takeWhile_text accept))
  simp only [input_advance, Counted.rest_advance, List.length_drop]
  omega

theorem takeIf_followedBy {accept : CodeUnit w → Bool} {taken : Option (CodeUnit w)}
    (took : field.takeIf accept = (taken, after)) (going : 1 ≤ after.input.rest.length) :
    (field.followedBy more).takeIf accept = (taken, after.followedBy more) := by
  have left := takeIf_left took
  have longer : 1 ≤ field.input.rest.length := by omega
  have consumed := Counted.consume_followedBy more longer
  unfold takeIf at took ⊢
  by_cases closed : field.width = some 0
  · simp only [followedBy, closed, if_true] at took ⊢
    cases took
    rw [closed]
  · simp only [followedBy, closed, if_false, Counted.peek_followedBy more longer] at took ⊢
    cases looked : field.input.peek with
    | mk shown seen =>
      obtain ⟨-, rfl⟩ := Prod.mk.inj looked
      rw [looked] at took
      cases shown with
      | none =>
        cases took
        rfl
      | some unit =>
        simp only at took ⊢
        split at took
        · rename_i accepted
          cases took
          simp only [accepted, if_true]
          exact congrArg (fun input => (some unit, (⟨input, field.width.map (· - 1)⟩ :
            Field (TextSource w)))) consumed
        · rename_i rejected
          cases took
          simp only [rejected]
          rfl

theorem takeWhile_followedBy {accept : CodeUnit w → Bool} {units : Text w}
    (took : field.takeWhile accept = (units, after)) (going : 1 ≤ after.input.rest.length) :
    (field.followedBy more).takeWhile accept = (units, after.followedBy more) := by
  obtain ⟨rfl, rfl⟩ := Prod.mk.inj took
  have run := Counted.takeRun_followedBy more accept none field.width going
  simp only [takeWhile, followedBy, run]
  rfl

theorem takeMark_followedBy {base : IntegerBase} {mark : BaseMark w}
    (took : base.takeMark field = (mark, after)) (going : 1 ≤ after.input.rest.length) :
    base.takeMark (field.followedBy more) = (mark, after.followedBy more) := by
  unfold IntegerBase.takeMark at took ⊢
  split at took
  · rename_i marked
    simp only [marked, if_true]
    cases first : field.takeIf fun unit => unit.is '0' with
    | mk zero behind =>
      rw [first] at took
      cases zero with
      | none =>
        cases took
        simp only [takeIf_followedBy more first going]
      | some zero =>
        simp only at took
        cases second : behind.takeIf fun unit => unit.is 'x' || unit.is 'X' with
        | mk marker last =>
          have left := takeIf_left second
          rw [second] at took
          cases marker with
          | none =>
            cases took
            simp only [takeIf_followedBy more first (by omega), takeIf_followedBy more second going]
          | some marker =>
            cases took
            simp only [takeIf_followedBy more first (by omega), takeIf_followedBy more second going]
  · rename_i unmarked
    cases took
    simp only [unmarked]
    rfl

theorem takeFraction_followedBy {point : Nat} {fraction : Option (CodeUnit w) × Text w}
    (took : field.takeFraction point = (fraction, after)) (going : 1 ≤ after.input.rest.length) :
    (field.followedBy more).takeFraction point = (fraction, after.followedBy more) := by
  unfold takeFraction at took ⊢
  cases first : field.takeIf fun unit => unit.code == point with
  | mk separator behind =>
    rw [first] at took
    cases separator with
    | none =>
      cases took
      simp only [takeIf_followedBy more first going]
    | some separator =>
      simp only at took
      cases second : behind.takeWhile (CodeUnit.isDigit 10) with
      | mk digits last =>
        have left := takeWhile_left second
        simp only [second] at took
        cases took
        simp only [takeIf_followedBy more first (by omega), takeWhile_followedBy more second going]

theorem takeMark_left {base : IntegerBase} {mark : BaseMark w}
    (took : base.takeMark field = (mark, after)) :
    after.input.rest.length ≤ field.input.rest.length := by
  have moved (count : Nat) : (field.advance count).input.rest.length ≤ field.input.rest.length := by
    simp only [input_advance, Counted.rest_advance, List.length_drop]
    omega
  rcases base.takeMark_cases field with plain | ⟨zero, -⟩ | ⟨marker, marked, -⟩
  · obtain ⟨-, rfl⟩ := Prod.mk.inj (took.symm.trans plain)
    exact Nat.le_refl _
  · obtain ⟨-, rfl⟩ := Prod.mk.inj (took.symm.trans zero)
    exact moved 1
  · obtain ⟨-, rfl⟩ := Prod.mk.inj (took.symm.trans marked)
    rw [advance_advance]
    exact moved 2

theorem takeFraction_left {point : Nat} {fraction : Option (CodeUnit w) × Text w}
    (took : field.takeFraction point = (fraction, after)) :
    after.input.rest.length ≤ field.input.rest.length := by
  obtain ⟨separator, digits, took', -⟩ := field.takeFraction_text point
  obtain ⟨-, rfl⟩ := Prod.mk.inj (took.symm.trans took')
  simp only [advance_advance, input_advance, Counted.rest_advance, List.length_drop]
  omega

theorem takeExponent_left {exponent : Option (CodeUnit w) × Text w}
    (took : field.takeExponent = (exponent, after)) :
    after.input.rest.length ≤ field.input.rest.length := by
  obtain ⟨count, -, reached⟩ := field.takeExponent_text
  simp only [took] at reached
  simp only [reached, Counted.rest_advance, List.length_drop]
  omega

theorem takeExponent_followedBy {exponent : Option (CodeUnit w) × Text w}
    (took : field.takeExponent = (exponent, after)) (left : 3 ≤ after.input.rest.length) :
    (field.followedBy more).takeExponent = (exponent, after.followedBy more) := by
  unfold takeExponent at took ⊢
  cases first : field.takeIf fun unit => unit.is 'e' || unit.is 'E' with
  | mk marker behind =>
    rw [first] at took
    cases marker with
    | none =>
      cases took
      simp only [takeIf_followedBy more first (by omega)]
    | some marker =>
      have marked := takeIf_left first
      cases second : behind.takeSign with
      | mk sign further =>
        have signed := takeIf_left second
        cases third : further.takeWhile (CodeUnit.isDigit 10) with
        | mk digits last =>
          have counted := takeWhile_left third
          simp only [second, third] at took
          -- What is given back stood in front of the unit that ended the digits.
          have seen : 1 ≤ last.input.rest.length := by
            split at took
            · obtain ⟨-, rfl⟩ := Prod.mk.inj took
              have unsigned := Counted.putBack?_left sign last.input
              have unmarked := Counted.putBack_left marker (last.input.putBack? sign)
              simp only at left
              omega
            · obtain ⟨-, rfl⟩ := Prod.mk.inj took
              omega
          have first' := takeIf_followedBy more first (by omega)
          have second' : (behind.followedBy more).takeSign = (sign, further.followedBy more) :=
            takeIf_followedBy more second (by omega)
          have third' := takeWhile_followedBy more third seen
          simp only [first', second', third']
          split at took
          · rename_i none
            obtain ⟨rfl, rfl⟩ := Prod.mk.inj took
            simp only [none, if_true, followedBy, Counted.putBack?_followedBy,
              Counted.putBack_followedBy]
          · rename_i digits
            obtain ⟨rfl, rfl⟩ := Prod.mk.inj took
            simp only [digits]
            rfl

end Field

namespace Counted

variable {input after : Counted (TextSource w)}

theorem takeInteger_followedBy {base : IntegerBase} {width : Option Nat}
    {outcome : Except Halt Nat} (took : input.takeInteger base width = (outcome, after))
    (left : 2 ≤ after.rest.length) :
    (input.followedBy more).takeInteger base width = (outcome, after.followedBy more) := by
  unfold takeInteger at took ⊢
  have start : (⟨input.followedBy more, width⟩ : Field (TextSource w)) =
      Field.followedBy more ⟨input, width⟩ := rfl
  cases first : Field.takeSign ⟨input, width⟩ with
  | mk sign behind =>
    cases second : base.takeMark behind with
    | mk mark further =>
      cases third : further.takeWhile (CodeUnit.isDigit mark.base) with
      | mk digits last =>
        have marked := Field.takeMark_left second
        have counted := Field.takeWhile_left third
        simp only [first, second, third] at took
        -- At most one unit is given back, so the digits ended in front of one that was left.
        have seen : 1 ≤ last.input.rest.length := by
          split at took
          · split at took
            · rename_i marker found
              obtain ⟨-, rfl⟩ := Prod.mk.inj took
              have unmarked := putBack_left marker last.input
              omega
            · obtain ⟨-, rfl⟩ := Prod.mk.inj (took.symm.trans (fail_text _)).symm
              have unsigned := putBack?_left sign last.input
              omega
          · obtain ⟨-, rfl⟩ := Prod.mk.inj took
            omega
        have first' : (Field.followedBy more ⟨input, width⟩).takeSign =
            (sign, behind.followedBy more) := Field.takeIf_followedBy more first (by omega)
        have second' := Field.takeMark_followedBy more second (by omega)
        have third' := Field.takeWhile_followedBy more third seen
        simp only [start, first', second', third']
        split at took
        · rename_i none
          simp only [none, if_true]
          split at took
          · rename_i marker found
            obtain ⟨rfl, rfl⟩ := Prod.mk.inj took
            simp only [Field.followedBy, putBack_followedBy]
          · rename_i found
            simp only [Field.followedBy, putBack?_followedBy]
            exact fail_followedBy more took (by omega)
        · rename_i digits
          obtain ⟨rfl, rfl⟩ := Prod.mk.inj took
          simp only [digits]
          rfl

theorem takeDecimal_followedBy {point : Nat} {width : Option Nat}
    {outcome : Except Halt Decimal} (took : input.takeDecimal point width = (outcome, after))
    (left : 3 ≤ after.rest.length) :
    (input.followedBy more).takeDecimal point width = (outcome, after.followedBy more) := by
  unfold takeDecimal at took ⊢
  have start : (⟨input.followedBy more, width⟩ : Field (TextSource w)) =
      Field.followedBy more ⟨input, width⟩ := rfl
  cases first : Field.takeSign ⟨input, width⟩ with
  | mk sign behind =>
    cases second : behind.takeWhile (CodeUnit.isDigit 10) with
    | mk whole further =>
      cases third : further.takeFraction point with
      | mk fraction last =>
        have counted := Field.takeWhile_left second
        have pointed := Field.takeFraction_left third
        simp only [first, second, third] at took
        -- At most the sign and the point are given back, so a unit was left before that.
        have seen : 1 ≤ last.input.rest.length := by
          split at took
          · obtain ⟨-, rfl⟩ := Prod.mk.inj (took.symm.trans (fail_text _)).symm
            have unpointed := putBack?_left fraction.1 last.input
            have unsigned := putBack?_left sign (last.input.putBack? fraction.1)
            omega
          · have raised : last.takeExponent.2.input.rest.length ≤ last.input.rest.length :=
              Field.takeExponent_left rfl
            obtain ⟨-, rfl⟩ := Prod.mk.inj took
            omega
        have first' : (Field.followedBy more ⟨input, width⟩).takeSign =
            (sign, behind.followedBy more) := Field.takeIf_followedBy more first (by omega)
        have second' := Field.takeWhile_followedBy more second (by omega)
        have third' := Field.takeFraction_followedBy more third seen
        simp only [start, first', second', third']
        split at took
        · rename_i none
          simp only [none, if_true, Field.followedBy, putBack?_followedBy]
          exact fail_followedBy more took (by omega)
        · rename_i digits
          obtain ⟨rfl, rfl⟩ := Prod.mk.inj took
          have raised : (last.followedBy more).takeExponent =
              (last.takeExponent.1, last.takeExponent.2.followedBy more) :=
            Field.takeExponent_followedBy more rfl left
          simp only [digits, raised]
          rfl

theorem takeText_followedBy {shape : TextShape} {elements width : Option Nat}
    {outcome : Text w × TextEnd} (took : input.takeText shape elements width = (outcome, after))
    (going : 1 ≤ after.rest.length) :
    (input.followedBy more).takeText shape elements width = (outcome, after.followedBy more) := by
  have reached := reaches_takeRun shape.accepts (elements.map shape.room) (shape.width width)
    (input.dropLeading shape)
  have run : 1 ≤ ((input.dropLeading shape).takeRun shape.accepts (elements.map shape.room)
      (shape.width width)).input.rest.length → _ := takeRun_followedBy more shape.accepts _ _
  unfold takeText at took ⊢
  generalize (input.dropLeading shape).takeRun shape.accepts (elements.map shape.room)
    (shape.width width) = taken at took reached run
  -- Looking moves nothing, so what is left is what the run left.
  have last : after = taken.input := by
    simp only [unmatched_stays] at took
    split at took
    · exact (Prod.mk.inj took).2.symm
    · split at took
      · exact (Prod.mk.inj took).2.symm
      · exact (Prod.mk.inj took).2.symm
  subst last
  have leading : (input.followedBy more).dropLeading shape =
      (input.dropLeading shape).followedBy more := by
    cases shape with
    | word => exact dropSpace_followedBy more (Nat.le_trans going reached.left)
    | characters => rfl
    | members set => rfl
  have lacks : shape.lacks (taken.followedBy more) = shape.lacks taken := by cases shape <;> rfl
  have overflows : (taken.followedBy more).overflows = taken.overflows := rfl
  simp only [leading, run going, lacks, overflows]
  cases full : taken.overflows with
  | true =>
    simp only [full, if_true] at took ⊢
    cases took
    rfl
  | false =>
    cases short : shape.lacks taken with
    | true =>
      have stopped := unmatched_followedBy more going
      simp only [full, short, Bool.false_eq_true, if_false, if_true] at took ⊢
      obtain ⟨rfl, -⟩ := Prod.mk.inj took
      simp only [Run.followedBy, stopped, unmatched_stays]
    | false =>
      simp only [full, short, Bool.false_eq_true, if_false] at took ⊢
      cases took
      rfl

theorem takeLiteral_followedBy {code : Nat} {halt : Option Halt}
    (took : input.takeLiteral code = (halt, after)) (going : 1 ≤ after.rest.length) :
    (input.followedBy more).takeLiteral code = (halt, after.followedBy more) := by
  have reached : input.Reaches after := by
    rcases takeLiteral_text code input with ⟨further, reached, matched⟩ | failed
    · obtain ⟨-, rfl⟩ := Prod.mk.inj (took.symm.trans matched)
      exact reached
    · obtain ⟨-, rfl⟩ := Prod.mk.inj (took.symm.trans failed)
      exact Reaches.stay after
  have longer : 1 ≤ input.rest.length := Nat.le_trans going reached.left
  unfold takeLiteral at took ⊢
  simp only [peek_followedBy more longer] at took ⊢
  split at took
  · rename_i found
    simp only [found, if_true] at took ⊢
    cases took
    have consumed := consume_followedBy more longer
    exact congrArg (Prod.mk none) consumed
  · rename_i other
    cases took
    have stopped := unmatched_followedBy more longer
    simp only [other]
    exact congrArg (fun stopped => (some stopped.1, stopped.2)) stopped

theorem ReadsOrFails.reaches {α : Type} {outcome : Except Halt α}
    (reads : ReadsOrFails input (outcome, after)) : input.Reaches after := by
  rcases reads with ⟨value, count, within, same⟩ | failed
  · obtain ⟨-, rfl⟩ := Prod.mk.inj same
    exact ⟨count, within, rfl⟩
  · obtain ⟨-, rfl⟩ := Prod.mk.inj (failed.trans (fail_text input))
    exact Reaches.stay after

theorem convertInteger_followedBy {base : IntegerBase} {width : Option Nat} {result : Result w}
    (read : input.convertInteger base width = (result, after)) (left : 2 ≤ after.rest.length) :
    (input.followedBy more).convertInteger base width = (result, after.followedBy more) := by
  have reads := takeInteger_text base width input.dropSpace
  unfold convertInteger at read ⊢
  cases took : input.dropSpace.takeInteger base width with
  | mk outcome further =>
    rw [took] at read reads
    have longer := reads.reaches.left
    cases outcome with
    | ok value =>
      cases read
      rw [dropSpace_followedBy more (by omega), takeInteger_followedBy more took left]
    | error halt =>
      cases read
      rw [dropSpace_followedBy more (by omega), takeInteger_followedBy more took left]

theorem convertFloat_followedBy {point : Nat} {width : Option Nat} {result : Result w}
    (read : input.convertFloat point width = (result, after)) (left : 3 ≤ after.rest.length) :
    (input.followedBy more).convertFloat point width = (result, after.followedBy more) := by
  have reads := takeDecimal_text point width input.dropSpace
  unfold convertFloat at read ⊢
  cases took : input.dropSpace.takeDecimal point width with
  | mk outcome further =>
    rw [took] at read reads
    have longer := reads.reaches.left
    cases outcome with
    | ok number =>
      cases read
      rw [dropSpace_followedBy more (by omega), takeDecimal_followedBy more took left]
    | error halt =>
      cases read
      rw [dropSpace_followedBy more (by omega), takeDecimal_followedBy more took left]

theorem convertText_followedBy {policy : Policy} {index : Nat} {shape : TextShape}
    {elements width : Option Nat} {result : Result w}
    (read : input.convertText policy index shape elements width = (result, after))
    (going : 1 ≤ after.rest.length) :
    (input.followedBy more).convertText policy index shape elements width =
      (result, after.followedBy more) := by
  unfold convertText at read ⊢
  cases took : input.takeText shape elements width with
  | mk outcome further =>
    obtain ⟨units, ended⟩ := outcome
    rw [took] at read
    cases ended with
    | complete | overflow | failed =>
      cases read
      rw [takeText_followedBy more took going]

/-- Three units that are left behind were all that the conversion could have seen. -/
theorem convert_followedBy {rules : Rules} {index : Nat} {conversion : Conversion}
    {elements : Option Nat} {result : Result w}
    (read : input.convert rules index conversion elements = (result, after))
    (left : 3 ≤ after.rest.length) :
    (input.followedBy more).convert rules index conversion elements =
      (result, after.followedBy more) := by
  obtain ⟨suppress, width, length, kind⟩ := conversion
  cases kind with
  | decimal | unsigned | integer | octal | hex | pointer =>
    exact convertInteger_followedBy more read (by omega)
  | float => exact convertFloat_followedBy more read left
  | string swapped | chars swapped | charClass set =>
    exact convertText_followedBy more read (by omega)
  | count =>
    cases read
    rfl
  | percent =>
    obtain ⟨rfl, rfl⟩ := Prod.mk.inj read
    have seen : 1 ≤ (input.takeLiteral '%'.toNat).2.rest.length := Nat.le_trans (by decide) left
    have matched := takeLiteral_followedBy more rfl seen
    exact congrArg (fun matched : Option Halt × Counted (TextSource w) =>
      ((⟨none, matched.1⟩ : Result w), matched.2)) matched

end Counted

namespace Progress

theorem execute_followedBy {rules : Rules} {directive : Directive}
    {before after : Progress (TextSource w)} {halt : Option Halt}
    (executed : before.execute rules directive = (halt, after))
    (left : 3 ≤ after.input.rest.length) :
    (before.followedBy more).execute rules directive = (halt, after.followedBy more) := by
  have seen : 1 ≤ after.input.rest.length := Nat.le_trans (by decide) left
  cases directive with
  | whitespace =>
    cases executed
    have dropped := Counted.dropSpace_followedBy more seen
    exact congrArg (fun input => (none, { before with input })) dropped
  | literal code =>
    cases executed
    have matched := Counted.takeLiteral_followedBy more rfl seen
    exact congrArg (fun matched => (matched.1, { before with input := matched.2 })) matched
  | conversion conversion =>
    unfold execute convert at executed ⊢
    simp only at executed ⊢
    have arguments : (before.followedBy more).arguments = before.arguments := rfl
    have completed : (before.followedBy more).completed = before.completed := rfl
    have input : (before.followedBy more).input = before.input.followedBy more := rfl
    simp only [arguments, completed, input]
    cases granted : rules.policy.destination w (before.completed + 1) conversion
        before.arguments with
    | mk taken further =>
      rw [granted] at executed
      cases taken with
      | error broken =>
        obtain ⟨rfl, rfl⟩ := Prod.mk.inj executed
        rfl
      | ok destination =>
        simp only at executed ⊢
        cases read : before.input.convert rules (before.completed + 1) conversion
            (destination.map Destination.room) with
        | mk result last =>
          rw [read] at executed
          simp only at executed
          have reached : last = after.input := by
            split at executed
            · exact congrArg (·.2.input) executed
            · exact congrArg (·.2.input) executed
          rw [Counted.convert_followedBy more read (reached ▸ left)]
          simp only
          cases stopped : result.halt with
          | some halted =>
            rw [stopped] at executed
            obtain ⟨rfl, rfl⟩ := Prod.mk.inj executed
            rfl
          | none =>
            rw [stopped] at executed
            obtain ⟨rfl, rfl⟩ := Prod.mk.inj executed
            rfl

theorem run_followedBy {rules : Rules} {directives : List Directive}
    {before after : Progress (TextSource w)} {halt : Option Halt}
    (ran : before.run rules directives = (halt, after)) (left : 3 ≤ after.input.rest.length) :
    (before.followedBy more).run rules directives = (halt, after.followedBy more) := by
  induction directives generalizing before with
  | nil =>
    cases ran
    rfl
  | cons directive directives ih =>
    rw [run] at ran ⊢
    cases executed : before.execute rules directive with
    | mk stopped middle =>
      rw [executed] at ran
      cases stopped with
      | some halt =>
        cases ran
        rw [execute_followedBy more executed left]
      | none =>
        -- Later directives only leave less, so this one left three units as well.
        have whole : middle.run rules directives = (halt, after) := ran
        have reached := run_reaches rules directives middle
        rw [whole] at reached
        rw [execute_followedBy more executed (Nat.le_trans left reached.left)]
        exact ih ran

theorem runFormat_followedBy {rules : Rules} {reading : Format.Reading}
    {before after : Progress (TextSource w)} {halt : Option Halt}
    (ran : before.runFormat rules reading = (halt, after)) (left : 3 ≤ after.input.rest.length) :
    (before.followedBy more).runFormat rules reading = (halt, after.followedBy more) := by
  unfold runFormat at ran ⊢
  cases whole : before.run rules (reading.steps.map Prod.fst) with
  | mk stopped middle =>
    rw [whole] at ran
    cases stopped with
    | some halt =>
      cases ran
      rw [run_followedBy more whole left]
    | none =>
      cases ran
      rw [run_followedBy more whole left]

end Progress

/-- A scan that leaves three units of its input has not looked beyond them. However the input
goes on behind them, it reports and stores the same, and leaves them in front of what follows,
up to the first terminator. -/
theorem scan_looks_three_ahead (rules : Rules) (format : Text w) (slots : List Slot)
    {text : Text w} (nulFree : ∀ unit ∈ text, unit.code ≠ 0) (more : Text w)
    (left : 3 ≤ (scan rules format slots (TextSource.ofText text)).source.after.length) :
    let done := scan rules format slots (TextSource.ofText text)
    let longer := scan rules format slots (TextSource.ofText (text ++ more))
    longer.report = done.report ∧ longer.slots = done.slots ∧
      longer.source.before = done.source.before ∧
      longer.source.after = done.source.after ++ more.beforeNul := by
  intro done longer
  have opened : TextSource.ofText (text ++ more) =
      (TextSource.ofText text).followedBy more.beforeNul := by
    have whole : text.beforeNul = text := Text.beforeNul_nulFree nulFree
    simp only [TextSource.ofText, Text.beforeNul_append nulFree, TextSource.followedBy, whole]
  have whole : (Progress.start w rules slots (TextSource.ofText text)).runFormat rules
      (Format.read format) = (_, _) := rfl
  have ran := Progress.runFormat_followedBy more.beforeNul whole left
  have started : (Progress.start w rules slots (TextSource.ofText text)).followedBy
      more.beforeNul = Progress.start w rules slots (TextSource.ofText (text ++ more)) := by
    rw [opened]
    rfl
  rw [started] at ran
  have same : longer = { done with source := done.source.followedBy more.beforeNul } := by
    simp only [longer, done, scan, ran]
    rfl
  rw [same]
  exact ⟨rfl, rfl, rfl, rfl⟩

/-- The last three units were all looked at and given back. -/
theorem given_back_sign_looks_ahead :
    let format := Text.ofString .narrow "%d%f"
    let slots := [.integer ⟨true, .word⟩ 0, .float .single 0]
    let text := Text.ofString .narrow "1 +.x"
    let more := Text.ofString .narrow "5" ++ [.nul] ++ Text.ofString .narrow "e7"
    let done := scan ⟨.plain, .c⟩ format slots (TextSource.ofText text)
    let longer := scan ⟨.plain, .c⟩ format slots (TextSource.ofText (text ++ more))
    (∀ unit ∈ text, unit.code ≠ 0) ∧ done.source.after.length = 3 ∧
      longer.report = done.report ∧ longer.report.halt = some (.mismatch 2) ∧
      longer.slots = [.integer ⟨true, .word⟩ 1, .float .single 0] ∧
      longer.source.after = Text.ofString .narrow "+.x5" := by
  intro format slots text more done longer
  have nulFree : ∀ unit ∈ text, unit.code ≠ 0 := by decide +kernel
  have three : done.source.after.length = 3 := by decide +kernel
  have halted : done.report.halt = some (.mismatch 2) := by decide +kernel
  obtain ⟨report, stored, -, left⟩ :=
    scan_looks_three_ahead ⟨.plain, .c⟩ format slots nulFree more (Nat.le_of_eq three.symm)
  exact ⟨nulFree, three, report, (congrArg Report.halt report).trans halted,
    stored.trans (by decide +kernel), left.trans (by decide +kernel)⟩

/-- Two units are not enough: a digit behind a sign and a point makes them a number. -/
example :
    let source (text : String) := TextSource.ofText (Text.ofString .narrow text)
    let halt (text : String) :=
      (scan ⟨.plain, .c⟩ (Text.ofString .narrow "%*f") [] (source text)).report.halt
    halt "+." = some (.mismatch 0) ∧ halt "+.5" = none := by
  decide +kernel

end FormattedInput
