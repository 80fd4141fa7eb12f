import FormattedInput.Proofs.FormatAppend
import FormattedInput.Proofs.Succession
import FormattedInput.Proofs.TextScan

namespace FormattedInput

variable {w : Width}

namespace Format

theorem read_append {front back : Text w} (nulFree : ∀ unit ∈ front, unit.code ≠ 0)
    (sound : (read front).error = none) (uncut : splitsModifier front back = false) :
    Joins (read front).directives (read back).directives (read (front ++ back)).directives ∧
      (read (front ++ back)).error =
        (read back).error.map (FormatError.later front.length) := by
  have whole : front.beforeNul = front := Text.beforeNul_nulFree nulFree
  have both : (front ++ back).beforeNul = front ++ back.beforeNul :=
    Text.beforeNul_append nulFree back
  have uncut' : splitsModifier front back.beforeNul = false := by
    cases splits : splitsModifier front back.beforeNul with
    | false => rfl
    | true =>
      have further := splitsModifier_append splits (back.dropWhile fun unit => unit.code ≠ 0)
      rw [Text.beforeNul, List.takeWhile_append_dropWhile, uncut] at further
      contradiction
  unfold read at sound ⊢
  rw [whole] at sound ⊢
  rw [both]
  have joined := readFrom_append 0 sound uncut'
  rw [Nat.zero_add] at joined
  exact joined

end Format

def Directive.isConversion : Directive → Bool
  | conversion _ => true
  | whitespace | literal _ => false

namespace Counted

theorem dropSpace_dropSpace (input : Counted (TextSource w)) :
    input.dropSpace.dropSpace = input.dropSpace := by
  have none (text : Text w) : (text.drop (text.takeWhile CodeUnit.isSpace).length).takeWhile
      CodeUnit.isSpace = [] := by
    induction text with
    | nil => rfl
    | cons unit text ih =>
      rw [List.takeWhile_cons]
      split
      · exact ih
      · rename_i other
        rw [List.length_nil, List.drop_zero, List.takeWhile_cons, if_neg other]
  rw [dropSpace_text input, dropSpace_text, rest_advance, none]
  rfl

end Counted

namespace Progress

theorem run_joins (rules : Rules) {first second whole : List Directive}
    (joins : Format.Joins first second whole) (start : Progress (TextSource w)) :
    start.run rules whole = andThen (start.run rules first) (run rules second) := by
  cases joins with
  | apart => exact run_append rules first second start
  | merged first second =>
    rw [run_append, run_append]
    cases start.run rules first with
    | mk halt after =>
      cases halt with
      | some halt => rfl
      | none => simp only [andThen, run, execute, Counted.dropSpace_dropSpace]

theorem runFormat_append (rules : Rules) {front back : Text w}
    (nulFree : ∀ unit ∈ front, unit.code ≠ 0) (sound : (Format.read front).error = none)
    (uncut : Format.splitsModifier front back = false) (start : Progress (TextSource w)) :
    start.runFormat rules (Format.read (front ++ back)) =
      andThen (start.run rules (Format.read front).directives) fun before =>
        andThen (before.run rules (Format.read back).directives) fun after =>
          (((Format.read back).error.map (FormatError.later front.length)).map .invalidFormat,
            after) := by
  obtain ⟨joins, error⟩ := Format.read_append nulFree sound uncut
  have joined : start.run rules ((Format.read (front ++ back)).steps.map Prod.fst) =
      andThen (start.run rules (Format.read front).directives)
        (run rules (Format.read back).directives) := run_joins rules joins start
  rw [runFormat_andThen, joined, error]
  cases start.run rules (Format.read front).directives with
  | mk halt after => cases halt <;> rfl

theorem succeeds_start {σ : Type} (w : Width) (rules : Rules) {before : Progress σ}
    (within : before.arguments.taken ≤ before.arguments.slots.length) (format : Nat) :
    Succeeds ⟨before.input.consumed, before.completed, format⟩ before.assigned
      (before.arguments.slots.take before.arguments.taken) [] before
      (Progress.start w rules (before.arguments.slots.drop before.arguments.taken)
        before.input.source) where
  input := rfl
  arguments :=
    { slots := (List.take_append_drop before.arguments.taken before.arguments.slots).symm
      taken := by
        rw [List.length_take, Nat.min_eq_left within]
        rfl
      earlier := nofun }
  completed := rfl
  assigned := rfl

section Completing

variable {σ : Type} [UnitSource σ w]

theorem completed_execute (rules : Rules) {directive : Directive} {before after : Progress σ}
    (executed : before.execute rules directive = (none, after)) :
    after.completed = before.completed + if directive.isConversion then 1 else 0 := by
  cases directive with
  | whitespace =>
    cases executed
    rfl
  | literal code =>
    obtain ⟨-, rfl⟩ := Prod.mk.inj executed
    rfl
  | conversion conversion =>
    rw [execute, convert] at executed
    split at executed
    · cases executed
    · simp only at executed
      split at executed
      · cases executed
      · cases executed
        rfl

theorem completed_run (rules : Rules) {directives : List Directive} {before after : Progress σ}
    (ran : before.run rules directives = (none, after)) :
    after.completed = before.completed + directives.countP Directive.isConversion := by
  induction directives generalizing before with
  | nil =>
    cases ran
    rfl
  | cons directive directives ih =>
    rw [run] at ran
    split at ran
    · cases ran
    · rename_i middle executed
      rw [ih ran, completed_execute rules executed, List.countP_cons]
      omega

theorem fault_succeeds {headway : Headway} {assigned : Nat} {front : List Slot}
    {counts : List (Nat × Nat)} {whole part : Option Halt × Progress σ}
    (step : StepSucceeds headway assigned front counts whole part) (error : Option FormatError) :
    StepSucceeds headway assigned front counts
      (andThen whole fun after =>
        ((error.map (FormatError.later headway.format)).map .invalidFormat, after))
      (andThen part fun after => (error.map .invalidFormat, after)) := by
  obtain ⟨halt, whole⟩ := whole
  obtain ⟨halt', part⟩ := part
  obtain ⟨same, succeeds⟩ := step
  obtain rfl : halt = halt'.map (Halt.after headway) := same
  cases halt' with
  | some halt => exact ⟨rfl, succeeds⟩
  | none =>
    refine ⟨?_, succeeds⟩
    cases error <;> rfl

/-- Where a run did not halt, what follows does what it does from a new start over the slots
that are left. -/
theorem run_takes_over (rules : Rules) {directives : List Directive} {slots : List Slot}
    {source : σ} {before : Progress σ}
    (ran : (start w rules slots source).run rules directives = (none, before)) (format : Nat)
    (later : List Directive) :
    let part := start w rules (slots.drop before.arguments.taken) before.input.source
    StepSucceeds ⟨before.input.consumed, directives.countP Directive.isConversion, format⟩
      before.assigned (before.arguments.slots.take before.arguments.taken)
      (part.counted rules later) (before.run rules later) (part.run rules later) := by
  have within : before.arguments.taken ≤ before.arguments.slots.length := by
    have inside : (start w rules slots source).arguments.taken ≤ slots.length := Nat.zero_le _
    have last := run_within rules directives inside
    rwa [ran] at last
  have kept : before.arguments.slots.drop before.arguments.taken =
      slots.drop before.arguments.taken := by
    have left := left_run rules directives (start w rules slots source)
    rwa [ran] at left
  have completed : before.completed = directives.countP Directive.isConversion :=
    (completed_run rules ran).trans (Nat.zero_add _)
  rw [← kept, ← completed]
  exact run_succeeds (succeeds_start w rules within format) rules later

end Completing

end Progress

/-- Let a format be read without an error and end outside the spelling of any modifier. If
the scan by it halts, so does, alike, the scan by every format that begins with it.
Otherwise the longer scan leaves the input where the scan of what follows leaves it, over
the slots that were left, and stores what both store, but that a count of the second tells
the units of both. The assignments and the units add up, and the second scan halts as it
does alone, told further on. -/
theorem scan_splits (rules : Rules) {front back : Text w}
    (nulFree : ∀ unit ∈ front, unit.code ≠ 0) (sound : (Format.read front).error = none)
    (uncut : Format.splitsModifier front back = false) (slots : List Slot)
    (source : TextSource w) :
    let start := Progress.start w rules slots source
    let first := scan rules front slots source
    let both := scan rules (front ++ back) slots source
    (first.report.halt ≠ none → both = first) ∧
      (first.report.halt = none →
        let taken := (start.runFormat rules (Format.read front)).2.arguments.taken
        let second := scan rules back (slots.drop taken) first.source
        let counts := (Progress.start w rules (slots.drop taken) first.source).counted rules
          (Format.read back).directives
        let headway : Headway := ⟨first.report.consumed,
          (Format.read front).directives.countP Directive.isConversion, front.length⟩
        both.source = second.source ∧
          both.slots = first.slots.take taken ++
            restate first.report.consumed counts second.slots ∧
          both.report.assigned = first.report.assigned + second.report.assigned ∧
          both.report.consumed = first.report.consumed + second.report.consumed ∧
          both.report.halt = second.report.halt.map (Halt.after headway)) := by
  intro start first both
  have whole := start.runFormat_append rules nulFree sound uncut
  cases ran : start.run rules (Format.read front).directives with
  | mk halt before =>
    have alone : start.runFormat rules (Format.read front) = (halt, before) :=
      (start.runFormat_sound rules sound).trans ran
    have ended : first.report.halt = halt := congrArg Prod.fst alone
    rw [ran] at whole
    cases halt with
    | some halt =>
      have same : both = first := by
        simp only [both, first, scan]
        rw [whole, alone]
        rfl
      exact ⟨fun _ => same, fun none => by rw [ended] at none; cases none⟩
    | none =>
      refine ⟨fun halted => absurd ended halted, ?_⟩
      intro _ taken second counts headway
      have consumed : first.report.consumed = before.input.consumed :=
        congrArg (fun ran => ran.2.input.consumed) alone
      have assigned : first.report.assigned = before.assigned :=
        congrArg (fun ran => ran.2.assigned) alone
      have left : first.source = before.input.source :=
        congrArg (fun ran => ran.2.input.source) alone
      have stored : first.slots = before.arguments.slots :=
        congrArg (fun ran => ran.2.arguments.slots) alone
      have place : taken = before.arguments.taken :=
        congrArg (fun ran => ran.2.arguments.taken) alone
      have alike := Progress.run_takes_over rules ran front.length (Format.read back).directives
      rw [← consumed, ← assigned, ← left, ← stored, ← place] at alike
      -- Both scans now run the second directives, and then meet the error of that format.
      have further : start.runFormat rules (Format.read (front ++ back)) =
          Progress.andThen (before.run rules (Format.read back).directives) fun after =>
            (((Format.read back).error.map (FormatError.later front.length)).map
              .invalidFormat, after) := whole
      have alone' : (Progress.start w rules (slots.drop taken) first.source).runFormat rules
          (Format.read back) =
          Progress.andThen ((Progress.start w rules (slots.drop taken) first.source).run rules
            (Format.read back).directives)
            fun after => ((Format.read back).error.map .invalidFormat, after) :=
        Progress.runFormat_andThen rules _ _
      have step := Progress.fault_succeeds alike (Format.read back).error
      rw [← further, ← alone'] at step
      obtain ⟨halts, input, arguments, -, assignments⟩ := step
      have moved := congrArg Counted.source input
      have counted := congrArg Counted.consumed input
      exact ⟨moved, arguments.slots, assignments, counted, halts⟩

/-- The whitespace on both sides of a boundary is dropped once, and the count behind it
tells the units of both scans. -/
theorem meeting_spaces_split :
    let front := Text.ofString .narrow "%d "
    let back := Text.ofString .narrow " %n"
    let slots : List Slot := [.integer ⟨true, .word⟩ 0, .integer ⟨true, .word⟩ 0]
    let source := TextSource.ofText (Text.ofString .narrow "12  x")
    let both := scan ⟨.plain, .c⟩ (front ++ back) slots source
    (∀ unit ∈ front, unit.code ≠ 0) ∧ (Format.read front).error = none ∧
      Format.splitsModifier front back = false ∧
      both.slots = [.integer ⟨true, .word⟩ 12, .integer ⟨true, .word⟩ 4] ∧
      both.report.halt = none := by
  intro front back slots source both
  have nulFree : ∀ unit ∈ front, unit.code ≠ 0 := by decide +kernel
  have sound : (Format.read front).error = none := by decide +kernel
  have uncut : Format.splitsModifier front back = false := by decide +kernel
  obtain ⟨-, goesOn⟩ := scan_splits ⟨.plain, .c⟩ nulFree sound uncut slots source
  have ended : (scan ⟨.plain, .c⟩ front slots source).report.halt = none := by decide +kernel
  obtain ⟨-, stored, -, -, halts⟩ := goesOn ended
  exact ⟨nulFree, sound, uncut, stored.trans (by decide +kernel),
    halts.trans (by decide +kernel)⟩

/-- The exception is a real one. A six after the modifier for pointers is a literal, but
with a four after it the modifier is the one for 64 bits, and what matched as literals is
a conversion without an argument. -/
theorem cut_modifier_unsplit :
    let front := Text.ofString .narrow "%I6"
    let back := Text.ofString .narrow "4d"
    let source := TextSource.ofText (Text.ofString .narrow "64d")
    let first := scan ⟨.plain, .c⟩ front [] source
    let second := scan ⟨.plain, .c⟩ back [] first.source
    let both := scan ⟨.plain, .c⟩ (front ++ back) [] source
    (∀ unit ∈ front, unit.code ≠ 0) ∧ (Format.read front).error = none ∧
      first.report.halt = none ∧ second.report.halt = none ∧
      both.report.halt = some (.violation (.missingArgument 1)) ∧
      both.source ≠ second.source ∧
      both.report.consumed ≠ first.report.consumed + second.report.consumed := by
  decide +kernel

end FormattedInput
