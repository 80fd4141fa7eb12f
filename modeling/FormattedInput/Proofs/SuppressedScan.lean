import FormattedInput.Proofs.Running
import FormattedInput.Proofs.StarredFormat
import FormattedInput.Scan.Report
import FormattedInput.Source.Text

namespace FormattedInput

variable {σ : Type} {w : Width} [UnitSource σ w]

namespace Halt

def unplaced : Halt → Halt
  | invalidFormat error => .invalidFormat { error with offset := 0 }
  | halt => halt

def isOnDestination : Halt → Bool
  | destinationFull _ _ | violation _ => true
  | mismatch _ | inputExhausted _ | invalidFormat _ => false

end Halt

theorem Policy.overflow_onDestination (policy : Policy) (index capacity : Nat) :
    (policy.overflow index capacity).isOnDestination = true := by
  cases policy <;> rfl

namespace Counted

theorem takeRun_roomy {accept : CodeUnit w → Bool} {room width : Option Nat} {input : Counted σ}
    (fits : (input.takeRun accept room width).overflows = false) :
    input.takeRun accept none width = input.takeRun accept room width := by
  fun_induction takeRun accept room width input with
  | case1 room input => rw [takeRun_round, if_pos rfl]
  | case2 room width input going source looked => rw [takeRun_round, if_neg going, looked]
  | case3 width input going unit source looked accepted => cases fits
  | case4 room width input going unit source looked accepted roomy run =>
    rename_i ih
    have later := ih fits
    rw [takeRun_round, if_neg going, looked]
    simp only [if_pos accepted, reduceCtorEq, if_false, Option.map_none, later]
    rfl
  | case5 room width input going unit source looked rejected =>
    rw [takeRun_round, if_neg going, looked]
    simp only [if_neg rejected]

theorem takeText_roomy {shape : TextShape} {elements width : Option Nat} {input : Counted σ}
    (fits : (input.takeText shape elements width).1.2 ≠ .overflow) :
    input.takeText shape none width = input.takeText shape elements width := by
  have roomy : ((input.dropLeading shape).takeRun shape.accepts (elements.map shape.room)
      (shape.width width)).overflows = false := by
    rw [← Bool.not_eq_true]
    intro full
    rw [takeText, if_pos full] at fits
    exact fits rfl
  rw [takeText, takeText, Option.map_none, takeRun_roomy roomy]

theorem convertText_roomy {policy : Policy} {index : Nat} {shape : TextShape}
    {elements width : Option Nat} {input : Counted σ}
    (settled : ∀ halt ∈ (input.convertText policy index shape elements width).1.halt,
      halt.isOnDestination = false) (place : Nat) :
    input.convertText policy place shape none width =
      input.convertText policy index shape elements width := by
  unfold convertText at settled ⊢
  cases read : input.takeText shape elements width with
  | mk found after =>
    have fits : found.2 ≠ .overflow := by
      intro full
      obtain ⟨units, rfl⟩ : ∃ units, found = (units, .overflow) := ⟨found.1, Prod.ext rfl full⟩
      rw [read] at settled
      have stopped := settled _ rfl
      rw [policy.overflow_onDestination] at stopped
      contradiction
    have alike : input.takeText shape none width = (found, after) :=
      (takeText_roomy (by rwa [read])).trans read
    obtain ⟨units, ended⟩ := found
    cases ended with
    | overflow => exact absurd rfl fits
    | complete => rw [alike]
    | failed halt => rw [alike]

theorem convert_roomy {rules : Rules} {index : Nat} {asked : Conversion}
    {elements : Option Nat} {input : Counted σ}
    (settled : ∀ halt ∈ (input.convert rules index asked elements).1.halt,
      halt.isOnDestination = false) (place : Nat) :
    input.convert rules place { asked with suppress := true } none =
      input.convert rules index asked elements := by
  obtain ⟨suppress, width, length, kind⟩ := asked
  cases kind with
  | string swapped | chars swapped | charClass set => exact convertText_roomy settled place
  | decimal | integer | octal | unsigned | hex | float | pointer | count | percent => rfl

end Counted

namespace Progress

/-- Two outcomes of a step or of a run that went the same way, one of which assigned nothing
on it. -/
structure Quietly (assigned : Nat) (quiet full : Option Halt × Progress σ) : Prop where
  halt : quiet.1 = full.1
  input : quiet.2.input = full.2.input
  assigned : quiet.2.assigned = assigned

variable {quiet full : Progress σ}

theorem convert_quietly {rules : Rules} {asked : Conversion} (same : quiet.input = full.input)
    (settled : ∀ halt ∈ (full.convert rules asked).1, halt.isOnDestination = false) :
    Quietly quiet.assigned (quiet.convert rules { asked with suppress := true })
      (full.convert rules asked) := by
  have nothing : rules.policy.destination w (quiet.completed + 1) { asked with suppress := true }
      quiet.arguments = (.ok none, quiet.arguments) := by
    unfold Policy.destination
    rfl
  unfold convert at settled ⊢
  simp only [nothing, Option.map_none, same]
  cases taken : rules.policy.destination w (full.completed + 1) asked full.arguments with
  | mk destination arguments =>
    simp only [taken] at settled
    cases destination with
    | error broken =>
      have refused := settled (.violation broken) rfl
      contradiction
    | ok destination =>
      -- Without a destination the room is unbounded, and the room of the other was enough.
      have alike : full.input.convert rules (quiet.completed + 1) { asked with suppress := true }
          none = full.input.convert rules (full.completed + 1) asked
            (destination.map Destination.room) := by
        apply Counted.convert_roomy
        intro halt found
        simp only [Option.mem_def.mp found] at settled
        exact settled halt rfl
      simp only [alike]
      split
      · exact ⟨rfl, rfl, rfl⟩
      · exact ⟨rfl, rfl, rfl⟩

theorem execute_quietly {rules : Rules} {directive : Directive} (same : quiet.input = full.input)
    (settled : ∀ halt ∈ (full.execute rules directive).1, halt.isOnDestination = false) :
    Quietly quiet.assigned (quiet.execute rules directive.suppressed)
      (full.execute rules directive) := by
  cases directive with
  | whitespace => exact ⟨rfl, congrArg Counted.dropSpace same, rfl⟩
  | literal code =>
    simp only [Directive.suppressed, execute, same]
    exact ⟨rfl, rfl, rfl⟩
  | conversion asked => exact convert_quietly same settled

theorem run_quietly {rules : Rules} {directives : List Directive}
    (same : quiet.input = full.input)
    (settled : ∀ halt ∈ (full.run rules directives).1, halt.isOnDestination = false) :
    Quietly quiet.assigned (quiet.run rules (directives.map Directive.suppressed))
      (full.run rules directives) := by
  induction directives generalizing quiet full with
  | nil => exact ⟨rfl, same, rfl⟩
  | cons directive directives ih =>
    have step : (∀ halt ∈ (full.execute rules directive).1, halt.isOnDestination = false) →
        Quietly quiet.assigned (quiet.execute rules directive.suppressed)
          (full.execute rules directive) := execute_quietly same
    rw [List.map_cons, run, run]
    rw [run] at settled
    generalize full.execute rules directive = shown at step settled
    generalize quiet.execute rules directive.suppressed = hidden at step
    obtain ⟨stopped, after⟩ := shown
    obtain ⟨stopped', after'⟩ := hidden
    cases stopped with
    | some halt =>
      have alike := step settled
      obtain rfl : stopped' = some halt := alike.halt
      exact alike
    | none =>
      obtain ⟨halt, input, assigned⟩ := step fun _ stopped => (Option.not_mem_none _ stopped).elim
      obtain rfl : stopped' = none := halt
      simp only at assigned input settled
      rw [← assigned]
      exact ih input settled

theorem faults_unplaced {error error' : Option FormatError}
    (same : error'.map FormatError.fault = error.map FormatError.fault) :
    (error'.map Halt.invalidFormat).map Halt.unplaced =
      (error.map Halt.invalidFormat).map Halt.unplaced := by
  have only (error : Option FormatError) : (error.map Halt.invalidFormat).map Halt.unplaced =
      (error.map FormatError.fault).map fun fault => .invalidFormat ⟨fault, 0⟩ := by
    cases error <;> rfl
  rw [only, only, same]

theorem runFormat_quietly {rules : Rules} {reading hidden : Format.Reading}
    (directives : hidden.directives = reading.directives.map Directive.suppressed)
    (error : hidden.error.map FormatError.fault = reading.error.map FormatError.fault)
    (same : quiet.input = full.input)
    (settled : ∀ halt ∈ (full.runFormat rules reading).1, halt.isOnDestination = false) :
    let hushed := quiet.runFormat rules hidden
    let shown := full.runFormat rules reading
    hushed.1.map Halt.unplaced = shown.1.map Halt.unplaced ∧
      hushed.2.input = shown.2.input ∧ hushed.2.assigned = quiet.assigned := by
  have alike : Quietly quiet.assigned (quiet.run rules (hidden.steps.map Prod.fst))
      (full.run rules (reading.steps.map Prod.fst)) := by
    have listed : hidden.steps.map Prod.fst =
        (reading.steps.map Prod.fst).map Directive.suppressed := directives
    rw [listed]
    apply run_quietly same
    intro halt stopped
    apply settled
    rw [runFormat_halted rules (Prod.ext stopped rfl)]
    exact rfl
  rw [runFormat_andThen rules reading full, runFormat_andThen rules hidden quiet]
  generalize quiet.run rules (hidden.steps.map Prod.fst) = hushed at alike
  generalize full.run rules (reading.steps.map Prod.fst) = shown at alike
  obtain ⟨halt, input, assigned⟩ := alike
  obtain ⟨stopped, after⟩ := shown
  obtain ⟨stopped', after'⟩ := hushed
  obtain rfl : stopped' = stopped := halt
  cases stopped' with
  | some halt => exact ⟨rfl, input, assigned⟩
  | none =>
    refine ⟨?_, input, assigned⟩
    exact faults_unplaced error

end Progress

/-- A scan by a format with a star in every conversion, without any destinations, uses the
source as the scan by the format itself and halts as it does, unless that was stopped by its
destinations. It assigns nothing, and a fault of the format lies further on by the stars. -/
theorem starred_scan_alike (rules : Rules) (format : Text w) (slots : List Slot) (source : σ)
    (unbroken : ∀ broken, (scan rules format slots source).report.halt ≠ some (.violation broken))
    (roomy : ∀ index capacity,
      (scan rules format slots source).report.halt ≠ some (.destinationFull index capacity)) :
    let full := scan rules format slots source
    let quiet := scan rules (Format.starred format) [] source
    quiet.source = full.source ∧ quiet.report.consumed = full.report.consumed ∧
      quiet.report.halt.map Halt.unplaced = full.report.halt.map Halt.unplaced ∧
      quiet.report.assigned = 0 := by
  obtain ⟨directives, error⟩ := Format.read_starred format
  have settled : ∀ halt ∈ (scan rules format slots source).report.halt,
      halt.isOnDestination = false := by
    intro halt stopped
    cases halt with
    | violation broken => exact absurd stopped (unbroken broken)
    | destinationFull index capacity => exact absurd stopped (roomy index capacity)
    | mismatch offset | inputExhausted offset | invalidFormat error => rfl
  have same : (Progress.start w rules [] source).input =
      (Progress.start w rules slots source).input := rfl
  obtain ⟨halt, input, assigned⟩ := Progress.runFormat_quietly directives error same settled
  exact ⟨congrArg Counted.source input, congrArg Counted.consumed input, halt, assigned⟩

theorem starred_mismatch_alike :
    let format := Text.ofString .narrow "%hd%*s%lc=%f"
    let slots := [.integer ⟨true, .half⟩ 0, .buffer .wide [.nul]]
    let source := TextSource.ofText (Text.ofString .narrow " 12 ab\t<1.5")
    let full := scan ⟨.plain, .c⟩ format slots source
    let quiet := scan ⟨.plain, .c⟩ (Format.starred format) [] source
    Format.starred format = Text.ofString .narrow "%*hd%*s%*lc=%*f" ∧
      full.report.halt = some (.mismatch 7) ∧ full.report.assigned = 2 ∧
      quiet.report.halt.map Halt.unplaced = some (.mismatch 7) ∧ quiet.report.assigned = 0 := by
  intro format slots source full quiet
  have halted : full.report.halt = some (.mismatch 7) := by decide +kernel
  have unbroken : ∀ broken, full.report.halt ≠ some (.violation broken) := by
    rw [halted]
    exact nofun
  have roomy : ∀ index capacity, full.report.halt ≠ some (.destinationFull index capacity) := by
    rw [halted]
    exact nofun
  obtain ⟨-, -, alike, assigned⟩ :=
    starred_scan_alike ⟨.plain, .c⟩ format slots source unbroken roomy
  refine ⟨by decide +kernel, halted, by decide +kernel, ?_, assigned⟩
  exact alike.trans (congrArg (Option.map Halt.unplaced) halted)

end FormattedInput
