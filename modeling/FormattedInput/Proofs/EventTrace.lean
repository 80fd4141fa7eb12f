import FormattedInput.Proofs.Refusal

/-!
What an observer is told of a scan. A conversion may give units back, but never more than it
took, so the counts that the observer sees only grow. A conversion is told once it is
complete, and the one that halts a scan is the next after those. -/
namespace FormattedInput

variable {σ : Type} {w : Width}

/-- The events of completed conversions, each with the units consumed when it was complete. -/
def tellings (completed : List (Conversion × Nat)) : List Event :=
  completed.mapIdx fun place entry => .converted (place + 1) entry.1 entry.2

def Halt.index? : Halt → Option Nat
  | destinationFull index _ => some index
  | violation broken => some broken.index
  | mismatch _ | inputExhausted _ | invalidFormat _ => none

def Directive.asked? : Directive → Option Conversion
  | conversion asked => some asked
  | whitespace | literal _ => none

theorem Halt.index?_onInput {halt : Halt} (onInput : halt.isOnInput = true) :
    halt.index? = none := by
  cases halt with
  | mismatch offset | inputExhausted offset => rfl
  | destinationFull index capacity | invalidFormat error | violation broken => contradiction

theorem Policy.index?_overflow (policy : Policy) (index capacity : Nat) :
    (policy.overflow index capacity).index? = some index := by
  cases policy <;> rfl

theorem tellings_snoc (told : List (Conversion × Nat)) (entry : Conversion × Nat) :
    tellings (told ++ [entry]) =
      tellings told ++ [.converted (told.length + 1) entry.1 entry.2] := by
  simp only [tellings, List.mapIdx_append, List.mapIdx_singleton, Nat.zero_add]

namespace Progress

/-- The conversions that were told so far account for the state between two directives. -/
structure Told (w : Width) (rules : Rules) (told : List (Conversion × Nat))
    (progress : Progress σ) : Prop where
  events : progress.events = .started w rules.policy :: tellings told
  completed : progress.completed = told.length
  assigned : progress.assigned = told.countP fun entry => entry.1.assigns
  ordered : (told.map Prod.snd).Pairwise (· ≤ ·)
  behind : ∀ entry ∈ told, entry.2 ≤ progress.input.consumed

namespace Told

variable {rules : Rules} {told : List (Conversion × Nat)} {progress : Progress σ}

theorem start (rules : Rules) (slots : List Slot) (source : σ) :
    Told w rules [] (Progress.start w rules slots source) where
  events := rfl
  completed := rfl
  assigned := rfl
  ordered := List.Pairwise.nil
  behind := nofun

theorem later (known : Told w rules told progress) {input : Counted σ}
    (further : progress.input.consumed ≤ input.consumed) (arguments : Arguments) :
    Told w rules told { progress with input, arguments } where
  events := known.events
  completed := known.completed
  assigned := known.assigned
  ordered := known.ordered
  behind entry member := Nat.le_trans (known.behind entry member) further

theorem record (known : Told w rules told progress) (asked : Conversion) :
    Told w rules (told ++ [(asked, progress.input.consumed)]) (progress.record asked) where
  events := by
    simp only [Progress.record, known.events, known.completed, tellings_snoc, List.cons_append]
  completed := by
    simp only [Progress.record, known.completed, List.length_append, List.length_singleton]
  assigned := by
    simp only [Progress.record, known.assigned, List.countP_append, List.countP_singleton]
    split <;> rfl
  ordered := by
    rw [List.map_append, List.pairwise_append]
    refine ⟨known.ordered, List.pairwise_singleton _ _, ?_⟩
    intro count member last same
    obtain ⟨entry, found, rfl⟩ := List.mem_map.mp member
    rw [List.mem_singleton.mp same]
    exact known.behind entry found
  behind := by
    intro entry member
    rcases List.mem_append.mp member with earlier | last
    · exact known.behind entry earlier
    · rw [List.mem_singleton.mp last]
      exact Nat.le_refl progress.input.consumed

end Told

end Progress

variable [UnitSource σ w]

namespace Counted

theorem consumed_unmatched (input : Counted σ) :
    input.unmatched.2.consumed = input.consumed := by
  unfold unmatched
  cases looked : input.peek with
  | mk shown seen =>
    have same : seen.consumed = input.consumed := congrArg (·.2.consumed) looked.symm
    cases shown with
    | none => exact same
    | some unit => exact same

theorem consumed_dropSpace (input : Counted σ) : input.consumed ≤ input.dropSpace.consumed := by
  have run := consumed_takeRun CodeUnit.isSpace none none input
  exact run ▸ Nat.le_add_right _ _

end Counted

theorem Field.consumed_takeExponent (field : Field σ) :
    field.input.consumed ≤ field.takeExponent.2.input.consumed := by
  have marks := field.consumed_takeIf fun unit => unit.is 'e' || unit.is 'E'
  unfold takeExponent
  cases taken : field.takeIf fun unit => unit.is 'e' || unit.is 'E' with
  | mk marker further =>
    rw [taken] at marks
    cases marker with
    | none => exact Nat.le_of_eq marks.symm
    | some marker =>
      have signs : further.takeSign.2.input.consumed =
          further.input.consumed + further.takeSign.1.toList.length :=
        further.consumed_takeIf CodeUnit.isSign
      have digits := further.takeSign.2.consumed_takeWhile (CodeUnit.isDigit 10)
      simp only [Option.toList_some, List.length_singleton] at marks ⊢
      split
      · simp only [Counted.putBack, Counted.consumed_putBack?]
        omega
      · simp only
        omega

namespace Counted

theorem consumed_takeInteger (base : IntegerBase) (width : Option Nat) (input : Counted σ) :
    input.consumed ≤ (input.takeInteger base width).2.consumed := by
  have signs : (Field.takeSign ⟨input, width⟩).2.input.consumed =
      input.consumed + (Field.takeSign ⟨input, width⟩).1.toList.length :=
    Field.consumed_takeIf CodeUnit.isSign ⟨input, width⟩
  simp only [takeInteger]
  generalize Field.takeSign ⟨input, width⟩ = sign at signs ⊢
  have marks := Field.consumed_takeMark base sign.2
  generalize base.takeMark sign.2 = mark at marks ⊢
  have digits := mark.2.consumed_takeWhile (CodeUnit.isDigit mark.1.base)
  generalize mark.2.takeWhile (CodeUnit.isDigit mark.1.base) = taken at digits ⊢
  split
  · split
    · rename_i marker found
      rw [found, Option.toList_some, List.length_singleton] at marks
      simp only [putBack]
      omega
    · simp only [fail, consumed_unmatched, consumed_putBack?]
      omega
  · simp only
    omega

theorem consumed_takeDecimal (point : Nat) (width : Option Nat) (input : Counted σ) :
    input.consumed ≤ (input.takeDecimal point width).2.consumed := by
  have signs : (Field.takeSign ⟨input, width⟩).2.input.consumed =
      input.consumed + (Field.takeSign ⟨input, width⟩).1.toList.length :=
    Field.consumed_takeIf CodeUnit.isSign ⟨input, width⟩
  simp only [takeDecimal]
  generalize Field.takeSign ⟨input, width⟩ = sign at signs ⊢
  have digits := sign.2.consumed_takeWhile (CodeUnit.isDigit 10)
  generalize sign.2.takeWhile (CodeUnit.isDigit 10) = whole at digits ⊢
  have points := whole.2.consumed_takeFraction point
  generalize whole.2.takeFraction point = fraction at points ⊢
  split
  · simp only [fail, consumed_unmatched, consumed_putBack?]
    omega
  · have raised := fraction.2.consumed_takeExponent
    simp only
    omega

theorem consumed_takeText (shape : TextShape) (elements width : Option Nat)
    (input : Counted σ) : input.consumed ≤ (input.takeText shape elements width).2.consumed := by
  have leading : input.consumed ≤ (input.dropLeading shape).consumed := by
    cases shape with
    | word => exact consumed_dropSpace input
    | characters | members set => exact Nat.le_refl input.consumed
  have run := consumed_takeRun shape.accepts (elements.map shape.room) (shape.width width)
    (input.dropLeading shape)
  simp only [takeText]
  split
  · simp only
    omega
  · split
    · simp only [consumed_unmatched]
      omega
    · simp only
      omega

theorem consumed_takeLiteral (code : Nat) (input : Counted σ) :
    input.consumed ≤ (input.takeLiteral code).2.consumed := by
  have same : input.peek.2.consumed = input.consumed := rfl
  simp only [takeLiteral]
  split
  · exact Nat.le_succ input.consumed
  · simp only [consumed_unmatched, same, Nat.le_refl]

theorem consumed_convertInteger (base : IntegerBase) (width : Option Nat) (input : Counted σ) :
    input.consumed ≤ (input.convertInteger base width).2.consumed := by
  have taken := input.dropSpace.consumed_takeInteger base width
  have further := Nat.le_trans input.consumed_dropSpace taken
  unfold convertInteger
  cases took : input.dropSpace.takeInteger base width with
  | mk outcome after =>
    rw [took] at further
    cases outcome <;> exact further

theorem consumed_convertFloat (point : Nat) (width : Option Nat) (input : Counted σ) :
    input.consumed ≤ (input.convertFloat point width).2.consumed := by
  have taken := input.dropSpace.consumed_takeDecimal point width
  have further := Nat.le_trans input.consumed_dropSpace taken
  unfold convertFloat
  cases took : input.dropSpace.takeDecimal point width with
  | mk outcome after =>
    rw [took] at further
    cases outcome <;> exact further

theorem consumed_convertText (policy : Policy) (index : Nat) (shape : TextShape)
    (elements width : Option Nat) (input : Counted σ) :
    input.consumed ≤ (input.convertText policy index shape elements width).2.consumed := by
  have further := input.consumed_takeText shape elements width
  unfold convertText
  cases took : input.takeText shape elements width with
  | mk outcome after =>
    obtain ⟨units, ended⟩ := outcome
    rw [took] at further
    cases ended <;> exact further

theorem consumed_convert (rules : Rules) (index : Nat) (conversion : Conversion)
    (elements : Option Nat) (input : Counted σ) :
    input.consumed ≤ (input.convert rules index conversion elements).2.consumed := by
  obtain ⟨suppress, width, length, kind⟩ := conversion
  cases kind with
  | decimal | unsigned | integer | octal | hex | pointer =>
    exact consumed_convertInteger _ width input
  | float => exact consumed_convertFloat _ width input
  | string swapped | chars swapped | charClass set => exact consumed_convertText _ _ _ _ width input
  | count => exact Nat.le_refl input.consumed
  | percent => exact consumed_takeLiteral _ input

end Counted

namespace Progress

theorem consumed_execute (rules : Rules) (directive : Directive) (progress : Progress σ) :
    progress.input.consumed ≤ (progress.execute rules directive).2.input.consumed := by
  cases directive with
  | whitespace => exact Counted.consumed_dropSpace progress.input
  | literal code => exact Counted.consumed_takeLiteral code progress.input
  | conversion asked =>
    rw [execute, convert]
    split
    · exact Nat.le_refl progress.input.consumed
    · rename_i destination arguments granted
      have read := progress.input.consumed_convert rules (progress.completed + 1) asked
        (destination.map Destination.room)
      simp only
      split <;> exact read

theorem told_execute {rules : Rules} {directive : Directive} {told : List (Conversion × Nat)}
    {before after : Progress σ} {halt : Option Halt} (known : Told w rules told before)
    (executed : before.execute rules directive = (halt, after)) :
    ∃ more, Told w rules (told ++ more) after ∧
      more.map Prod.fst = if halt.isNone then directive.asked?.toList else [] := by
  have further := consumed_execute rules directive before
  rw [executed] at further
  cases directive with
  | whitespace =>
    cases executed
    exact ⟨[], (List.append_nil told).symm ▸ known.later further _, rfl⟩
  | literal code =>
    obtain ⟨rfl, rfl⟩ := Prod.mk.inj executed
    refine ⟨[], (List.append_nil told).symm ▸ known.later further _, ?_⟩
    split <;> rfl
  | conversion asked =>
    rw [execute, convert] at executed
    split at executed
    · obtain ⟨rfl, rfl⟩ := Prod.mk.inj executed
      exact ⟨[], (List.append_nil told).symm ▸ known.later further _, rfl⟩
    · simp only at executed
      split at executed
      · obtain ⟨rfl, rfl⟩ := Prod.mk.inj executed
        exact ⟨[], (List.append_nil told).symm ▸ known.later further _, rfl⟩
      · obtain ⟨rfl, rfl⟩ := Prod.mk.inj executed
        exact ⟨[_], (known.later further _).record asked, rfl⟩

theorem told_run {rules : Rules} {directives : List Directive} {told : List (Conversion × Nat)}
    {before after : Progress σ} {halt : Option Halt} (known : Told w rules told before)
    (ran : before.run rules directives = (halt, after)) :
    ∃ more, Told w rules (told ++ more) after ∧
      more.map Prod.fst <+: directives.filterMap Directive.asked? ∧
      (halt = none → more.map Prod.fst = directives.filterMap Directive.asked?) := by
  -- What was told so far grows by what each directive tells.
  induction directives generalizing told before with
  | nil =>
    obtain ⟨-, rfl⟩ := Prod.mk.inj ran
    exact ⟨[], (List.append_nil told).symm ▸ known, List.nil_prefix, fun _ => rfl⟩
  | cons directive directives ih =>
    have split : (directive :: directives).filterMap Directive.asked? =
        directive.asked?.toList ++ directives.filterMap Directive.asked? := by
      rw [List.filterMap_cons]
      cases directive.asked? <;> rfl
    rw [run] at ran
    rw [split]
    cases executed : before.execute rules directive with
    | mk stopped middle =>
      obtain ⟨first, known', names⟩ := told_execute known executed
      rw [executed] at ran
      cases stopped with
      | some halted =>
        obtain ⟨rfl, rfl⟩ := Prod.mk.inj ran
        exact ⟨first, known', names ▸ List.nil_prefix,
          fun ended => absurd ended (Option.some_ne_none halted)⟩
      | none =>
        obtain ⟨second, known'', named, whole⟩ := ih known' ran
        refine ⟨first ++ second, List.append_assoc told first second ▸ known'', ?_, ?_⟩
        · rw [List.map_append, names]
          exact List.prefix_append_right_inj _ |>.mpr named
        · intro ended
          rw [List.map_append, names, whole ended]
          rfl

theorem index_execute {rules : Rules} {directive : Directive} {before after : Progress σ}
    {halt : Halt} (stopped : before.execute rules directive = (some halt, after)) :
    ∀ index ∈ halt.index?, index = after.completed + 1 := by
  intro index named
  cases directive with
  | whitespace => cases stopped
  | literal code =>
    obtain ⟨failed, -⟩ := Prod.mk.inj stopped
    have onInput := (Counted.takeLiteral_unmatched (Prod.ext failed rfl)).onInput
    rw [Halt.index?_onInput onInput] at named
    contradiction
  | conversion asked =>
    simp only [execute, convert] at stopped
    split at stopped
    · rename_i broken arguments refused
      obtain ⟨same, rfl⟩ := Prod.mk.inj stopped
      cases same
      have numbered := Policy.destination_refuses (congrArg Prod.fst refused)
      exact (Option.some.inj named).symm.trans numbered
    · split at stopped
      · rename_i halted
        obtain ⟨same, rfl⟩ := Prod.mk.inj stopped
        cases same
        rcases Counted.convert_halts halted with onInput | overflow
        · rw [Halt.index?_onInput onInput] at named
          contradiction
        · rw [overflow, Policy.index?_overflow] at named
          exact (Option.some.inj named).symm
      · cases stopped

theorem index_runFormat {rules : Rules} {reading : Format.Reading} {start after : Progress σ}
    {halt : Halt} (stopped : start.runFormat rules reading = (some halt, after)) :
    ∀ index ∈ halt.index?, index = after.completed + 1 := by
  intro index named
  have sound : ∀ error, halt ≠ .invalidFormat error := by
    rintro error rfl
    contradiction
  obtain ⟨passed, directive, later, before, -, -, failed⟩ :=
    run_stops rules (runFormat_stops rules stopped sound)
  exact index_execute failed index named

end Progress

namespace Report

theorem returnValue_fails (report : Report) :
    report.returnValue = -1 ↔
      (∃ broken, report.halt = some (.violation broken) ∧
        ∀ index capacity, broken ≠ .bufferTooSmall index capacity) ∨
      (∃ offset, report.halt = some (.inputExhausted offset)) ∧ report.assigned = 0 := by
  have counts : min (report.assigned : Int) Int32.maxValue.toInt ≠ -1 := by
    have bound : Int32.maxValue.toInt = 2147483647 := rfl
    omega
  unfold returnValue
  simp only
  split
  · rename_i broken halted
    rw [halted]
    cases broken with
    | bufferTooSmall index capacity =>
      simp only [Violation.returnsCount, if_true, counts, false_iff]
      rintro (⟨broken, same, other⟩ | ⟨⟨offset, same⟩, -⟩)
      · cases same
        exact other index capacity rfl
      · cases same
    | missingArgument index | zeroCapacity index | missingCapacity index
    | argumentType index expected found =>
      exact ⟨fun _ => .inl ⟨_, rfl, nofun⟩, fun _ => rfl⟩
  · rename_i offset halted
    rw [halted]
    split
    · rename_i nothing
      exact ⟨fun _ => .inr ⟨⟨offset, rfl⟩, nothing⟩, fun _ => rfl⟩
    · rename_i something
      simp only [counts, false_iff]
      rintro (⟨broken, same, -⟩ | ⟨-, nothing⟩)
      · cases same
      · exact something nothing
  · rename_i other exhausted
    simp only [counts, false_iff]
    rintro (⟨broken, same, -⟩ | ⟨⟨offset, same⟩, -⟩)
    · exact other broken same
    · exact exhausted offset same

theorem returnValue_counts (report : Report) (succeeds : report.returnValue ≠ -1) :
    report.returnValue = min (report.assigned : Int) 2147483647 := by
  unfold returnValue at succeeds ⊢
  simp only at succeeds ⊢
  split
  · rename_i broken halted
    simp only [halted] at succeeds
    split
    · rfl
    · rename_i fails
      rw [if_neg fails] at succeeds
      contradiction
  · rename_i offset halted
    simp only [halted] at succeeds
    split
    · rename_i nothing
      rw [if_pos nothing] at succeeds
      contradiction
    · rfl
  · rfl

end Report

/-- The events of a scan, its report and its return value agree. The conversions that are told
are the first ones of the format, numbered in their order, with counts of units that only grow
up to the final one. The halt is told if there is one, the number it gives to a conversion is
the next one, and what is returned follows from the halt and the conversions that assign. -/
theorem scan_tells_one_story (rules : Rules) (format : Text w) (slots : List Slot) (source : σ) :
    let report := (scan rules format slots source).report
    let asked := ((Format.read format).steps.map Prod.fst).filterMap Directive.asked?
    ∃ told : List (Conversion × Nat),
      report.events = [.started w rules.policy] ++ tellings told ++
        report.halt.toList.map (fun halt => .halted halt report.assigned) ++
        [.finished report.assigned report.consumed] ∧
      told.map Prod.fst <+: asked ∧ (report.halt = none → told.map Prod.fst = asked) ∧
      (told.map Prod.snd).Pairwise (· ≤ ·) ∧ (∀ entry ∈ told, entry.2 ≤ report.consumed) ∧
      report.assigned = told.countP (fun entry => entry.1.assigns) ∧
      (∀ halt ∈ report.halt, ∀ index ∈ halt.index?, index = told.length + 1) ∧
      (report.returnValue = -1 ↔
        (∃ broken, report.halt = some (.violation broken) ∧
          ∀ index capacity, broken ≠ .bufferTooSmall index capacity) ∨
        (∃ offset, report.halt = some (.inputExhausted offset)) ∧
          told.countP (fun entry => entry.1.assigns) = 0) ∧
      (report.returnValue ≠ -1 → report.returnValue =
        min (told.countP (fun entry => entry.1.assigns) : Int) 2147483647) := by
  intro report asked
  let start := Progress.start w rules slots source
  have ran : start.run rules ((Format.read format).steps.map Prod.fst) = (_, _) := rfl
  obtain ⟨told, known, first, whole⟩ :=
    Progress.told_run (Progress.Told.start rules slots source) ran
  rw [List.nil_append, ← Progress.runFormat_state rules (Format.read format)] at known
  have assigned : report.assigned = told.countP fun entry => entry.1.assigns := known.assigned
  refine ⟨told, ?_, first, ?_, known.ordered, known.behind, assigned, ?_, ?_, ?_⟩
  · have events : report.events = _ ++ _ ++ _ := rfl
    rw [events, known.events]
    rfl
  · intro ended
    apply whole
    cases stopped : (start.run rules ((Format.read format).steps.map Prod.fst)).1 with
    | none => rfl
    | some halt =>
      have halted := Progress.runFormat_halted rules (Prod.ext stopped rfl)
      have same : report.halt = some halt := congrArg Prod.fst halted
      rw [ended] at same
      contradiction
  · intro halt halted
    have stopped : start.runFormat rules (Format.read format) = (some halt, _) :=
      Prod.ext halted rfl
    rw [← known.completed]
    exact Progress.index_runFormat stopped
  · rw [← assigned]
    exact report.returnValue_fails
  · rw [← assigned]
    exact report.returnValue_counts

example :
    (scan ⟨.plain, .c⟩ (Text.ofString .narrow "%*d%d%d")
      [.integer ⟨true, .word⟩ 0, .integer ⟨true, .word⟩ 0]
      (TextSource.ofText (Text.ofString .narrow "1 2 "))).report.events =
      [.started .narrow .plain, .converted 1 ⟨true, none, .absent, .decimal⟩ 1,
        .converted 2 ⟨false, none, .absent, .decimal⟩ 3, .halted (.inputExhausted 4) 1,
        .finished 1 4] := by
  decide +kernel

end FormattedInput
