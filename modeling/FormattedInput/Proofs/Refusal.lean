import FormattedInput.Proofs.ExactCount
import FormattedInput.Proofs.SplitScan

namespace FormattedInput

variable {σ : Type} {w : Width} [UnitSource σ w]

namespace Violation

def index : Violation → Nat
  | missingArgument index | argumentType index _ _ | missingCapacity index | zeroCapacity index
  | bufferTooSmall index _ => index

/-- Whether the arguments themselves are wrong, whatever the input is. -/
def isRefusal : Violation → Bool
  | missingArgument _ | argumentType _ _ _ | missingCapacity _ | zeroCapacity _ => true
  | bufferTooSmall _ _ => false

end Violation

def Event.isConverted : Event → Bool
  | converted _ _ _ => true
  | started _ _ | halted _ _ | finished _ _ => false

namespace Policy

variable {policy : Policy} {index : Nat} {arguments : Arguments} {broken : Violation}

theorem takeCapacity_refuses (refused : (takeCapacity index arguments).1 = .error broken) :
    broken.index = index := by
  unfold takeCapacity at refused
  split at refused <;> cases refused <;> rfl

theorem roomFor_refuses {kind : ConversionKind} {slot : Slot}
    (refused : (policy.roomFor index kind slot arguments).1 = .error broken) :
    broken.index = index := by
  cases paired : policy.pairsCapacity kind with
  | false =>
    rw [roomFor_alone paired] at refused
    cases refused
  | true =>
    rw [roomFor_capacity paired] at refused
    cases asked : (takeCapacity index arguments).1 with
    | ok count =>
      rw [asked] at refused
      cases refused
    | error other =>
      rw [asked] at refused
      cases refused
      exact takeCapacity_refuses asked

theorem destination_refuses {call : Width} {conversion : Conversion}
    (refused : (policy.destination call index conversion arguments).1 = .error broken) :
    broken.index = index := by
  unfold destination at refused
  split at refused
  · cases refused
  · cases refused
  · split at refused
    · cases refused
      rfl
    · rename_i slot rest next
      split at refused
      · simp only at refused
        cases room : (policy.roomFor index conversion.kind slot rest).1 with
        | ok elements =>
          rw [room] at refused
          cases refused
        | error other =>
          rw [room] at refused
          cases refused
          exact roomFor_refuses room
      · cases refused
        rfl

theorem overflow_accepts {capacity : Nat}
    (overflow : policy.overflow index capacity = .violation broken) : broken.isRefusal = false := by
  cases policy with
  | plain => cases overflow
  | secure =>
    cases overflow
    rfl

end Policy

namespace Progress

variable {rules : Rules} {before after : Progress σ} {directive : Directive} {broken : Violation}

/-- A conversion that is refused has only moved on in the argument list. -/
theorem execute_refuses
    (stopped : before.execute rules directive = (some (.violation broken), after))
    (refusal : broken.isRefusal = true) :
    ∃ asked arguments, directive = .conversion asked ∧ broken.index = before.completed + 1 ∧
      arguments.slots = before.arguments.slots ∧ after = { before with arguments } := by
  cases directive with
  | whitespace => cases stopped
  | literal code =>
    obtain ⟨failed, -⟩ := Prod.mk.inj stopped
    have onInput := (Counted.takeLiteral_unmatched (Prod.ext failed rfl)).onInput
    contradiction
  | conversion asked =>
    have kept := rules.policy.slots_destination w (before.completed + 1) asked before.arguments
    simp only [execute, convert] at stopped
    split at stopped
    · rename_i refusing arguments refused
      obtain ⟨same, rfl⟩ := Prod.mk.inj stopped
      cases same
      rw [refused] at kept
      have index := Policy.destination_refuses (congrArg Prod.fst refused)
      exact ⟨asked, arguments, rfl, index, kept, rfl⟩
    · rename_i destination arguments granted
      split at stopped
      · rename_i halt halted
        obtain ⟨same, -⟩ := Prod.mk.inj stopped
        cases same
        rcases Counted.convert_halts halted with onInput | overflow
        · contradiction
        · rw [Policy.overflow_accepts overflow.symm] at refusal
          contradiction
      · cases stopped

theorem execute_keeps (rules : Rules) (directive : Directive) (progress : Progress σ) {place : Nat}
    (apart : .destination place ∉ directive.takings rules.policy w progress.arguments) :
    (progress.execute rules directive).2.arguments.slots[place]? =
      progress.arguments.slots[place]? := by
  cases directive with
  | whitespace => rfl
  | literal code => rfl
  | conversion asked =>
    have kept := rules.policy.slots_destination w (progress.completed + 1) asked
      progress.arguments
    cases granted : rules.policy.destination w (progress.completed + 1) asked
      progress.arguments with
    | mk destination arguments =>
      rw [granted] at kept
      have same : arguments.slots[place]? = progress.arguments.slots[place]? :=
        congrArg (·[place]?) kept
      simp only [execute, convert, granted]
      cases destination with
      | error broken => exact same
      | ok destination =>
        have other : ∀ stored ∈ destination, stored.place ≠ place := by
          rintro stored ⟨⟩ rfl
          obtain ⟨-, more, first⟩ := Policy.takings_stored granted
          rw [Directive.takings, first] at apart
          exact apart List.mem_cons_self
        simp only
        split
        · exact (untouched_store other).trans same
        · exact (untouched_store other).trans same

theorem run_keeps (rules : Rules) (directives : List Directive) (progress : Progress σ)
    {place : Nat} (apart : .destination place ∉ (progress.takings rules directives).flatten) :
    (progress.run rules directives).2.arguments.slots[place]? =
      progress.arguments.slots[place]? := by
  -- Directive by directive, each leaving the slots it does not take.
  induction directives generalizing progress with
  | nil => rfl
  | cons directive directives ih =>
    rw [takings, List.flatten_cons, List.mem_append, not_or] at apart
    obtain ⟨here, later⟩ := apart
    have first := execute_keeps rules directive progress here
    rw [run]
    cases executed : progress.execute rules directive with
    | mk halt after =>
      rw [executed] at first later
      cases halt with
      | some halt => exact first
      | none => exact (ih after later).trans first

theorem converted_execute (rules : Rules) (directive : Directive) (progress : Progress σ) :
    (progress.execute rules directive).2.events.countP Event.isConverted + progress.completed =
      progress.events.countP Event.isConverted +
        (progress.execute rules directive).2.completed := by
  cases directive with
  | whitespace => rfl
  | literal code => rfl
  | conversion asked =>
    rw [execute, convert]
    split
    · rfl
    · simp only
      split
      · rfl
      · simp only [record, List.countP_append, List.countP_singleton, Event.isConverted, if_true]
        omega

theorem converted_run (rules : Rules) (directives : List Directive) (progress : Progress σ) :
    (progress.run rules directives).2.events.countP Event.isConverted + progress.completed =
      progress.events.countP Event.isConverted + (progress.run rules directives).2.completed := by
  apply run_induction fun before after =>
    after.events.countP Event.isConverted + before.completed =
      before.events.countP Event.isConverted + after.completed
  · intro progress
    rfl
  · intro first second third counted counted'
    omega
  · exact converted_execute rules

end Progress

/-- The handler is called for the violation that halts a scan, once, and for nothing else. If
the arguments of a conversion were refused, the violation names that conversion; all the
conversions before it were completed, the source is as they left it, and so are the slots, of
which they stored into none but those they took as destinations. -/
theorem scan_refuses (rules : Rules) (format : Text w) (slots : List Slot) (source : σ) :
    let start := Progress.start w rules slots source
    let done := scan rules format slots source
    done.report.violations =
      (match done.report.halt with
        | some (.violation broken) => [broken]
        | _ => []) ∧
    ∀ broken, done.report.halt = some (.violation broken) → broken.isRefusal = true →
      done.report.events.countP Event.isConverted + 1 = broken.index ∧
      ∃ passed asked later before,
        (Format.read format).steps.map Prod.fst = passed ++ .conversion asked :: later ∧
        passed.countP Directive.isConversion + 1 = broken.index ∧
        start.run rules passed = (none, before) ∧
        done.source = before.input.source ∧ done.report.consumed = before.input.consumed ∧
        done.report.assigned = before.assigned ∧ done.slots = before.arguments.slots ∧
        ∀ place, .destination place ∉ (start.takings rules passed).flatten →
          done.slots[place]? = slots[place]? := by
  intro start done
  refine ⟨?_, ?_⟩
  · simp only [done, scan]
    cases (start.runFormat rules (Format.read format)).1 with
    | none => rfl
    | some halt => cases halt <;> rfl
  · intro broken halted refusal
    obtain ⟨after, whole⟩ : ∃ after, start.runFormat rules (Format.read format) =
        (some (.violation broken), after) := ⟨_, Prod.ext halted rfl⟩
    have ran := Progress.runFormat_stops rules whole (by rintro error ⟨⟩)
    obtain ⟨passed, directive, later, before, split, reached, failed⟩ :=
      Progress.run_stops rules ran
    obtain ⟨asked, arguments, rfl, index, kept, rfl⟩ := Progress.execute_refuses failed refusal
    have completed : before.completed = passed.countP Directive.isConversion :=
      (Progress.completed_run rules reached).trans (Nat.zero_add _)
    have counted : before.events.countP Event.isConverted = before.completed := by
      have counts := Progress.converted_run rules passed start
      rw [reached] at counts
      exact counts.trans (Nat.zero_add _)
    simp only [done, scan, start, whole]
    refine ⟨?_, passed, asked, later, before, split, ?_, reached, rfl, rfl, rfl, kept, ?_⟩
    · rw [index, ← counted, List.countP_append, List.countP_append]
      rfl
    · rw [index, completed]
    · intro place apart
      have same := Progress.run_keeps rules passed start apart
      rw [reached] at same
      rw [kept]
      exact same

theorem missing_destination_refuses :
    let slots := [Slot.integer ⟨true, .word⟩ 0]
    let source := Recorded.ofSource .narrow (TextSource.ofText (Text.ofString .narrow "7 8"))
    let done := scan ⟨.plain, .c⟩ (Text.ofString .narrow "%d%d") slots source
    done.report.halt = some (.violation (.missingArgument 2)) ∧
      done.report.events.countP Event.isConverted + 1 = 2 ∧
      done.report.violations = [.missingArgument 2] ∧
      done.source = (scan ⟨.plain, .c⟩ (Text.ofString .narrow "%d") slots source).source := by
  intro slots source done
  have halted : done.report.halt = some (.violation (.missingArgument 2)) := by decide +kernel
  obtain ⟨handled, refused⟩ :=
    scan_refuses ⟨.plain, .c⟩ (Text.ofString .narrow "%d%d") slots source
  obtain ⟨counted, -⟩ := refused _ halted rfl
  rw [halted] at handled
  exact ⟨halted, counted, handled, by decide +kernel⟩

end FormattedInput
