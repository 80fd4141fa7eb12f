import FormattedInput.Scan.Progress

/-!
How a run goes from one directive to the next, and what it can halt for. A relation that
every step keeps is kept by the whole run; a run of two lists is one run after the other.
Every reader that fails does so by looking at its input afresh, so it halts on the input; a
text can also halt because it has no room. -/
namespace FormattedInput

variable {σ : Type} {w : Width} [UnitSource σ w]

def Halt.isOnInput : Halt → Bool
  | mismatch _ | inputExhausted _ => true
  | destinationFull _ _ | invalidFormat _ | violation _ => false

theorem Policy.overflow_isOnInput (policy : Policy) (index capacity : Nat) :
    (policy.overflow index capacity).isOnInput = false := by
  cases policy <;> rfl

namespace Counted

theorem unmatched_onInput (input : Counted σ) : input.unmatched.1.isOnInput = true := by
  unfold unmatched
  split <;> rfl

/-- What a reader that matched nothing halts with and leaves, after one last look. -/
def Unmatched (halt : Halt) (after : Counted σ) : Prop :=
  ∃ last : Counted σ, last.unmatched = (halt, after)

theorem Unmatched.onInput {halt : Halt} {after : Counted σ} (failed : Unmatched halt after) :
    halt.isOnInput = true := by
  obtain ⟨last, ended⟩ := failed
  have onInput := last.unmatched_onInput
  rwa [ended] at onInput

theorem takeInteger_unmatched {base : IntegerBase} {width : Option Nat} {input after : Counted σ}
    {halt : Halt} (failed : input.takeInteger base width = (.error halt, after)) :
    Unmatched halt after := by
  unfold takeInteger at failed
  simp only at failed
  split at failed
  · split at failed
    · cases failed
    · cases failed
      exact ⟨_, rfl⟩
  · cases failed

theorem takeDecimal_unmatched {point : Nat} {width : Option Nat} {input after : Counted σ}
    {halt : Halt} (failed : input.takeDecimal point width = (.error halt, after)) :
    Unmatched halt after := by
  unfold takeDecimal at failed
  simp only at failed
  split at failed
  · cases failed
    exact ⟨_, rfl⟩
  · cases failed

theorem takeText_unmatched {shape : TextShape} {elements width : Option Nat}
    {input after : Counted σ} {units : Text w} {halt : Halt}
    (failed : input.takeText shape elements width = ((units, .failed halt), after)) :
    Unmatched halt after := by
  unfold takeText at failed
  simp only at failed
  split at failed
  · cases failed
  · split at failed
    · cases failed
      exact ⟨_, rfl⟩
    · cases failed

theorem takeLiteral_unmatched {code : Nat} {input after : Counted σ} {halt : Halt}
    (failed : input.takeLiteral code = (some halt, after)) : Unmatched halt after := by
  unfold takeLiteral at failed
  simp only at failed
  split at failed
  · cases failed
  · cases failed
    exact ⟨_, rfl⟩

theorem convertInteger_unmatched {base : IntegerBase} {width : Option Nat} {input : Counted σ}
    {halt : Halt} (failed : (input.convertInteger base width).1.halt = some halt) :
    Unmatched halt (input.convertInteger base width).2 := by
  unfold convertInteger at failed ⊢
  split at failed
  · cases failed
  · rename_i read
    cases failed
    exact takeInteger_unmatched read

theorem convertFloat_unmatched {point : Nat} {width : Option Nat} {input : Counted σ}
    {halt : Halt} (failed : (input.convertFloat point width).1.halt = some halt) :
    Unmatched halt (input.convertFloat point width).2 := by
  unfold convertFloat at failed ⊢
  split at failed
  · cases failed
  · rename_i read
    cases failed
    exact takeDecimal_unmatched read

theorem convertText_stops {policy : Policy} {index : Nat} {shape : TextShape}
    {elements width : Option Nat} {input : Counted σ} {halt : Halt}
    (failed : (input.convertText policy index shape elements width).1.halt = some halt) :
    Unmatched halt (input.convertText policy index shape elements width).2 ∨
      halt = policy.overflow index (elements.getD 0) := by
  unfold convertText at failed ⊢
  split at failed
  · cases failed
  · cases failed
    exact .inr rfl
  · rename_i read
    cases failed
    exact .inl (takeText_unmatched read)

theorem convert_stops {rules : Rules} {index : Nat} {conversion : Conversion}
    {elements : Option Nat} {input : Counted σ} {halt : Halt}
    (failed : (input.convert rules index conversion elements).1.halt = some halt) :
    Unmatched halt (input.convert rules index conversion elements).2 ∨
      halt = rules.policy.overflow index (elements.getD 0) := by
  obtain ⟨suppress, width, length, kind⟩ := conversion
  cases kind with
  | decimal | unsigned | integer | octal | hex | pointer =>
    exact .inl (convertInteger_unmatched failed)
  | float => exact .inl (convertFloat_unmatched failed)
  | string swapped | chars swapped | charClass set => exact convertText_stops failed
  | count => cases failed
  | percent => exact .inl (takeLiteral_unmatched (Prod.ext failed rfl))

theorem convert_halts {rules : Rules} {index : Nat} {conversion : Conversion}
    {elements : Option Nat} {input : Counted σ} {halt : Halt}
    (failed : (input.convert rules index conversion elements).1.halt = some halt) :
    halt.isOnInput = true ∨ halt = rules.policy.overflow index (elements.getD 0) :=
  (convert_stops failed).imp_left Unmatched.onInput

end Counted

namespace Progress

theorem run_induction {rules : Rules} (relation : Progress σ → Progress σ → Prop)
    (stays : ∀ progress, relation progress progress)
    (trans : ∀ {first second third}, relation first second → relation second third →
      relation first third)
    (step : ∀ directive progress, relation progress (progress.execute rules directive).2)
    (directives : List Directive) (start : Progress σ) :
    relation start (start.run rules directives).2 := by
  induction directives generalizing start with
  | nil => exact stays start
  | cons directive directives ih =>
    have first := step directive start
    rw [run]
    cases executed : start.execute rules directive with
    | mk halt after =>
      rw [executed] at first
      cases halt with
      | some halt => exact first
      | none => exact trans first (ih after)

theorem execute_unmatched (rules : Rules) {directive : Directive} {before after : Progress σ}
    {halt : Halt} (stopped : before.execute rules directive = (some halt, after))
    (onInput : halt.isOnInput = true) : Counted.Unmatched halt after.input := by
  cases directive with
  | whitespace => cases stopped
  | literal code =>
    obtain ⟨failed, rfl⟩ := Prod.mk.inj stopped
    exact Counted.takeLiteral_unmatched (Prod.ext failed rfl)
  | conversion conversion =>
    simp only [execute, convert] at stopped
    split at stopped
    · cases stopped
      contradiction
    · split at stopped
      · rename_i failed
        cases stopped
        rcases Counted.convert_stops failed with unmatched | rfl
        · exact unmatched
        · rw [Policy.overflow_isOnInput] at onInput
          contradiction
      · cases stopped

theorem run_stops (rules : Rules) {directives : List Directive} {start after : Progress σ}
    {halt : Halt}
    (stopped : start.run rules directives = (some halt, after)) :
    ∃ passed directive later before, directives = passed ++ directive :: later ∧
      start.run rules passed = (none, before) ∧
      before.execute rules directive = (some halt, after) := by
  induction directives generalizing start with
  | nil => simp [run] at stopped
  | cons directive directives ih =>
    rw [run] at stopped
    split at stopped
    · rename_i ran
      obtain ⟨same, rfl⟩ := Prod.mk.inj stopped
      exact ⟨[], directive, directives, start, rfl, rfl, same ▸ ran⟩
    · rename_i before ran
      obtain ⟨passed, last, later, found, rfl, ran', failed⟩ := ih stopped
      exact ⟨directive :: passed, last, later, found, rfl, by rw [run, ran]; exact ran', failed⟩

def andThen (ran : Option Halt × Progress σ)
    (next : Progress σ → Option Halt × Progress σ) : Option Halt × Progress σ :=
  match ran with
  | (some halt, after) => (some halt, after)
  | (none, after) => next after

theorem run_append (rules : Rules) (first second : List Directive) (start : Progress σ) :
    start.run rules (first ++ second) = andThen (start.run rules first) (run rules second) := by
  induction first generalizing start with
  | nil => rfl
  | cons directive first ih =>
    rw [List.cons_append, run, run]
    cases start.execute rules directive with
    | mk halt after =>
      cases halt with
      | some halt => rfl
      | none => exact ih after

theorem runFormat_andThen (rules : Rules) (reading : Format.Reading) (start : Progress σ) :
    start.runFormat rules reading = andThen (start.run rules (reading.steps.map Prod.fst))
      fun after => (reading.error.map .invalidFormat, after) := by
  unfold runFormat
  cases start.run rules (reading.steps.map Prod.fst) with
  | mk halt after => cases halt <;> rfl

theorem runFormat_halted (rules : Rules) {reading : Format.Reading} {start after : Progress σ}
    {halt : Halt} (stopped : start.run rules (reading.steps.map Prod.fst) = (some halt, after)) :
    start.runFormat rules reading = (some halt, after) := by
  rw [runFormat_andThen, stopped]
  rfl

theorem runFormat_state (rules : Rules) (reading : Format.Reading) (start : Progress σ) :
    (start.runFormat rules reading).2 = (start.run rules (reading.steps.map Prod.fst)).2 := by
  rw [runFormat_andThen]
  cases start.run rules (reading.steps.map Prod.fst) with
  | mk halt after => cases halt <;> rfl

theorem runFormat_sound (rules : Rules) {reading : Format.Reading} (sound : reading.error = none)
    (start : Progress σ) :
    start.runFormat rules reading = start.run rules (reading.steps.map Prod.fst) := by
  rw [runFormat_andThen, sound]
  cases start.run rules (reading.steps.map Prod.fst) with
  | mk halt after => cases halt <;> rfl

theorem runFormat_stops (rules : Rules) {reading : Format.Reading} {start after : Progress σ}
    {halt : Halt} (stopped : start.runFormat rules reading = (some halt, after))
    (sound : ∀ error, halt ≠ .invalidFormat error) :
    start.run rules (reading.steps.map Prod.fst) = (some halt, after) := by
  rw [runFormat_andThen] at stopped
  cases ran : start.run rules (reading.steps.map Prod.fst) with
  | mk found reached =>
    rw [ran] at stopped
    cases found with
    | some found => exact stopped
    | none =>
      obtain ⟨failed, -⟩ := Prod.mk.inj stopped
      obtain ⟨error, -, same⟩ := Option.map_eq_some_iff.mp failed
      exact absurd same.symm (sound error)

theorem runFormat_onInput (rules : Rules) {reading : Format.Reading} {start after : Progress σ}
    {halt : Halt} (stopped : start.runFormat rules reading = (some halt, after))
    (onInput : halt.isOnInput = true) :
    start.run rules (reading.steps.map Prod.fst) = (some halt, after) := by
  apply runFormat_stops rules stopped
  rintro error rfl
  contradiction

end Progress

end FormattedInput
