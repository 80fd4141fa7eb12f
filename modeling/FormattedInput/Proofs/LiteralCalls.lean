import FormattedInput.Proofs.LiteralAgreement
import FormattedInput.Proofs.Takings

namespace FormattedInput

variable {σ : Type} {w : Width} [UnitSource σ w]

def Halt.isMisfit : Halt → Bool
  | invalidFormat _ | violation (.missingArgument _) | violation (.missingCapacity _) => true
  | _ => false

namespace Halt

theorem isMisfit_onInput {halt : Halt} (onInput : halt.isOnInput = true) :
    halt.isMisfit = false := by
  cases halt <;> first | rfl | contradiction

theorem isMisfit_convert {rules : Rules} {index : Nat} {conversion : Conversion}
    {elements : Option Nat} {input : Counted σ} {halt : Halt}
    (failed : (input.convert rules index conversion elements).1.halt = some halt) :
    halt.isMisfit = false := by
  rcases Counted.convert_halts failed with onInput | rfl
  · exact isMisfit_onInput onInput
  · cases rules.policy <;> rfl

end Halt

/-- A conversion takes nothing, or a destination, or a destination and the capacity right
after it. -/
inductive WrappedArgument.Paired : List WrappedArgument → Prop where
  | nothing : Paired []
  | destination (place : Nat) : Paired [.destination place]
  | both (place : Nat) : Paired [.destination place, .capacity (place + 1)]

def WrappedArgument.slot (destinations : Nat → Slot) (capacities : Nat → Nat) :
    WrappedArgument → Slot
  | destination position => destinations position
  | capacity position => .capacity (capacities position)

namespace Literal

theorem wrap_cons (policy : Policy) (position : Nat) (placeholder : Placeholder)
    (placeholders : List Placeholder) :
    wrap policy position (placeholder :: placeholders) =
      .destination position ::
        if placeholder.arity policy = 2 then
          .capacity (position + 1) :: wrap policy (position + 2) placeholders
        else wrap policy (position + 1) placeholders := by
  rw [wrap]
  split <;> rfl

theorem wrapArguments_ok {policy : Policy} {literal : String} {count : Nat}
    {wrapped : List WrappedArgument} (expands : wrapArguments policy literal count = .ok wrapped) :
    ∃ found, find literal.toList = ⟨found, none⟩ ∧ wrapped = wrap policy 0 found := by
  unfold wrapArguments at expands
  split at expands
  · cases expands
  · rename_i found checked
    simp only at expands
    split at expands
    · cases expands
      refine ⟨found, ?_, rfl⟩
      unfold placeholders at checked
      simp only at checked
      split at checked
      · cases checked
      · split at checked
        · cases checked
        · split at checked
          · cases checked
          · rename_i sound
            cases checked
            rw [← sound]
    · cases expands

end Literal

namespace ConversionKind

theorem arity_eq {kind : ConversionKind} {placeholder : Placeholder}
    (stands : kind.placeholder? = some placeholder) (policy : Policy) :
    placeholder.arity policy = if policy.pairsCapacity kind then 2 else 1 := by
  cases policy with
  | plain =>
    cases placeholder <;> rfl
  | secure =>
    cases kind with
    | percent => contradiction
    | decimal | integer | octal | unsigned | hex | float | pointer | string _ | chars _
      | charClass _ | count =>
      obtain rfl := Option.some.inj stands
      rfl

end ConversionKind

theorem Conversion.placeholder?_eq_some (call : Width) {conversion : Conversion}
    {placeholder : Placeholder}
    (stands : (Directive.conversion conversion).placeholder? = some placeholder) :
    ∃ requirement, conversion.suppress = false ∧
      conversion.requirement? call = some requirement ∧
      conversion.kind.placeholder? = some placeholder := by
  obtain ⟨suppress, width, length, kind⟩ := conversion
  cases suppress with
  | true => contradiction
  | false => cases kind <;> first | contradiction | exact ⟨_, rfl, rfl, stands⟩

theorem Policy.takes_nothing {call : Width} {conversion : Conversion}
    (needless : (Directive.conversion conversion).placeholder? = none) (policy : Policy)
    (index : Nat) (arguments : Arguments) :
    policy.destination call index conversion arguments = (.ok none, arguments) ∧
      policy.takings call conversion arguments = [] := by
  obtain ⟨suppress, width, length, kind⟩ := conversion
  cases suppress with
  | true => exact ⟨rfl, rfl⟩
  | false => cases kind <;> first | contradiction | exact ⟨rfl, rfl⟩

/-- The slots still to be taken are the ones wrapped for some placeholders. -/
def Arguments.HoldsFor (fill : WrappedArgument → Slot) (policy : Policy)
    (placeholders : List Placeholder) (arguments : Arguments) : Prop :=
  arguments.slots.drop arguments.taken = (Literal.wrap policy arguments.taken placeholders).map fill

theorem Arguments.next_cons {fill : WrappedArgument → Slot} {arguments : Arguments}
    {first : WrappedArgument} {rest : List WrappedArgument}
    (left : arguments.slots.drop arguments.taken = (first :: rest).map fill) :
    arguments.next = (some (fill first), { arguments with taken := arguments.taken + 1 }) ∧
      arguments.slots.drop (arguments.taken + 1) = rest.map fill := by
  rw [List.map_cons] at left
  have shown : arguments.slots[arguments.taken]? = some (fill first) := by
    rw [← List.head?_drop, left, List.head?_cons]
  constructor
  · simp only [next, shown]
  · rw [← List.tail_drop, left, List.tail_cons]

namespace Policy

variable {policy : Policy} {kind : ConversionKind} {arguments after : Arguments}

theorem roomFor_paired (paired : policy.pairsCapacity kind = true) (index : Nat) (slot : Slot)
    {count : Nat} (next : arguments.next = (some (.capacity count), after)) :
    (policy.roomFor index kind slot arguments).2 = after ∧
      ∀ broken, (policy.roomFor index kind slot arguments).1 = .error broken →
        broken = .zeroCapacity index := by
  have taken : takeCapacity index arguments =
      (if count = 0 then .error (.zeroCapacity index) else .ok count, after) := by
    unfold takeCapacity
    rw [next]
    cases count <;> rfl
  rw [roomFor_capacity paired, taken]
  refine ⟨rfl, ?_⟩
  intro broken refused
  split at refused <;> cases refused
  rfl

def refusal? {α : Type} : Except Violation α → Option Halt
  | .error broken => some (.violation broken)
  | .ok _ => none

end Policy

/-- What became of arguments that held for a directive and for those after it. Unless the
scan halts, they hold for the latter. -/
structure Served (fill : WrappedArgument → Slot) (policy : Policy) (later : List Placeholder)
    (wrapped taken : List WrappedArgument) (halt : Option Halt) (after : Arguments) : Prop where
  paired : WrappedArgument.Paired taken
  begins : taken <+: wrapped
  fits : ∀ fault, halt = some fault → fault.isMisfit = false
  goesOn : halt = none →
    wrapped = taken ++ Literal.wrap policy after.taken later ∧ after.HoldsFor fill policy later

section Serving

variable {fill : WrappedArgument → Slot} {policy : Policy} {later : List Placeholder}
  {arguments : Arguments}

theorem served_halted {wrapped taken : List WrappedArgument} {after : Arguments} {halt : Halt}
    (paired : WrappedArgument.Paired taken) (begins : taken <+: wrapped)
    (fits : halt.isMisfit = false) :
    Served fill policy later wrapped taken (some halt) after := by
  refine ⟨paired, begins, ?_, ?_⟩
  · intro fault same
    cases same
    exact fits
  · intro goesOn
    cases goesOn

theorem served_wholly {taken : List WrappedArgument} {after : Arguments}
    (paired : WrappedArgument.Paired taken) (holds : after.HoldsFor fill policy later) :
    Served fill policy later (taken ++ Literal.wrap policy after.taken later) taken none after := by
  refine ⟨paired, List.prefix_append _ _, ?_, fun _ => ⟨rfl, holds⟩⟩
  intro fault halted
  cases halted

theorem destination_served (capacity : ∀ place, ∃ count, fill (.capacity place) = .capacity count)
    (index : Nat) {conversion : Conversion}
    (holds : arguments.HoldsFor fill policy
      ((Directive.conversion conversion).placeholder?.toList ++ later)) :
    Served fill policy later
      (Literal.wrap policy arguments.taken
        ((Directive.conversion conversion).placeholder?.toList ++ later))
      (policy.takings w conversion arguments)
      (Policy.refusal? (policy.destination w index conversion arguments).1)
      (policy.destination w index conversion arguments).2 := by
  cases stands : (Directive.conversion conversion).placeholder? with
  | none =>
    rw [stands] at holds
    obtain ⟨nothing, none⟩ := Policy.takes_nothing stands policy index arguments
    rw [nothing, none]
    exact served_wholly .nothing holds
  | some placeholder =>
    obtain ⟨requirement, plain, required, placed⟩ := Conversion.placeholder?_eq_some w stands
    have arity := ConversionKind.arity_eq placed policy
    rw [stands] at holds
    have wraps := Literal.wrap_cons policy arguments.taken placeholder later
    rw [Arguments.HoldsFor, Option.toList_some, List.singleton_append, wraps] at holds
    obtain ⟨next, left⟩ := Arguments.next_cons holds
    rw [Option.toList_some, List.singleton_append, wraps]
    simp only [Policy.destination, Policy.takings, plain, required, next]
    cases accepted : requirement.accepts (fill (.destination arguments.taken)).kind with
    | false =>
      simp only [Bool.false_and, Bool.false_eq_true, if_false]
      exact served_halted (.destination _) ⟨_, rfl⟩ rfl
    | true =>
      -- A kind that pairs a capacity takes two arguments, any other kind one.
      cases paired : policy.pairsCapacity conversion.kind with
      | false =>
        have found := Policy.roomFor_alone paired index (fill (.destination arguments.taken))
          { arguments with taken := arguments.taken + 1 }
        have single : ¬ placeholder.arity policy = 2 := by
          rw [arity, paired]
          decide
        rw [if_neg single] at left ⊢
        simp only [found, Bool.true_and, Bool.false_eq_true, if_false, if_true]
        have held : Arguments.HoldsFor fill policy later
            { arguments with taken := arguments.taken + 1 } := left
        exact served_wholly (.destination _) held
      | true =>
        have double : placeholder.arity policy = 2 := by rw [arity, if_pos paired]
        rw [if_pos double] at left ⊢
        obtain ⟨again, rest⟩ :=
          @Arguments.next_cons fill { arguments with taken := arguments.taken + 1 } _ _ left
        obtain ⟨amount, same⟩ := capacity (arguments.taken + 1)
        rw [same] at again
        obtain ⟨passed, zero⟩ := Policy.roomFor_paired paired index
          (fill (.destination arguments.taken)) again
        simp only [again, passed, Bool.true_and, if_true, Option.toList_some, List.map_cons,
          List.map_nil]
        cases room : (policy.roomFor index conversion.kind (fill (.destination arguments.taken))
            { arguments with taken := arguments.taken + 1 }).1 with
        | ok room =>
          have held : Arguments.HoldsFor fill policy later
              { arguments with taken := arguments.taken + 2 } := rest
          exact served_wholly (.both _) held
        | error broken =>
          obtain rfl := zero broken room
          exact served_halted (.both _) ⟨_, rfl⟩ rfl

theorem execute_served (capacity : ∀ place, ∃ count, fill (.capacity place) = .capacity count)
    (rules : Rules) (directive : Directive) {progress : Progress σ}
    (holds : progress.arguments.HoldsFor fill rules.policy
      (directive.placeholder?.toList ++ later)) :
    Served fill rules.policy later
      (Literal.wrap rules.policy progress.arguments.taken (directive.placeholder?.toList ++ later))
      (directive.takings rules.policy w progress.arguments)
      (progress.execute rules directive).1 (progress.execute rules directive).2.arguments := by
  cases directive with
  | whitespace => exact served_wholly .nothing holds
  | literal code =>
    simp only [Progress.execute]
    cases matched : (progress.input.takeLiteral code).1 with
    | none => exact served_wholly .nothing holds
    | some halt =>
      have onInput := (Counted.takeLiteral_unmatched (Prod.ext matched rfl)).onInput
      exact served_halted .nothing List.nil_prefix (Halt.isMisfit_onInput onInput)
  | conversion conversion =>
    have served := destination_served (w := w) capacity (progress.completed + 1) holds
    simp only [Progress.execute, Progress.convert, Directive.takings]
    cases taken : rules.policy.destination w (progress.completed + 1) conversion
      progress.arguments with
    | mk granted arguments =>
      rw [taken] at served
      cases granted with
      | error broken => exact served_halted served.paired served.begins (served.fits _ rfl)
      | ok destination =>
        -- What is stored goes to an argument already taken, so those after it still hold.
        have earlier : ∀ stored ∈ destination, stored.place < arguments.taken := by
          rintro stored ⟨⟩
          exact Policy.place_lt_taken taken
        obtain ⟨wraps, further⟩ := served.goesOn rfl
        have kept : (Progress.store rules.locale.page destination
            (progress.input.convert rules (progress.completed + 1) conversion
              (destination.map Destination.room)).1.content arguments).HoldsFor fill
            rules.policy later := by
          unfold Arguments.HoldsFor
          rw [Progress.taken_store, Progress.drop_store earlier]
          exact further
        simp only
        cases halted : (progress.input.convert rules (progress.completed + 1) conversion
            (destination.map Destination.room)).1.halt with
        | some halt =>
          exact served_halted served.paired served.begins (Halt.isMisfit_convert halted)
        | none =>
          have whole := served_wholly served.paired kept
          rw [Progress.taken_store, ← wraps] at whole
          exact whole

/-- What a whole run takes and why it halts, if the arguments hold for its directives. -/
structure RunServed (wrapped : List WrappedArgument) (takings : List (List WrappedArgument))
    (halt : Option Halt) : Prop where
  paired : ∀ taking ∈ takings, WrappedArgument.Paired taking
  begins : takings.flatten <+: wrapped
  fits : ∀ fault, halt = some fault → fault.isMisfit = false
  whole : halt = none → takings.flatten = wrapped

theorem run_served (capacity : ∀ place, ∃ count, fill (.capacity place) = .capacity count)
    (rules : Rules) (directives : List Directive) {progress : Progress σ}
    (holds : progress.arguments.HoldsFor fill rules.policy
      (directives.filterMap Directive.placeholder?)) :
    RunServed
      (Literal.wrap rules.policy progress.arguments.taken
        (directives.filterMap Directive.placeholder?))
      (progress.takings rules directives) (progress.run rules directives).1 := by
  -- Directive by directive; `goesOn` hands on the arguments that hold for the rest.
  induction directives generalizing progress with
  | nil =>
    constructor
    · intro taking member
      cases member
    · exact List.nil_prefix
    · intro fault halted
      cases halted
    · intro ended
      rfl
  | cons directive directives ih =>
    have split : (directive :: directives).filterMap Directive.placeholder? =
        directive.placeholder?.toList ++ directives.filterMap Directive.placeholder? := by
      rw [List.filterMap_cons]
      cases directive.placeholder? <;> rfl
    rw [split] at holds ⊢
    obtain ⟨paired, begins, fits, goesOn⟩ := execute_served capacity rules directive holds
    rw [Progress.takings, Progress.run]
    cases executed : progress.execute rules directive with
    | mk halt after =>
      rw [executed] at fits goesOn
      cases halt with
      | some halt =>
        constructor
        · intro taking member
          rwa [List.mem_singleton.mp member]
        · simpa using begins
        · exact fits
        · intro ended
          cases ended
      | none =>
        obtain ⟨wraps, further⟩ := goesOn rfl
        have later := ih further
        constructor
        · intro taking member
          rcases List.mem_cons.mp member with rfl | member
          · exact paired
          · exact later.paired taking member
        · rw [wraps, List.flatten_cons]
          exact (List.prefix_append_right_inj _).mpr later.begins
        · exact later.fits
        · intro ended
          rw [wraps, List.flatten_cons, later.whole ended]

end Serving

theorem Literal.read_expanded {policy : Policy} {literal : String} {count : Nat}
    {wrapped : List WrappedArgument} (nulFree : '\x00' ∉ literal.toList)
    (expands : wrapArguments policy literal count = .ok wrapped) :
    let reading := Format.read (Text.ofString w literal)
    reading.error = none ∧ wrapped =
      wrap policy 0 ((reading.steps.map Prod.fst).filterMap Directive.placeholder?) := by
  obtain ⟨placeholders, checked, rfl⟩ := wrapArguments_ok expands
  have found := found_read (w := w) literal
  rw [beforeNul_eq_self nulFree, checked, Format.Reading.found] at found
  obtain ⟨listed, sound⟩ := Found.mk.inj found
  intro reading
  rw [List.filterMap_map]
  exact ⟨Option.map_eq_none_iff.mp sound, congrArg (wrap policy 0) listed.symm⟩

/-- Let a literal without a terminator expand, and let its arguments be any slots and
capacities. Whatever the input, the scan does not halt for a fault of the format or for a
missing argument or capacity. Its conversions take the arguments in order, each for what it
was wrapped as and a capacity together with the destination before it, and a scan that does
not halt takes them all. -/
theorem expanded_call_fits (policy : Policy) (locale : Locale) {literal : String} {count : Nat}
    {wrapped : List WrappedArgument} (nulFree : '\x00' ∉ literal.toList)
    (expands : Literal.wrapArguments policy literal count = .ok wrapped)
    (destinations : Nat → Slot) (capacities : Nat → Nat) (source : σ) :
    let rules : Rules := ⟨policy, locale⟩
    let format := Text.ofString w literal
    let slots := wrapped.map (WrappedArgument.slot destinations capacities)
    let start := Progress.start w rules slots source
    let takings := start.takings rules ((Format.read format).steps.map Prod.fst)
    let halt := (scan rules format slots source).report.halt
    (∀ fault, halt = some fault → fault.isMisfit = false) ∧
      (∀ taking ∈ takings, WrappedArgument.Paired taking) ∧
      takings.flatten <+: wrapped ∧
      (start.runFormat rules (Format.read format)).2.arguments.taken = takings.flatten.length ∧
      (halt = none → takings.flatten = wrapped) := by
  intro rules format slots start takings halt
  obtain ⟨sound, wraps⟩ := Literal.read_expanded (w := w) nulFree expands
  have ran := start.runFormat_sound rules sound
  have holds : start.arguments.HoldsFor (WrappedArgument.slot destinations capacities) policy
      (((Format.read format).steps.map Prod.fst).filterMap Directive.placeholder?) :=
    congrArg (List.map (WrappedArgument.slot destinations capacities)) wraps
  have served := run_served (fun place => ⟨capacities place, rfl⟩) rules
    ((Format.read format).steps.map Prod.fst) holds
  have ended : (start.run rules ((Format.read format).steps.map Prod.fst)).1 = halt := by
    rw [← ran]
    rfl
  have count := start.taken_run rules ((Format.read format).steps.map Prod.fst)
  have all : Literal.wrap policy start.arguments.taken
      (((Format.read format).steps.map Prod.fst).filterMap Directive.placeholder?) = wrapped :=
    wraps.symm
  rw [ended, all] at served
  refine ⟨served.fits, served.paired, served.begins, ?_, served.whole⟩
  rw [ran, count]
  exact Nat.zero_add _

theorem expanded_secure_call_fits :
    let slots : List Slot := [.integer ⟨true, .word⟩ 0, .buffer .narrow [.nul, .nul], .capacity 2]
    let source := TextSource.ofText (Text.ofString .narrow "7 long")
    let report := (scan ⟨.secure, .c⟩ (Text.ofString .narrow "%d %s") slots source).report
    '\x00' ∉ "%d %s".toList ∧
      Literal.wrapArguments .secure "%d %s" 3 =
        .ok [.destination 0, .destination 1, .capacity 2] ∧
      report.halt = some (.violation (.bufferTooSmall 2 2)) ∧
      ∀ fault, report.halt = some fault → fault.isMisfit = false := by
  intro slots source report
  have nulFree : '\x00' ∉ "%d %s".toList := by decide
  have expands : Literal.wrapArguments .secure "%d %s" 3 =
      .ok [.destination 0, .destination 1, .capacity 2] := by decide +kernel
  obtain ⟨fits, -⟩ := expanded_call_fits .secure .c nulFree expands
    (fun place => slots.getD place (.capacity 0)) (fun _ => 2) source
  exact ⟨nulFree, expands, by decide +kernel, fits⟩

end FormattedInput
