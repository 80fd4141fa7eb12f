import FormattedInput.Proofs.Demands
import FormattedInput.Proofs.Refusal

/-!
Where a scan stores. The place of a destination follows from the directives in front of its
conversion, whatever the input is: each has taken what it asks for, or the scan would not have
come so far. What a conversion stores at its place stays there to the end, and no other place
changes. -/
namespace FormattedInput

namespace IntegerType

def Holds (type : IntegerType) (value : Int) : Prop :=
  if type.isSigned then
    -(Nat.pow 2 (type.bits - 1) : Nat) ≤ value ∧ value < (Nat.pow 2 (type.bits - 1) : Nat)
  else 0 ≤ value ∧ value < (Nat.pow 2 type.bits : Nat)

instance (type : IntegerType) (value : Int) : Decidable (type.Holds value) :=
  inferInstanceAs (Decidable (if type.isSigned then _ else _))

theorem two_halves (type : IntegerType) : Nat.pow 2 type.bits = Nat.pow 2 (type.bits - 1) * 2 := by
  apply (Nat.two_pow_pred_mul_two _).symm
  obtain ⟨isSigned, size⟩ := type
  cases size <;> exact Nat.zero_lt_succ _

theorem holds_ofWord (type : IntegerType) (word : Nat) : type.Holds (type.ofWord word) := by
  have positive : 0 < Nat.pow 2 (type.bits - 1) := Nat.two_pow_pos _
  rw [Holds, ofWord, two_halves]
  generalize Nat.pow 2 (type.bits - 1) = half at positive ⊢
  have whole : 0 < half * 2 := by omega
  split
  · have least := Int.le_bmod (x := word) whole
    have most := Int.bmod_lt (x := word) whole
    omega
  · have most := Nat.mod_lt word whole
    omega

theorem holds_unique {type : IntegerType} {first second : Int} (left : type.Holds first)
    (right : type.Holds second)
    (same : first % (Nat.pow 2 type.bits : Nat) = second % (Nat.pow 2 type.bits : Nat)) :
    first = second := by
  have apart := Int.dvd_of_emod_eq_zero (Int.emod_eq_emod_iff_emod_sub_eq_zero.mp same)
  rw [Holds, two_halves] at left right
  rw [two_halves] at apart
  generalize Nat.pow 2 (type.bits - 1) = half at left right apart
  have near : (first - second).natAbs < ((half * 2 : Nat) : Int).natAbs := by
    split at left
    · rename_i isSigned
      rw [if_pos isSigned] at right
      omega
    · rename_i unsigned
      rw [if_neg unsigned] at right
      omega
  have none := Int.eq_zero_of_dvd_of_natAbs_lt_natAbs apart near
  omega

end IntegerType

/-- The place in the argument list that the directives leave to the next one. -/
def Policy.placeBehind (policy : Policy) (passed : List Directive) : Nat :=
  passed.foldr (fun directive place => directive.arity policy + place) 0

variable {σ : Type} {w : Width} [UnitSource σ w]

theorem Policy.takings_destination {policy : Policy} {asked : Conversion} {arguments : Arguments}
    {place : Nat} (taken : .destination place ∈ policy.takings w asked arguments) :
    asked.suppress = false ∧ asked.kind ≠ .percent ∧ place = arguments.taken := by
  have needs := asked.requirement?_isNone w
  unfold takings at taken
  split at taken
  · contradiction
  · contradiction
  · rename_i requirement kept required
    rw [required, Option.isNone_some] at needs
    have takes : asked.kind ≠ .percent := by
      intro percent
      rw [percent] at needs
      contradiction
    split at taken
    · contradiction
    · rcases List.mem_cons.mp taken with first | second
      · exact ⟨kept, takes, WrappedArgument.destination.inj first⟩
      · split at second
        · obtain ⟨_, -, same⟩ := List.mem_map.mp second
          cases same
        · contradiction

namespace Counted

variable {rules : Rules} {index : Nat} {asked : Conversion} {bits : Nat} {input : Counted σ}

theorem content_convertInteger {base : IntegerBase} {width : Option Nat}
    (read : (input.convertInteger base width).1.halt = none) :
    ∃ number, (input.convertInteger base width).1.content = some (.word number) := by
  unfold convertInteger at read ⊢
  split
  · exact ⟨_, rfl⟩
  · rename_i failed
    rw [failed] at read
    contradiction

theorem content_convert (required : asked.requirement? w = some (.integer bits))
    {elements : Option Nat} (read : (input.convert rules index asked elements).1.halt = none) :
    ∃ number, (asked.kind = .count → number = input.consumed) ∧
      ∀ elements, (input.convert rules index asked elements).1.content = some (.word number) := by
  obtain ⟨suppress, width, length, kind⟩ := asked
  cases kind with
  | decimal | unsigned | integer | octal | hex | pointer =>
    obtain ⟨number, content⟩ := content_convertInteger read
    exact ⟨number, nofun, fun _ => content⟩
  | count => exact ⟨input.consumed, fun _ => rfl, fun _ => rfl⟩
  | float | string swapped | chars swapped | charClass set => cases required
  | percent => cases required

end Counted

namespace Progress

variable {rules : Rules} {start before after : Progress σ} {directives passed : List Directive}
  {asked : Conversion}

theorem taken_passed (ran : start.run rules passed = (none, before)) :
    before.arguments.taken = start.arguments.taken + rules.policy.placeBehind passed := by
  induction passed generalizing start with
  | nil =>
    obtain ⟨-, rfl⟩ := Prod.mk.inj ran
    rfl
  | cons directive passed ih =>
    rw [run] at ran
    cases executed : start.execute rules directive with
    | mk halt middle =>
      rw [executed] at ran
      cases halt with
      | some halt => cases ran
      | none =>
        have first := taken_goesOn executed
        have further := ih ran
        simp only [Policy.placeBehind, List.foldr_cons] at further ⊢
        omega

theorem execute_elsewhere (rules : Rules) (directive : Directive) (progress : Progress σ)
    {place : Nat} (apart : place ≠ progress.arguments.taken) :
    (progress.execute rules directive).2.arguments.slots[place]? =
      progress.arguments.slots[place]? := by
  apply execute_keeps
  intro taken
  cases directive with
  | whitespace | literal code => contradiction
  | conversion asked => exact apart (Policy.takings_destination taken).2.2

theorem content_execute {bits : Nat} (required : asked.requirement? w = some (.integer bits))
    (completed : before.execute rules (.conversion asked) = (none, after)) :
    ∃ number, (asked.kind = .count → number = before.input.consumed) ∧
      ∀ elements, (before.input.convert rules (before.completed + 1) asked elements).1.content =
        some (.word number) := by
  rw [execute, convert] at completed
  split at completed
  · cases completed
  · simp only at completed
    split at completed
    · cases completed
    · rename_i read
      exact Counted.content_convert required read

/-- A conversion with a destination that a run comes to, behind the directives that were passed
and in the state they left. -/
structure ComesTo (rules : Rules) (start : Progress σ) (directives passed : List Directive)
    (asked : Conversion) (before : Progress σ) : Prop where
  listed : ∃ later, directives = passed ++ .conversion asked :: later
  kept : asked.suppress = false
  takes : asked.kind ≠ .percent
  reached : start.run rules passed = (none, before)

theorem comesTo_destination {place : Nat}
    (taken : .destination place ∈ (start.takings rules directives).flatten) :
    ∃ passed asked before, ComesTo rules start directives passed asked before ∧
      place = before.arguments.taken := by
  induction directives generalizing start with
  | nil => contradiction
  | cons directive directives ih =>
    rw [takings, List.flatten_cons] at taken
    rcases List.mem_append.mp taken with here | later
    · cases directive with
      | whitespace | literal code => contradiction
      | conversion asked =>
        obtain ⟨kept, takes, same⟩ := Policy.takings_destination here
        exact ⟨[], asked, start, ⟨⟨directives, rfl⟩, kept, takes, rfl⟩, same⟩
    · cases executed : start.execute rules directive with
      | mk halt middle =>
        rw [executed] at later
        cases halt with
        | some halt => contradiction
        | none =>
          obtain ⟨passed, asked, before, ⟨⟨rest, listed⟩, kept, takes, reached⟩, same⟩ := ih later
          refine ⟨directive :: passed, asked, before, ⟨⟨rest, ?_⟩, kept, takes, ?_⟩, same⟩
          · rw [listed, List.cons_append]
          · rw [run, executed]
            exact reached

namespace ComesTo

theorem initial (comes : ComesTo rules start directives passed asked before) :
    before.arguments.slots[before.arguments.taken]? =
      start.arguments.slots[before.arguments.taken]? := by
  have last : (start.run rules passed).2.arguments.taken ≤ before.arguments.taken := by
    rw [comes.reached]
  have kept := start.untouched_run rules passed (.inr last)
  rw [comes.reached] at kept
  exact kept

theorem final (comes : ComesTo rules start directives passed asked before) :
    (start.run rules directives).2.arguments.slots[before.arguments.taken]? =
      (before.execute rules (.conversion asked)).2.arguments.slots[before.arguments.taken]? := by
  obtain ⟨later, listed⟩ := comes.listed
  rw [listed, run_append, comes.reached]
  simp only [andThen, run]
  cases executed : before.execute rules (.conversion asked) with
  | mk halt after =>
    cases halt with
    | some halt => rfl
    | none =>
      have moved := taken_goesOn executed
      have takes : 0 < asked.arity rules.policy := by
        rw [Conversion.arity, comes.kept, beq_false_of_ne comes.takes, Bool.or_self,
          if_neg Bool.false_ne_true]
        split <;> exact Nat.zero_lt_succ _
      apply untouched_run
      exact .inl (moved ▸ Nat.lt_add_of_pos_right takes)

end ComesTo

end Progress

/-- Slots are written by position. The destination of a conversion that the scan comes to lies
behind what the directives in front of it ask for, in whatever input the scan finds them. Only
this conversion changes it, and the conversion changes nothing else: if it is completed and
reads a number, the slot ends with that number, truncated to the width of the slot. Every other
slot keeps what it held. -/
theorem scan_stores_by_position (rules : Rules) (format : Text w) (slots : List Slot)
    (source : σ) :
    let directives := (Format.read format).steps.map Prod.fst
    let start := Progress.start w rules slots source
    let done := scan rules format slots source
    (∀ passed asked before, Progress.ComesTo rules start directives passed asked before →
      let place := rules.policy.placeBehind passed
      let executed := before.execute rules (.conversion asked)
      before.arguments.taken = place ∧
        before.arguments.slots[place]? = slots[place]? ∧
        done.slots[place]? = executed.2.arguments.slots[place]? ∧
        (∀ other, other ≠ place →
          executed.2.arguments.slots[other]? = before.arguments.slots[other]?) ∧
        ∀ bits, asked.requirement? w = some (.integer bits) → executed.1 = none →
          ∃ type old number, type.bits = bits ∧ slots[place]? = some (.integer type old) ∧
            (asked.kind = .count → number = before.input.consumed) ∧
            (∀ elements, (before.input.convert rules (before.completed + 1) asked
              elements).1.content = some (.word number)) ∧
            ∃ value, done.slots[place]? = some (.integer type value) ∧ type.Holds value ∧
              value % (Nat.pow 2 bits : Nat) = number % (Nat.pow 2 bits : Nat)) ∧
      (∀ place, (∀ passed asked before,
          Progress.ComesTo rules start directives passed asked before →
          place ≠ rules.policy.placeBehind passed) →
        done.slots[place]? = slots[place]?) := by
  intro directives start done
  have ended : done.slots = (start.run rules directives).2.arguments.slots := by
    simp only [done, scan, Progress.runFormat_state]
    rfl
  refine ⟨?_, ?_⟩
  · intro passed asked before comes place executed
    have taken : before.arguments.taken = place :=
      (Progress.taken_passed comes.reached).trans (Nat.zero_add _)
    have initial : before.arguments.slots[place]? = slots[place]? := taken ▸ comes.initial
    have final : done.slots[place]? = executed.2.arguments.slots[place]? :=
      ended ▸ taken ▸ comes.final
    refine ⟨taken, initial, final, ?_, ?_⟩
    · intro other apart
      exact before.execute_elsewhere rules _ (taken ▸ apart)
    · intro bits required completed
      have completed' : before.execute rules (.conversion asked) = (none, executed.2) :=
        Prod.ext completed rfl
      -- The number read is stored by this step; later steps leave its place alone.
      obtain ⟨number, counted, read⟩ := Progress.content_execute required completed'
      have stored := Progress.execute_number rules required comes.kept read completed'
      obtain ⟨type, old, width, shown, changed⟩ := stored.stored
      rw [taken] at shown changed
      have inside := (List.getElem?_eq_some_iff.mp shown).1
      refine ⟨type, old, number, width, initial ▸ shown, counted, read, type.ofWord number, ?_,
        type.holds_ofWord number, width ▸ type.ofWord_emod number⟩
      rw [final, changed, List.getElem?_set_self inside]
  · intro place apart
    rw [ended]
    apply Progress.run_keeps
    intro taken
    obtain ⟨passed, asked, before, comes, same⟩ := Progress.comesTo_destination taken
    have behind : before.arguments.taken = rules.policy.placeBehind passed :=
      (Progress.taken_passed comes.reached).trans (Nat.zero_add _)
    exact apart passed asked before comes (same.trans behind)

/-- The last number lies behind a text and a count with their capacities, and keeps the low bits
of what was read. -/
theorem truncated_behind_capacities :
    let skipped : Conversion := ⟨true, none, .absent, .decimal⟩
    let word : Conversion := ⟨false, some 2, .absent, .string false⟩
    let count : Conversion := ⟨false, none, .absent, .count⟩
    let passed := [.conversion skipped, .conversion word, .conversion count]
    let slots : List Slot := [.buffer .narrow [.nul, .nul, .nul], .capacity 3,
      .integer ⟨true, .word⟩ 0, .capacity 1, .integer ⟨false, .byte⟩ 0]
    let done := scan ⟨.secure, .c⟩ (Text.ofString .narrow "%*d%2s%n%hhd") slots
      (TextSource.ofText (Text.ofString .narrow "7 ab300"))
    Policy.secure.placeBehind passed = 4 ∧
      ∃ value, done.slots[4]? = some (.integer ⟨false, .byte⟩ value) ∧
        (⟨false, .byte⟩ : IntegerType).Holds value ∧ value % 256 = 44 := by
  intro skipped word count passed slots done
  let last : Conversion := ⟨false, none, .char, .decimal⟩
  let source := TextSource.ofText (Text.ofString .narrow "7 ab300")
  let start := Progress.start .narrow ⟨.secure, .c⟩ slots source
  let before := (start.run ⟨.secure, .c⟩ passed).2
  have comes : Progress.ComesTo ⟨.secure, .c⟩ start
      ((Format.read (Text.ofString .narrow "%*d%2s%n%hhd")).steps.map Prod.fst) passed last
      before :=
    { listed := ⟨[], by decide +kernel⟩
      kept := rfl
      takes := nofun
      reached := Prod.ext (by decide +kernel) rfl }
  obtain ⟨stored, -⟩ := scan_stores_by_position ⟨.secure, .c⟩
    (Text.ofString .narrow "%*d%2s%n%hhd") slots source
  obtain ⟨-, -, -, -, truncated⟩ := stored passed last before comes
  obtain ⟨type, old, number, width, initial, -, read, value, final, holds, residue⟩ :=
    truncated 8 rfl (by decide +kernel)
  have content : (before.input.convert (w := .narrow) ⟨.secure, .c⟩ (before.completed + 1) last
      none).1.content = some (.word 300) := by decide +kernel
  obtain rfl : 300 = number := by
    rw [read none] at content
    cases content
    rfl
  cases initial
  exact ⟨rfl, value, final, holds, residue⟩

end FormattedInput
