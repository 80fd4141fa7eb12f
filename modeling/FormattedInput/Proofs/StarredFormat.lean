import FormattedInput.Proofs.Lookahead
import FormattedInput.Proofs.PrintedMarks

namespace FormattedInput

variable {w : Width}

namespace Directive

def suppressed : Directive → Directive
  | conversion asked => conversion { asked with suppress := true }
  | whitespace => whitespace
  | literal code => literal code

/-- The spelling of a directive with a star behind its percent sign, unless one is there or
none belongs there. -/
def starred (directive : Directive) (spelled : Text w) : Text w :=
  match directive with
  | conversion asked =>
    if asked.suppress then spelled else spelled.take 1 ++ .ofChars w ['*'] ++ spelled.drop 1
  | whitespace | literal _ => spelled

end Directive

namespace Format

/-- Adds a star to every conversion up to the one that cannot be read. -/
def starFrom (text : Text w) : Text w :=
  match _found : readDirective text with
  | .error _ => text
  | .ok (directive, rest) =>
    directive.starred (text.take (text.length - rest.length)) ++ starFrom rest
termination_by text.length
decreasing_by exact readDirective_length ‹_›

def starred (format : Text w) : Text w :=
  starFrom format.beforeNul ++ format.dropWhile fun unit => unit.code ≠ 0

theorem starFrom_error {text : Text w} {fault : FormatFault}
    (failed : readDirective text = .error fault) : starFrom text = text := by
  rw [starFrom]
  split
  · rfl
  · rename_i found
    rw [failed] at found
    cases found

theorem starFrom_ok {front rest : Text w} {directive : Directive}
    (found : readDirective (front ++ rest) = .ok (directive, rest)) :
    starFrom (front ++ rest) = directive.starred front ++ starFrom rest := by
  rw [starFrom]
  split
  · rename_i failed
    rw [found] at failed
    cases failed
  · rename_i again
    rw [found] at again
    cases again
    rw [List.length_append, Nat.add_sub_cancel, List.take_left]

theorem head?_starred (directive : Directive) {spelled : Text w} (going : spelled ≠ [])
    (back : Text w) : (directive.starred spelled ++ back).head? = spelled.head? := by
  obtain ⟨first, more, rfl⟩ := List.exists_cons_of_ne_nil going
  unfold Directive.starred
  split
  · split <;> rfl
  · rfl
  · rfl

theorem readDirective_going {front rest : Text w} {directive : Directive}
    (found : readDirective (front ++ rest) = .ok (directive, rest)) : front ≠ [] := by
  rintro rfl
  exact Nat.lt_irrefl _ (readDirective_length found)

theorem head?_starFrom (text : Text w) : (starFrom text).head? = text.head? := by
  cases read : readDirective text with
  | error fault => rw [starFrom_error read]
  | ok found =>
    obtain ⟨directive, rest⟩ := found
    obtain ⟨front, rfl, -⟩ := readDirective_local read
    have going := readDirective_going read
    rw [starFrom_ok read, head?_starred directive going]
    exact (List.head?_append_of_ne_nil front going).symm

theorem readConversion_suppress {body rest : Text w} {asked : Conversion}
    (found : readConversion body = .ok (.conversion asked, rest)) :
    asked.suppress = (readMark '*' body).1 := by
  unfold readConversion at found
  simp only at found
  split at found
  · cases found
  · split at found
    · split at found
      · cases found
      · cases found
        rfl
    · split at found
      · cases found
        rfl
      · cases found

theorem readConversion_star {body rest : Text w} {asked : Conversion}
    (plain : asked.suppress = false)
    (found : readConversion body = .ok (.conversion asked, rest)) :
    readConversion (Text.ofChars w ['*'] ++ body) =
      .ok (.conversion { asked with suppress := true }, rest) := by
  have marked : readMark '*' (Text.ofChars w ['*'] ++ body) = (true, body) :=
    readMark_spelled (by decide) true nofun
  -- Without a star of its own the body is read behind the new one as it stands.
  obtain ⟨whole, -⟩ := readMark_absent ((readConversion_suppress found).symm.trans plain)
  unfold readConversion at found ⊢
  rw [marked]
  simp only [whole] at found ⊢
  split at found
  · cases found
  · rename_i letter more left
    split at found
    · rename_i opens
      split at found
      · cases found
      · cases found
        simp only [opens, if_true]
    · rename_i other
      split at found
      · cases found
        simp only [other, Bool.false_eq_true, if_false]
      · cases found

theorem readDirective_starred {front rest : Text w} {directive : Directive}
    (found : readDirective (front ++ rest) = .ok (directive, rest)) :
    readDirective (directive.starred front ++ rest) = .ok (directive.suppressed, rest) := by
  cases directive with
  | whitespace => exact found
  | literal code => exact found
  | conversion asked =>
    rw [Directive.starred, Directive.suppressed]
    split
    · rename_i suppress
      rwa [← suppress]
    · rename_i plain
      cases front with
      | nil => exact absurd rfl (readDirective_going found)
      | cons first body =>
        rw [List.cons_append, readDirective] at found
        split at found
        · cases found
        · rename_i visible
          split at found
          · rename_i percent
            have starred := readConversion_star (Bool.eq_false_iff.mpr plain) found
            rw [← starred, List.append_assoc, List.append_assoc]
            exact (if_neg visible).trans (if_pos percent)
          · cases found

/-- The stars leave every directive in its place, and the fault that ends the reading. -/
theorem readFrom_starFrom (offset offset' : Nat) (text : Text w) :
    (readFrom offset' (starFrom text)).directives =
        (readFrom offset text).directives.map Directive.suppressed ∧
      (readFrom offset' (starFrom text)).error.map FormatError.fault =
        (readFrom offset text).error.map FormatError.fault := by
  fun_induction readFrom offset text generalizing offset' with
  | case1 offset text ends =>
    obtain rfl := List.isEmpty_iff.mp ends
    have nothing : starFrom ([] : Text w) = [] := starFrom_error rfl
    rw [nothing, readFrom_nil]
    exact ⟨rfl, rfl⟩
  | case2 offset text going fault failed =>
    rw [starFrom_error failed, readFrom_error offset' (by simpa using going) failed]
    exact ⟨rfl, rfl⟩
  | case3 offset text going directive rest read stop later =>
    rename_i ih
    obtain ⟨front, rfl, exchanged⟩ := readDirective_local read
    have starred := readDirective_starred (exchanged _ (head?_starFrom rest))
    obtain ⟨directives, error⟩ := ih (offset' +
      ((directive.starred front ++ starFrom rest).length - (starFrom rest).length))
    rw [starFrom_ok read, readFrom_ok offset' starred]
    exact ⟨congrArg (directive.suppressed :: ·) directives, error⟩

theorem nulFree_starred (directive : Directive) {spelled : Text w}
    (nulFree : ∀ unit ∈ spelled, unit.code ≠ 0) :
    ∀ unit ∈ directive.starred spelled, unit.code ≠ 0 := by
  have star : (CodeUnit.ofNat w '*'.toNat).code ≠ 0 := by
    rw [CodeUnit.code_ofAscii (by decide)]
    decide
  unfold Directive.starred
  split
  · split
    · exact nulFree
    · rw [Text.ofChars_ascii (by decide)]
      intro unit member
      rcases List.mem_append.mp member with front | behind
      · rcases List.mem_append.mp front with first | added
        · exact nulFree unit (List.mem_of_mem_take first)
        · rwa [List.mem_singleton.mp added]
      · exact nulFree unit (List.mem_of_mem_drop behind)
  · exact nulFree
  · exact nulFree

theorem nulFree_starFrom {text : Text w} (nulFree : ∀ unit ∈ text, unit.code ≠ 0) :
    ∀ unit ∈ starFrom text, unit.code ≠ 0 := by
  fun_induction starFrom text with
  | case1 text fault failed => exact nulFree
  | case2 text directive rest read ih =>
    obtain ⟨front, rfl, -⟩ := readDirective_local read
    obtain ⟨first, later⟩ := List.forall_mem_append.mp nulFree
    rw [List.length_append, Nat.add_sub_cancel, List.take_left]
    exact List.forall_mem_append.mpr ⟨nulFree_starred directive first, ih later⟩

theorem beforeNul_starred (format : Text w) :
    (starred format).beforeNul = starFrom format.beforeNul := by
  have nulFree : ∀ unit ∈ starFrom format.beforeNul, unit.code ≠ 0 :=
    nulFree_starFrom format.nulFree_beforeNul
  have ends : Text.beforeNul (format.dropWhile fun unit => unit.code ≠ 0) = [] := by
    have stops := List.head?_dropWhile_not (fun unit : CodeUnit w => unit.code ≠ 0) format
    cases left : format.dropWhile fun unit => unit.code ≠ 0 with
    | nil => rfl
    | cons first more =>
      rw [left] at stops
      exact List.takeWhile_cons_of_neg (Bool.eq_false_iff.mp stops)
  rw [starred, Text.beforeNul_append nulFree, ends, List.append_nil]

theorem read_starred (format : Text w) :
    (read (starred format)).directives = (read format).directives.map Directive.suppressed ∧
      (read (starred format)).error.map FormatError.fault =
        (read format).error.map FormatError.fault := by
  rw [read, beforeNul_starred]
  exact readFrom_starFrom 0 0 format.beforeNul

end Format

end FormattedInput
