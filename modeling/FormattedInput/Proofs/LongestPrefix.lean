import FormattedInput.Proofs.TextReading
import Mathlib.Data.List.TakeWhile

namespace FormattedInput

variable {w : Width}

namespace Text

/-- A beginning that is in the language, and none that is in it is longer. -/
structure Longest (language : Text w → Prop) (text front : Text w) : Prop where
  begins : front <+: text
  member : language front
  most : ∀ other, other <+: text → language other → other.length ≤ front.length

variable {accept : CodeUnit w → Bool} {front more text : Text w}

theorem run_begins (accepted : ∀ unit ∈ front, accept unit = true) (begins : front <+: text) :
    front <+: text.takeWhile accept := by
  obtain ⟨behind, rfl⟩ := begins
  rw [List.takeWhile_append_of_pos accepted]
  exact List.prefix_append front _

theorem longest_run (accept : CodeUnit w → Bool) (text : Text w) :
    Longest (fun front => ∀ unit ∈ front, accept unit = true) text (text.takeWhile accept) where
  begins := List.takeWhile_prefix accept
  member := fun _ inside => List.mem_takeWhile_imp inside
  most := fun _ begins accepted => (run_begins accepted begins).length_le

/-- Accepted units in front of one that is not accepted end where the run of them ends. -/
theorem run_split {run behind : Text w} (accepted : ∀ unit ∈ front, accept unit = true)
    (stops : ∀ unit ∈ more.head?, accept unit = false) (runs : ∀ unit ∈ run, accept unit = true)
    (ends : ∀ unit ∈ behind.head?, accept unit = false) (begins : front ++ more <+: run ++ behind) :
    more = [] ∧ front <+: run ∨ front = run ∧ more <+: behind := by
  -- Unit by unit; the two part only where one of them has come to a unit that is not accepted.
  induction run generalizing front with
  | nil =>
    cases front with
    | nil => exact .inr ⟨rfl, begins⟩
    | cons unit front =>
      obtain ⟨left, rfl⟩ := begins
      have rejected := ends unit rfl
      rw [accepted unit List.mem_cons_self] at rejected
      cases rejected
  | cons first run ih =>
    obtain ⟨leads, others⟩ := List.forall_mem_cons.mp runs
    cases front with
    | nil =>
      cases more with
      | nil => exact .inl ⟨rfl, List.nil_prefix⟩
      | cons unit more =>
        obtain ⟨rfl, -⟩ := List.cons_prefix_cons.mp begins
        have rejected := stops unit rfl
        rw [leads] at rejected
        cases rejected
    | cons unit front =>
      obtain ⟨rfl, inside⟩ := List.cons_prefix_cons.mp begins
      obtain ⟨-, further⟩ := List.forall_mem_cons.mp accepted
      rcases ih further others inside with ⟨nothing, within⟩ | ⟨rfl, left⟩
      · exact .inl ⟨nothing, List.cons_prefix_cons.mpr ⟨rfl, within⟩⟩
      · exact .inr ⟨rfl, left⟩

theorem dropWhile_stops (accept : CodeUnit w → Bool) (text : Text w) :
    ∀ unit ∈ (text.dropWhile accept).head?, accept unit = false := by
  intro unit first
  have stops := List.head?_dropWhile_not accept text
  rwa [first] at stops

/-- A mark in front of a text is the same, however the text is put together, if what stands behind
it cannot be taken for one. -/
theorem mark_split {accept : CodeUnit w → Bool} {mark other : Option (CodeUnit w)}
    {text more : Text w} (accepted : ∀ unit ∈ mark, accept unit = true)
    (unmarked : mark = none → ∀ unit ∈ text.head?, accept unit = false)
    (again : ∀ unit ∈ other, accept unit = true) (some_ : more ≠ [])
    (behind : ∀ unit ∈ more.head?, accept unit = false)
    (begins : other.toList ++ more <+: mark.toList ++ text) : other = mark ∧ more <+: text := by
  cases other with
  | none =>
    cases mark with
    | none => exact ⟨rfl, begins⟩
    | some first =>
      obtain ⟨unit, rest, rfl⟩ := List.exists_cons_of_ne_nil some_
      obtain ⟨rfl, -⟩ := List.cons_prefix_cons.mp begins
      have rejected := behind unit rfl
      rw [accepted unit rfl] at rejected
      cases rejected
  | some unit =>
    cases mark with
    | none =>
      obtain ⟨left, rfl⟩ := begins
      have rejected := unmarked rfl unit rfl
      rw [again unit rfl] at rejected
      cases rejected
    | some first =>
      obtain ⟨rfl, inside⟩ := List.cons_prefix_cons.mp begins
      exact ⟨rfl, inside⟩

end Text

namespace Field

theorem rest_behind {front left : Text w} {field : Field (TextSource w)}
    (shown : field.rest = front ++ left) : (field.advance front.length).rest = left := by
  rw [rest_advance, shown]
  exact List.drop_left

theorem takeIf_split (accept : CodeUnit w → Bool) (field : Field (TextSource w)) :
    ∃ (taken : Option (CodeUnit w)) (rest : Text w), field.rest = taken.toList ++ rest ∧
      (∀ unit ∈ taken, accept unit = true) ∧
      (taken = none → ∀ unit ∈ rest.head?, accept unit = false) ∧
      field.takeIf accept = (taken, field.advance taken.toList.length) := by
  rw [takeIf_text]
  cases field.rest with
  | nil => exact ⟨none, [], rfl, nofun, fun _ => nofun, by simp⟩
  | cons unit rest =>
    cases accepted : accept unit with
    | true =>
      refine ⟨some unit, rest, rfl, ?_, nofun, by simp [accepted]⟩
      rintro other ⟨⟩
      exact accepted
    | false =>
      refine ⟨none, unit :: rest, rfl, nofun, ?_, by simp [accepted]⟩
      rintro - other ⟨⟩
      exact accepted

end Field

end FormattedInput
