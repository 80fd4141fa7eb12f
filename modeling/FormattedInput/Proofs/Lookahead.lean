import FormattedInput.Proofs.FormatAppend
import Mathlib.Data.Bool.AllAny

namespace FormattedInput

variable {w : Width}

namespace Format

theorem readMark_local (mark : Char) (text : Text w) :
    ∃ front, text = front ++ (readMark mark text).2 ∧
      ∀ rest, rest.head? = (readMark mark text).2.head? →
        readMark mark (front ++ rest) = ((readMark mark text).1, rest) := by
  cases text with
  | nil =>
    refine ⟨[], rfl, ?_⟩
    intro rest same
    rw [List.head?_eq_none_iff.mp same]
    rfl
  | cons first more =>
    cases marked : first.is mark with
    | true =>
      have found (rest : Text w) : readMark mark (first :: rest) = (true, rest) := by
        simp only [readMark, strip?, marked, if_true]
      rw [found]
      exact ⟨[first], rfl, fun rest _ => found rest⟩
    | false =>
      have absent (rest : Text w) : readMark mark (first :: rest) = (false, first :: rest) := by
        simp only [readMark, strip?, marked, Bool.false_eq_true, if_false]
      rw [absent]
      refine ⟨[], rfl, ?_⟩
      intro rest same
      obtain ⟨tail, rfl⟩ := List.head?_eq_some_iff.mp same
      exact absent tail

theorem readMark_absent {mark : Char} {text : Text w} (absent : (readMark mark text).1 = false) :
    (readMark mark text).2 = text ∧ ∀ unit ∈ text.head?, unit.is mark = false := by
  unfold readMark at absent ⊢
  cases text with
  | nil => exact ⟨rfl, nofun⟩
  | cons first more =>
    cases same : first.is mark with
    | true => simp [strip?, same] at absent
    | false =>
      simp only [strip?, same, Bool.false_eq_true, if_false, true_and]
      rintro unit ⟨⟩
      exact same

theorem dropWhile_local (keep : CodeUnit w → Bool) (text : Text w) {rest : Text w}
    (same : rest.head? = (text.dropWhile keep).head?) :
    (text.takeWhile keep ++ rest).takeWhile keep = text.takeWhile keep ∧
      (text.takeWhile keep ++ rest).dropWhile keep = rest := by
  have all : ∀ unit ∈ text.takeWhile keep, keep unit = true :=
    fun unit member => List.mem_takeWhile_imp member
  rw [List.takeWhile_append_of_pos all, List.dropWhile_append_of_pos all]
  cases rest with
  | nil => exact ⟨List.append_nil _, rfl⟩
  | cons first more =>
    have stops : ¬ keep first = true := by
      have other := List.head?_dropWhile_not keep text
      rw [← same] at other
      simpa using other
    rw [List.takeWhile_cons_of_neg stops, List.dropWhile_cons_of_neg stops, List.append_nil]
    exact ⟨rfl, rfl⟩

theorem readWidth_local (text : Text w) :
    ∃ front, text = front ++ (readWidth text).2 ∧
      ∀ rest, rest.head? = (readWidth text).2.head? →
        readWidth (front ++ rest) = ((readWidth text).1, rest) := by
  refine ⟨text.takeWhile (CodeUnit.isDigit 10), List.takeWhile_append_dropWhile.symm, ?_⟩
  intro rest same
  obtain ⟨digits, left⟩ := dropWhile_local (CodeUnit.isDigit 10) text same
  simp only [readWidth, digits, left]

def modifierOf (text : Text w) : LengthModifier :=
  (modifiers.findSome? fun modifier =>
    (strip? modifier.spelling text).map fun _ => modifier).getD .absent

theorem strip?_take {letters : List Char} {count : Nat} (long : letters.length ≤ count)
    (text : Text w) :
    strip? letters text =
      (strip? letters (text.take count)).map fun _ => text.drop letters.length := by
  induction letters generalizing count text with
  | nil => rfl
  | cons letter letters ih =>
    cases text with
    | nil => rw [List.take_nil]; rfl
    | cons first more =>
      cases count with
      | zero => contradiction
      | succ count =>
        rw [List.take_succ_cons, strip?, strip?]
        split
        · exact ih (Nat.le_of_succ_le_succ long) more
        · rfl

theorem spelling_short (modifier : LengthModifier) : modifier.spelling.length ≤ 3 := by
  cases modifier <;> decide

/-- Three units decide which modifier is read. -/
theorem readModifier_eq (text : Text w) :
    readModifier text =
      (modifierOf (text.take 3), text.drop (modifierOf (text.take 3)).spelling.length) := by
  have same : (fun modifier : LengthModifier =>
      (strip? modifier.spelling text).map fun rest => (modifier, rest)) =
      Option.map (fun modifier => (modifier, text.drop modifier.spelling.length)) ∘
        fun modifier => (strip? modifier.spelling (text.take 3)).map fun _ => modifier := by
    funext modifier
    rw [strip?_take (spelling_short modifier), Option.map_map, Function.comp_apply,
      Option.map_map]
    rfl
  rw [readModifier, modifierOf, same, ← List.map_findSome?]
  cases modifiers.findSome? fun modifier =>
    (strip? modifier.spelling (text.take 3)).map fun _ => modifier <;> rfl

theorem modifierOf_absent {first : CodeUnit w} {text : Text w} :
    modifierOf (first :: text) = .absent ↔
      ∀ mark ∈ "hlLIjztw".toList, first.is mark = false := by
  constructor
  · intro absent mark member
    have single : ∀ mark ∈ "hlLIjztw".toList, ∃ modifier ∈ modifiers,
        modifier.spelling = [mark] := List.all_iff_forall_prop.mp (by decide)
    obtain ⟨modifier, inside, spelling⟩ := single mark member
    rw [← Bool.not_eq_true]
    intro begins
    unfold modifierOf at absent
    cases found : modifiers.findSome? fun modifier =>
        (strip? modifier.spelling (first :: text)).map fun _ => modifier with
    | none =>
      have unfit := List.findSome?_eq_none_iff.mp found modifier inside
      rw [spelling, strip?, if_pos begins] at unfit
      cases unfit
    | some other =>
      rw [found, Option.getD_some] at absent
      obtain ⟨listed, among, fits⟩ := List.exists_of_findSome?_eq_some found
      obtain ⟨-, -, rfl⟩ := Option.map_eq_some_iff.mp fits
      rw [absent] at among
      exact absurd among (by decide)
  · intro apart
    have none : ∀ modifier ∈ modifiers,
        ((strip? modifier.spelling (first :: text)).map fun _ => modifier) = none := by
      have heads : ∀ modifier ∈ modifiers, ("hlLIjztw".toList.any fun mark =>
          modifier.spelling.head? = some mark) = true := by decide
      intro modifier member
      obtain ⟨mark, inside, begins⟩ := List.any_iff_exists_prop.mp (heads modifier member)
      obtain ⟨letters, spelling⟩ := List.head?_eq_some_iff.mp begins
      rw [spelling, strip?, apart mark inside, if_neg Bool.false_ne_true, Option.map_none]
    rw [modifierOf, List.findSome?_eq_none_iff.mpr none, Option.getD_none]

theorem take_lookahead (letter : CodeUnit w) {more rest : Text w} (same : rest.head? = more.head?)
    {front : Text w} (long : 0 < front.length) :
    (front ++ letter :: rest).take 3 = (front ++ letter :: more).take 3 := by
  have short : 3 - front.length ≤ 2 := by omega
  have one : rest.take 1 = more.take 1 := by rw [List.take_one, List.take_one, same]
  rw [List.take_append, List.take_append]
  generalize 3 - front.length = count at short
  obtain rfl | rfl | rfl : count = 0 ∨ count = 1 ∨ count = 2 := by omega
  · rfl
  · rfl
  · rw [List.take_succ_cons, List.take_succ_cons, one]

theorem readModifier_local {text more : Text w} {letter : CodeUnit w}
    (left : (readModifier text).2 = letter :: more) :
    ∃ front, text = front ++ letter :: more ∧
      ∀ rest, rest.head? = more.head? →
        readModifier (front ++ letter :: rest) = ((readModifier text).1, letter :: rest) := by
  rw [readModifier_eq] at left ⊢
  simp only at left ⊢
  generalize found : modifierOf (text.take 3) = modifier at left
  have split : text = text.take modifier.spelling.length ++ letter :: more := by
    rw [← left, List.take_append_drop]
  have length : (text.take modifier.spelling.length).length = modifier.spelling.length := by
    have longer := congrArg List.length left
    rw [List.length_drop, List.length_cons] at longer
    rw [List.length_take]
    omega
  generalize text.take modifier.spelling.length = front at split length
  subst split
  refine ⟨front, rfl, ?_⟩
  intro rest same
  have again : modifierOf ((front ++ letter :: rest).take 3) = modifier := by
    cases front with
    | nil =>
      -- Nothing was taken, so the letter begins no modifier, whatever stands behind it.
      obtain rfl : modifier = .absent := by cases modifier <;> first | rfl | cases length
      rw [List.nil_append, List.take_succ_cons, modifierOf_absent] at found ⊢
      exact found
    | cons first front =>
      rw [take_lookahead letter same (List.length_pos_iff.mpr (List.cons_ne_nil first front))]
      exact found
  rw [readModifier_eq, again, ← length, List.drop_left]

theorem readRanges_local {text rest : Text w} {ranges : List (Nat × Nat)}
    (found : readRanges text = some (ranges, rest)) :
    ∃ front, text = front ++ rest ∧ readRanges front = some (ranges, []) := by
  fun_induction readRanges text generalizing ranges with
  | case1 => contradiction
  | case2 low text closes =>
    cases found
    exact ⟨[low], rfl, readRanges_closed closes []⟩
  | case3 low opens dash high more spells ih =>
    obtain ⟨⟨others, last⟩, inner, same⟩ := Option.map_eq_some_iff.mp found
    cases same
    obtain ⟨front, rfl, members⟩ := ih inner
    refine ⟨low :: dash :: high :: front, rfl, ?_⟩
    rw [readRanges, if_neg opens]
    simp only [spells, if_true, members, Option.map_some]
  | case4 low opens dash high more single ih =>
    obtain ⟨⟨others, last⟩, inner, same⟩ := Option.map_eq_some_iff.mp found
    cases same
    obtain ⟨front, split, members⟩ := ih inner
    refine ⟨low :: front, congrArg (low :: ·) split, ?_⟩
    rw [readRanges_alone opens, members]
    · rfl
    · rintro dash high more rfl
      cases split
      exact single
  | case5 low opens text single ih =>
    obtain ⟨⟨others, last⟩, inner, same⟩ := Option.map_eq_some_iff.mp found
    cases same
    obtain ⟨front, rfl, members⟩ := ih inner
    refine ⟨low :: front, rfl, ?_⟩
    rw [readRanges_alone opens, members]
    · rfl
    · rintro dash high more rfl
      exact absurd rfl (single dash high (more ++ rest))

theorem head?_behind {front rest : Text w} (going : front ≠ []) (back : Text w) :
    (front ++ back).head? = (front ++ rest).head? := by
  cases front with
  | nil => exact absurd rfl going
  | cons first front => rfl

theorem readClass_parts {text rest : Text w} {set : CharClass}
    (found : readClass text = some (set, rest)) :
    ∃ ranges, readRanges (readMark ']' (readMark '^' text).2).2 = some (ranges, rest) ∧
      set.negated = (readMark '^' text).1 ∧
      set.ranges = (if (readMark ']' (readMark '^' text).2).1 then [(']'.toNat, ']'.toNat)]
        else []) ++ ranges := by
  obtain ⟨⟨ranges, last⟩, inner, same⟩ := Option.map_eq_some_iff.mp found
  obtain ⟨rfl, rfl⟩ := Prod.mk.inj same
  exact ⟨ranges, inner, rfl, rfl⟩

theorem readClass_local {text rest : Text w} {set : CharClass}
    (found : readClass text = some (set, rest)) :
    ∃ front, front ≠ [] ∧ text = front ++ rest ∧
      ∀ back, readClass (front ++ back) = some (set, back) := by
  obtain ⟨ranges, inner, negated, listed⟩ := readClass_parts found
  obtain ⟨caret, first, negates⟩ := readMark_local '^' text
  obtain ⟨bracket, second, closes⟩ := readMark_local ']' (readMark '^' text).2
  obtain ⟨members, third, spelled⟩ := readRanges_local inner
  have going : members ≠ [] := by
    rintro rfl
    cases spelled
  have behind : bracket ++ members ≠ [] := List.append_ne_nil_of_right_ne_nil bracket going
  refine ⟨caret ++ (bracket ++ members), List.append_ne_nil_of_right_ne_nil caret behind, ?_, ?_⟩
  · rw [List.append_assoc, List.append_assoc, ← third, ← second, ← first]
  · intro back
    have closed := closes (members ++ back) (by rw [third]; exact head?_behind going back)
    have opened := negates (bracket ++ members ++ back)
      (by rw [second, third, ← List.append_assoc]; exact head?_behind behind back)
    rw [List.append_assoc] at opened
    rw [readClass, List.append_assoc, List.append_assoc, opened]
    simp only [closed, readRanges_append spelled back, Option.map_some, List.nil_append]
    rw [← listed, ← negated]

theorem readConversion_local {body rest : Text w} {directive : Directive}
    (found : readConversion body = .ok (directive, rest)) :
    ∃ front, body = front ++ rest ∧
      ∀ back, back.head? = rest.head? → readConversion (front ++ back) = .ok (directive, back) := by
  obtain ⟨star, first, marks⟩ := readMark_local '*' body
  obtain ⟨digits, second, widens⟩ := readWidth_local (readMark '*' body).2
  unfold readConversion at found
  simp only at found
  split at found
  · cases found
  · rename_i letter more left
    obtain ⟨spelled, third, modifies⟩ := readModifier_local left
    have ahead (front after : Text w) : (front ++ letter :: after).head? =
        (front ++ letter :: more).head? := by cases front <;> rfl
    -- What stands behind the letter can be exchanged as far as the marks are concerned.
    have read (after : Text w) (same : after.head? = more.head?) :
        readMark '*' (star ++ (digits ++ (spelled ++ letter :: after))) =
            ((readMark '*' body).1, digits ++ (spelled ++ letter :: after)) ∧
          readWidth (digits ++ (spelled ++ letter :: after)) =
            ((readWidth (readMark '*' body).2).1, spelled ++ letter :: after) ∧
          readModifier (spelled ++ letter :: after) =
            ((readModifier (readWidth (readMark '*' body).2).2).1, letter :: after) := by
      refine ⟨marks _ ?_, widens _ ?_, modifies after same⟩
      · rw [second, third, ← List.append_assoc, ← List.append_assoc]
        exact ahead (digits ++ spelled) after
      · rw [third]
        exact ahead spelled after
    have whole : body = star ++ (digits ++ (spelled ++ letter :: more)) := by
      rw [← third, ← second, ← first]
    split at found
    · rename_i opens
      split at found
      · cases found
      · rename_i set last members
        cases found
        obtain ⟨inside, going, rfl, closes⟩ := readClass_local members
        refine ⟨star ++ (digits ++ (spelled ++ letter :: inside)), by simpa using whole, ?_⟩
        intro back same
        obtain ⟨marked, widened, modified⟩ := read (inside ++ back) (head?_behind going back)
        have split : star ++ (digits ++ (spelled ++ letter :: inside)) ++ back =
            star ++ (digits ++ (spelled ++ letter :: (inside ++ back))) := by simp
        rw [split, readConversion, marked]
        simp only [widened, modified, opens, if_true, closes back]
    · rename_i other
      have split (after : Text w) : star ++ (digits ++ (spelled ++ [letter])) ++ after =
          star ++ (digits ++ (spelled ++ letter :: after)) := by simp
      have rests : more = rest := by split at found <;> cases found <;> rfl
      subst rests
      refine ⟨star ++ (digits ++ (spelled ++ [letter])), whole.trans (split more).symm, ?_⟩
      intro back same
      obtain ⟨marked, widened, modified⟩ := read back same
      rw [split, readConversion, marked]
      simp only [widened, modified, other, Bool.false_eq_true, if_false]
      split at found <;> cases found <;> rfl

theorem readDirective_local {text rest : Text w} {directive : Directive}
    (found : readDirective text = .ok (directive, rest)) :
    ∃ front, text = front ++ rest ∧
      ∀ back, back.head? = rest.head? → readDirective (front ++ back) = .ok (directive, back) := by
  cases text with
  | nil => cases found
  | cons first more =>
    rw [readDirective] at found
    split at found
    · rename_i space
      cases found
      refine ⟨first :: more.takeWhile CodeUnit.isSpace, ?_, ?_⟩
      · rw [List.cons_append, List.takeWhile_append_dropWhile]
      · intro back same
        rw [List.cons_append, readDirective, if_pos space, (dropWhile_local _ more same).2]
    · rename_i visible
      split at found
      · rename_i percent
        obtain ⟨front, rfl, read⟩ := readConversion_local found
        refine ⟨first :: front, rfl, ?_⟩
        intro back same
        rw [List.cons_append, readDirective, if_neg visible, if_pos percent, read back same]
      · rename_i other
        cases found
        refine ⟨[first], rfl, ?_⟩
        intro back same
        rw [List.singleton_append, readDirective, if_neg visible, if_neg other]

end Format

end FormattedInput
