import FormattedInput.Format.Printing
import FormattedInput.Proofs.Lookahead
import FormattedInput.Proofs.PrintedMarks

namespace FormattedInput

variable {w : Width}

namespace CharClass

/-- Bounds that spell a range: they are in order, and none ends the class or the format. -/
structure IsRange (w : Width) (range : Nat × Nat) : Prop where
  positive : 0 < range.1
  ordered : range.1 ≤ range.2
  inside : range.2 < w.bound
  first : range.1 ≠ ']'.toNat
  last : range.2 ≠ ']'.toNat

/-- A class as it is read: there is a first range, only that one may be a closing bracket,
and it is a caret alone only behind the caret that negates. -/
structure Readable (w : Width) (set : CharClass) (first : Nat × Nat)
    (others : List (Nat × Nat)) : Prop where
  ranges : set.ranges = first :: others
  front : first = (']'.toNat, ']'.toNat) ∨ IsRange w first
  others : ∀ range ∈ others, IsRange w range
  caret : set.negated = false → first ≠ ('^'.toNat, '^'.toNat)

theorem isRange_ends {low high : CodeUnit w} (started : low.code ≠ 0) (going : high.code ≠ 0)
    (opens : low.is ']' = false) (closes : high.is ']' = false) :
    IsRange w (min low.code high.code, max low.code high.code) := by
  rw [CodeUnit.is, beq_eq_false_iff_ne] at opens closes
  have below := low.code_lt
  have within := high.code_lt
  constructor <;> simp only <;> omega

theorem isRange_single {low : CodeUnit w} (started : low.code ≠ 0)
    (opens : low.is ']' = false) : IsRange w (low.code, low.code) := by
  have alone := isRange_ends started started opens opens
  rwa [Nat.min_self, Nat.max_self] at alone

theorem spellRange_ends {range : Nat × Nat} (spelled : IsRange w range) :
    ∃ low high : CodeUnit w, spellRange w range = [low, .ofNat w '-'.toNat, high] ∧
      low.code ≠ 0 ∧ high.code ≠ 0 ∧ low.is ']' = false ∧ high.is ']' = false ∧
      range = (min low.code high.code, max low.code high.code) ∧
      (low.is '^' = true → range = ('^'.toNat, '^'.toNat)) := by
  obtain ⟨low, high⟩ := range
  obtain ⟨positive, ordered, inside, opens, closes⟩ := spelled
  simp only at positive ordered inside opens closes
  have below : low < w.bound := Nat.lt_of_le_of_lt ordered inside
  have lowCode : (CodeUnit.ofNat w low).code = low := CodeUnit.code_ofNat below
  have highCode : (CodeUnit.ofNat w high).code = high := CodeUnit.code_ofNat inside
  unfold spellRange
  split
  · rename_i caret
    simp only at caret
    refine ⟨.ofNat w high, .ofNat w low, rfl, ?_⟩
    simp only [CodeUnit.is, lowCode, highCode, beq_eq_false_iff_ne, beq_iff_eq, Prod.mk.injEq]
    omega
  · rename_i other
    simp only at other
    refine ⟨.ofNat w low, .ofNat w high, rfl, ?_⟩
    simp only [CodeUnit.is, lowCode, highCode, beq_eq_false_iff_ne, beq_iff_eq, Prod.mk.injEq]
    omega

end CharClass

namespace Format

open CharClass (IsRange)

theorem readRanges_between {first last : CodeUnit w} (opens : first.is ']' = false)
    (closes : last.is ']' = false) (more : Text w) :
    readRanges (first :: .ofNat w '-'.toNat :: last :: more) =
      (readRanges more).map fun (ranges, rest) =>
        ((min first.code last.code, max first.code last.code) :: ranges, rest) := by
  have dash : (CodeUnit.ofNat w '-'.toNat).is '-' = true :=
    CodeUnit.is_ofAscii (by decide) '-'
  rw [readRanges, opens, if_neg Bool.false_ne_true]
  simp only [dash, closes, Bool.not_false, Bool.and_true, if_true]

theorem readRanges_range {range : Nat × Nat} (spelled : IsRange w range) (more : Text w) :
    readRanges (CharClass.spellRange w range ++ more) =
      (readRanges more).map fun (ranges, rest) => (range :: ranges, rest) := by
  obtain ⟨low, high, ends, -, -, opens, closes, same, -⟩ := CharClass.spellRange_ends spelled
  rw [ends, same]
  exact readRanges_between opens closes more

theorem readRanges_spelled {ranges : List (Nat × Nat)} (spelled : ∀ range ∈ ranges, IsRange w range)
    (back : Text w) :
    readRanges (ranges.flatMap (CharClass.spellRange w) ++ (Text.ofChars w [']'] ++ back)) =
      some (ranges, back) := by
  induction ranges with
  | nil =>
    have closes : (CodeUnit.ofNat w ']'.toNat).is ']' = true :=
      CodeUnit.is_ofAscii (by decide) ']'
    rw [Text.ofChars_ascii (by decide)]
    exact readRanges_closed closes back
  | cons range ranges ih =>
    have later := ih fun other member => spelled other (List.mem_cons_of_mem _ member)
    rw [List.flatMap_cons, List.append_assoc,
      readRanges_range (spelled range List.mem_cons_self), later]
    rfl

theorem readRanges_isRange {text rest : Text w} {ranges : List (Nat × Nat)}
    (nulFree : ∀ unit ∈ text, unit.code ≠ 0) (found : readRanges text = some (ranges, rest)) :
    ∀ range ∈ ranges, IsRange w range := by
  -- By the reading: a range of two ends, or one of a single member.
  fun_induction readRanges text generalizing ranges with
  | case1 => contradiction
  | case2 low text closes =>
    cases found
    exact List.forall_mem_nil _
  | case3 low opens dash high more spells ih =>
    obtain ⟨⟨others, last⟩, inner, same⟩ := Option.map_eq_some_iff.mp found
    cases same
    simp only [List.forall_mem_cons] at nulFree
    obtain ⟨started, -, going, later⟩ := nulFree
    rw [Bool.and_eq_true, Bool.not_eq_eq_eq_not, Bool.not_true] at spells
    rintro range (_ | ⟨_, member⟩)
    · exact CharClass.isRange_ends started going (by simpa using opens) spells.2
    · exact ih later inner range member
  | case4 low opens dash high more single ih =>
    obtain ⟨⟨others, last⟩, inner, same⟩ := Option.map_eq_some_iff.mp found
    cases same
    obtain ⟨started, later⟩ := List.forall_mem_cons.mp nulFree
    rintro range (_ | ⟨_, member⟩)
    · exact CharClass.isRange_single started (by simpa using opens)
    · exact ih later inner range member
  | case5 low opens text single ih =>
    obtain ⟨⟨others, last⟩, inner, same⟩ := Option.map_eq_some_iff.mp found
    cases same
    obtain ⟨started, later⟩ := List.forall_mem_cons.mp nulFree
    rintro range (_ | ⟨_, member⟩)
    · exact CharClass.isRange_single started (by simpa using opens)
    · exact ih later inner range member

theorem readRanges_first {unit : CodeUnit w} (opens : unit.is ']' = false) {text rest : Text w}
    {ranges : List (Nat × Nat)} (found : readRanges (unit :: text) = some (ranges, rest)) :
    ∃ first others, ranges = first :: others ∧ (first.1 = unit.code ∨ first.2 = unit.code) := by
  unfold readRanges at found
  rw [opens, if_neg Bool.false_ne_true] at found
  split at found
  · split at found
    · obtain ⟨⟨others, last⟩, -, same⟩ := Option.map_eq_some_iff.mp found
      cases same
      refine ⟨_, others, rfl, ?_⟩
      simp only
      omega
    · obtain ⟨⟨others, last⟩, -, same⟩ := Option.map_eq_some_iff.mp found
      cases same
      exact ⟨_, others, rfl, .inl rfl⟩
  · obtain ⟨⟨others, last⟩, -, same⟩ := Option.map_eq_some_iff.mp found
    cases same
    exact ⟨_, others, rfl, .inl rfl⟩

theorem readMark_suffix (mark : Char) (text : Text w) : (readMark mark text).2 <:+ text := by
  obtain ⟨front, split, -⟩ := readMark_local mark text
  exact ⟨front, split.symm⟩

theorem readClass_readable {text rest : Text w} {set : CharClass}
    (nulFree : ∀ unit ∈ text, unit.code ≠ 0) (found : readClass text = some (set, rest)) :
    ∃ first others, set.Readable w first others := by
  obtain ⟨ranges, members, negated, listed⟩ := readClass_parts found
  have shorter := (readMark_suffix ']' (readMark '^' text).2).trans (readMark_suffix '^' text)
  have spelled := readRanges_isRange
    (fun unit member => nulFree unit (shorter.subset member)) members
  cases closing : (readMark ']' (readMark '^' text).2).1 with
  | true =>
    rw [closing, if_pos rfl] at listed
    exact ⟨_, ranges, listed, .inl rfl, spelled, fun _ => by decide⟩
  | false =>
    obtain ⟨whole, opens⟩ := readMark_absent closing
    rw [closing, if_neg Bool.false_ne_true, List.nil_append] at listed
    rw [whole] at members
    cases left : (readMark '^' text).2 with
    | nil =>
      rw [left] at members
      contradiction
    | cons unit more =>
      rw [left] at members opens
      obtain ⟨first, others, rfl, bound⟩ := readRanges_first (opens unit rfl) members
      rw [List.forall_mem_cons] at spelled
      refine ⟨first, others, listed, .inr spelled.1, spelled.2, ?_⟩
      -- A caret in front that does not negate is no unit of the text at all.
      rintro plain rfl
      obtain ⟨same, other⟩ := readMark_absent (negated.symm.trans plain)
      have caret : unit.is '^' = true := by
        rw [CodeUnit.is, beq_iff_eq]
        omega
      rw [same] at left
      rw [other unit (by rw [left]; rfl)] at caret
      contradiction

theorem head_spellFirst {first : Nat × Nat}
    (front : first = (']'.toNat, ']'.toNat) ∨ IsRange w first)
    (other : first ≠ ('^'.toNat, '^'.toNat)) (more : Text w) :
    ∀ unit ∈ (CharClass.spellFirst w first ++ more).head?, unit.is '^' = false := by
  unfold CharClass.spellFirst
  split
  · rw [Text.ofChars_ascii (by decide)]
    rintro unit ⟨⟩
    exact (CodeUnit.is_ofAscii (by decide) '^').trans (by decide)
  · rename_i unlike
    obtain ⟨low, high, ends, -, -, -, -, -, caret⟩ :=
      CharClass.spellRange_ends (front.resolve_left unlike)
    rw [ends]
    rintro unit ⟨⟩
    exact Bool.eq_false_iff.mpr fun same => other (caret same)

theorem readMark_spellFirst {first : Nat × Nat}
    (front : first = (']'.toNat, ']'.toNat) ∨ IsRange w first) (more : Text w) :
    readMark ']' (CharClass.spellFirst w first ++ more) =
      if first = (']'.toNat, ']'.toNat) then (true, more)
      else (false, CharClass.spellRange w first ++ more) := by
  unfold CharClass.spellFirst
  split
  · exact readMark_spelled (by decide) true nofun
  · rename_i unlike
    obtain ⟨low, high, ends, -, -, opens, -, -, -⟩ :=
      CharClass.spellRange_ends (front.resolve_left unlike)
    have apart : ∀ unit ∈ (CharClass.spellRange w first ++ more).head?, unit.is ']' = false := by
      rw [ends]
      rintro unit ⟨⟩
      exact opens
    have unmarked := readMark_spelled (by decide) false fun _ => apart
    rwa [if_neg Bool.false_ne_true, Text.ofChars_nil, List.nil_append] at unmarked

theorem readClass_spelled {set : CharClass} {first : Nat × Nat} {others : List (Nat × Nat)}
    (readable : set.Readable w first others) (back : Text w) :
    readClass (set.spelling w ++ back) = some (set, back) := by
  obtain ⟨negated, ranges⟩ := set
  obtain ⟨rfl, front, spelled, caret⟩ := readable
  have rest := readRanges_spelled spelled back
  have caretApart (plain : negated = false) := head_spellFirst front (caret plain)
    (others.flatMap (CharClass.spellRange w) ++ (Text.ofChars w [']'] ++ back))
  have marked := readMark_spelled (by decide) negated caretApart
  simp only [CharClass.spelling, CharClass.spellRanges, List.append_assoc, readClass, marked,
    readMark_spellFirst front]
  by_cases closing : first = (']'.toNat, ']'.toNat)
  · simp only [if_pos closing, rest]
    rw [closing]
    rfl
  · simp only [if_neg closing, readRanges_range (front.resolve_left closing), rest]
    rfl

end Format

end FormattedInput
