import FormattedInput.Scan.Progress

namespace FormattedInput

variable {w : Width}

namespace Content

/-- How many elements of a buffer the content may change. -/
def extent : Content w → Nat
  | word _ | decimal _ => 0
  | text units => units.length
  | terminated units => units.length + 1
  | cut units => max units.length 1

end Content

namespace Slot

theorem take_overwrite (count : Nat) (front old : Text w) :
    (overwrite front old).take count = overwrite front (old.take count) := by
  fun_induction overwrite front old generalizing count with
  | case1 old => rfl
  | case2 front => cases front <;> simp [overwrite]
  | case3 unit front first old ih =>
    cases count with
    | zero => rfl
    | succ count => simp [overwrite, ih]

theorem drop_overwrite {count : Nat} {front : Text w} (short : front.length ≤ count)
    (old : Text w) : (overwrite front old).drop count = old.drop count := by
  fun_induction overwrite front old generalizing count with
  | case1 old => rfl
  | case2 front => rfl
  | case3 unit front first old ih =>
    cases count with
    | zero => simp at short
    | succ count =>
      rw [List.drop_succ_cons, List.drop_succ_cons]
      exact ih (by simpa using short)

theorem overwrite_front {front old : Text w} (fits : front.length ≤ old.length) :
    overwrite front old = front ++ old.drop front.length := by
  fun_induction overwrite front old with
  | case1 old => rfl
  | case2 front some_ =>
    cases front with
    | nil => contradiction
    | cons unit front => contradiction
  | case3 unit front first old ih =>
    rw [ih (Nat.le_of_succ_le_succ fits)]
    rfl

def shorten (count : Nat) (slot : Slot) : Slot :=
  match slot with
  | buffer w units => buffer w (units.take count)
  | slot => slot

def beyond (count : Nat) (slot : Slot) : Option (Σ w, Text w) :=
  match slot with
  | buffer w units => some ⟨w, units.drop count⟩
  | _ => none

theorem kind_shorten (count : Nat) (slot : Slot) : (slot.shorten count).kind = slot.kind := by
  cases slot <;> rfl

theorem size_shorten (count : Nat) (slot : Slot) :
    (slot.shorten count).size = min count slot.size := by
  cases slot with
  | buffer w units => exact List.length_take
  | integer type value | float format bits | capacity count => exact (Nat.min_zero _).symm

theorem size_store (page : CodePage) (content : Content w) (slot : Slot) :
    (Slot.store page content slot).size = slot.size := by
  cases content <;> cases slot <;> simp only [store, size, length_overwrite]

theorem store_shorten (page : CodePage) (content : Content w) (count : Nat) (slot : Slot) :
    Slot.store page content (slot.shorten count) =
      (Slot.store page content slot).shorten count := by
  cases content <;> cases slot <;> simp only [store, shorten, take_overwrite]

theorem beyond_store (page : CodePage) {content : Content w} {count : Nat}
    (short : content.extent ≤ count) (slot : Slot) :
    (Slot.store page content slot).beyond count = slot.beyond count := by
  cases slot with
  | buffer target old =>
    cases content with
    | word value | decimal number => rfl
    | text units =>
      simp only [store, beyond]
      rw [drop_overwrite (by simpa [Content.extent] using short)]
    | terminated units =>
      simp only [store, beyond]
      rw [drop_overwrite (by simpa [Content.extent] using short)]
    | cut units =>
      simp only [Content.extent, Nat.max_le] at short
      simp only [store, beyond]
      rw [drop_overwrite (by simpa using short.2), drop_overwrite (by simpa using short.1)]
  | integer type value | float format bits | capacity count => cases content <;> rfl

end Slot

namespace Counted

variable {σ : Type} [UnitSource σ w]

theorem length_takeRun_le (accept : CodeUnit w → Bool) {room : Option Nat} {count : Nat}
    (bounded : room = some count) (width : Option Nat) (input : Counted σ) :
    (input.takeRun accept room width).units.length ≤ count := by
  fun_induction takeRun accept room width input generalizing count with
  | case1 => exact Nat.zero_le _
  | case2 => exact Nat.zero_le _
  | case3 => exact Nat.zero_le _
  | case4 room width input open_ unit source looked accepted roomy run =>
    rename_i ih
    subst bounded
    have later : run.units.length ≤ count - 1 := ih rfl
    have some_room : count ≠ 0 := fun none => roomy (congrArg some none)
    simp only [List.length_cons]
    omega
  | case5 => exact Nat.zero_le _

theorem extent_convertInteger {base : IntegerBase} {width : Option Nat} {input : Counted σ}
    {content : Content w} (read : (input.convertInteger base width).1.content = some content) :
    content.extent = 0 := by
  unfold convertInteger at read
  split at read
  · obtain rfl := Option.some.inj read
    rfl
  · contradiction

theorem extent_convertFloat {point : Nat} {width : Option Nat} {input : Counted σ}
    {content : Content w} (read : (input.convertFloat point width).1.content = some content) :
    content.extent = 0 := by
  unfold convertFloat at read
  split at read
  · obtain rfl := Option.some.inj read
    rfl
  · contradiction

theorem extent_convertText {policy : Policy} {index : Nat} {shape : TextShape} {elements : Nat}
    {width : Option Nat} {input : Counted σ} {content : Content w}
    (read : (input.convertText policy index shape (some elements) width).1.content =
      some content) : content.extent ≤ max elements 1 := by
  have short : ((input.dropLeading shape).takeRun shape.accepts (some (shape.room elements))
      (shape.width width)).units.length ≤ shape.room elements :=
    length_takeRun_le shape.accepts rfl (shape.width width) (input.dropLeading shape)
  rw [convertText, takeText, Option.map_some] at read
  generalize (input.dropLeading shape).takeRun shape.accepts (some (shape.room elements))
    (shape.width width) = run at read short
  have inside : shape.room elements ≤ elements := by
    unfold TextShape.room
    split <;> omega
  cases full : run.overflows with
  | true =>
    simp only [full, if_true, Option.some.injEq] at read
    subst read
    simp only [Content.extent]
    omega
  | false =>
    cases lacks : shape.lacks run with
    | true =>
      simp only [full, lacks, Bool.false_eq_true, if_false, if_true, Option.some.injEq] at read
      subst read
      simp only [Content.extent]
      omega
    | false =>
      simp only [full, lacks, Bool.false_eq_true, if_false, Option.some.injEq] at read
      subst read
      cases ended : shape.isTerminated with
      | true =>
        simp only [TextShape.room, ended, if_true, Content.extent] at short ⊢
        omega
      | false =>
        simp only [Bool.false_eq_true, if_false, Content.extent]
        omega

/-- A conversion reaches no further than the elements it was granted, or than the one
that marks a text as cut. -/
theorem extent_convert {rules : Rules} {index : Nat} {conversion : Conversion} {elements : Nat}
    {input : Counted σ} {content : Content w}
    (read : (input.convert rules index conversion (some elements)).1.content = some content) :
    content.extent ≤ max elements 1 := by
  obtain ⟨suppress, width, length, kind⟩ := conversion
  cases kind with
  | decimal | unsigned | integer | octal | hex | pointer =>
    exact extent_convertInteger read ▸ Nat.zero_le _
  | float => exact extent_convertFloat read ▸ Nat.zero_le _
  | string swapped => exact extent_convertText read
  | chars swapped => exact extent_convertText read
  | charClass set => exact extent_convertText read
  | count =>
    obtain rfl := Option.some.inj read
    exact Nat.zero_le _
  | percent => contradiction

end Counted

end FormattedInput
