import FormattedInput.Proofs.Takings
import FormattedInput.Proofs.WidenedReading

namespace FormattedInput

namespace CodeUnit

theorem isAscii_iff {unit : Byte} : unit.isAscii = true ↔ unit.code < 128 := decide_eq_true_iff

theorem code_convert (page : CodePage) (target : Width) {unit : Byte}
    (ascii : unit.isAscii = true) : (convert page target unit).code = unit.code := by
  rw [isAscii_iff] at ascii
  cases target with
  | narrow => rfl
  | wide =>
    have inside : (ofNat .wide unit.code).code = unit.code :=
      code_ofNat (Nat.lt_trans unit.code_lt (by decide))
    cases page with
    | latin1 => exact inside
    | windows1252 =>
      simp only [convert, CodePage.toWide]
      rw [if_neg (by omega)]
      exact inside

theorem convert_widened (page : CodePage) (target : Width) {unit : Byte}
    (ascii : unit.isAscii = true) :
    convert page target unit.widened = convert page target unit := by
  apply CodeUnit.ext
  rw [code_convert page target ascii]
  cases target with
  | wide => rfl
  | narrow =>
    have single : unit.widened.code < 256 := unit.code_lt
    have low : unit.widened.code < 0x80 := isAscii_iff.mp ascii
    have inside : (ofNat .narrow unit.widened.code).code = unit.widened.code := code_ofNat single
    cases page with
    | latin1 =>
      simp only [convert, CodePage.toNarrow]
      rw [if_pos single]
      exact inside
    | windows1252 =>
      simp only [convert, CodePage.toNarrow]
      rw [if_pos (.inl low)]
      exact inside

end CodeUnit

namespace Text

theorem codes_convert (page : CodePage) (target : Width) {text : Text .narrow}
    (ascii : text.IsAscii) : codes (text.map (CodeUnit.convert page target)) = text.codes := by
  rw [codes, codes, List.map_map]
  exact List.map_congr_left fun unit member => CodeUnit.code_convert page target (ascii unit member)

theorem convert_widened (page : CodePage) (target : Width) {text : Text .narrow}
    (ascii : text.IsAscii) :
    text.widened.map (CodeUnit.convert page target) = text.map (CodeUnit.convert page target) := by
  rw [widened, List.map_map]
  exact List.map_congr_left fun unit member =>
    CodeUnit.convert_widened page target (ascii unit member)

theorem codes_append {w : Width} (front back : Text w) :
    codes (front ++ back) = front.codes ++ back.codes := List.map_append

structure Beside {a b : Width} (agrees : Nat → Nat → Nat → Prop) (units : Text a)
    (units' : Text b) : Prop where
  length : units'.length = units.length
  each : ∀ {index code code'}, units.codes[index]? = some code →
    units'.codes[index]? = some code' → agrees index code code'

theorem beside_iff_codes {a b : Width} {units : Text a} {units' : Text b} :
    Beside (fun _ code code' => code' = code) units units' ↔ units'.codes = units.codes := by
  constructor
  · intro beside
    have length : units'.codes.length = units.codes.length := by
      rw [codes, codes, List.length_map, List.length_map, beside.length]
    apply List.ext_getElem length
    intro index inside' inside
    exact beside.each (List.getElem?_eq_getElem inside) (List.getElem?_eq_getElem inside')
  · intro same
    refine ⟨by simpa [codes] using congrArg List.length same, ?_⟩
    intro index code code' found found'
    rw [same] at found'
    exact Option.some.inj (found'.symm.trans found)

end Text

namespace Slot

theorem codes_overwrite {w : Width} (front old : Text w) : (overwrite front old).codes =
    (front.codes ++ old.codes.drop front.codes.length).take old.codes.length := by
  fun_induction overwrite front old with
  | case1 old => exact List.take_length.symm
  | case2 front => simp [Text.codes]
  | case3 unit front first old ih => simpa [Text.codes] using ih

theorem overwrite_beside {a b : Width} {agrees : Nat → Nat → Nat → Prop}
    (refl : ∀ index code, agrees index code code) {front old : Text a} {front' old' : Text b}
    (same : front'.codes = front.codes) (beside : Text.Beside agrees old old') :
    Text.Beside agrees (overwrite front old) (overwrite front' old') where
  length := by rw [length_overwrite, length_overwrite, beside.length]
  each := by
    intro index code code' found found'
    rw [codes_overwrite, List.getElem?_take] at found found'
    rw [same] at found'
    split at found
    · split at found'
      · by_cases covered : index < front.codes.length
        · rw [List.getElem?_append_left covered] at found found'
          obtain rfl : code = code' := Option.some.inj (found.symm.trans found')
          exact refl index code
        · have behind : front.codes.length ≤ index := Nat.le_of_not_lt covered
          rw [List.getElem?_append_right behind, List.getElem?_drop,
            Nat.add_sub_cancel' behind] at found found'
          exact beside.each found found'
      · cases found'
    · cases found

/-- Two slots that hold the same, or two buffers whose elements agree. -/
inductive Beside (agrees : Nat → Nat → Nat → Prop) : Slot → Slot → Prop where
  | same (slot : Slot) : Beside agrees slot slot
  | text {a b : Width} {units : Text a} {units' : Text b}
    (beside : Text.Beside agrees units units') : Beside agrees (buffer a units) (buffer b units')

variable {agrees : Nat → Nat → Nat → Prop} {slot other : Slot}

theorem Beside.size (beside : Beside agrees slot other) : other.size = slot.size := by
  cases beside with
  | same slot => rfl
  | text beside => exact beside.length

theorem Beside.mono {agrees' : Nat → Nat → Nat → Prop} (beside : Beside agrees slot other)
    (weaker : ∀ {index code code'}, agrees index code code' → agrees' index code code') :
    Beside agrees' slot other := by
  cases beside with
  | same slot => exact .same slot
  | text beside =>
    exact .text ⟨beside.length, fun found found' => weaker (beside.each found found')⟩

theorem store_widened (page : CodePage) {content : Content .narrow} (ascii : content.IsAscii)
    (slot : Slot) : Slot.store page content.widened slot = Slot.store page content slot := by
  cases slot with
  | buffer w old =>
    cases content with
    | word value | decimal number => rfl
    | text units | terminated units | cut units =>
      simp only [Content.widened, Slot.store, Text.convert_widened page w ascii]
  | integer type value | float format bits | capacity count => cases content <;> rfl

theorem Beside.store (refl : ∀ index code, agrees index code code)
    (beside : Beside agrees slot other) (page : CodePage) {content : Content .narrow}
    (ascii : content.IsAscii) :
    Beside agrees (Slot.store page content slot) (Slot.store page content.widened other) := by
  rw [store_widened page ascii]
  cases beside with
  | same slot => exact .same _
  | @text a b old old' beside =>
    have alike {units : Text .narrow} (ascii : units.IsAscii) :
        Text.codes (units.map (CodeUnit.convert page b)) =
          Text.codes (units.map (CodeUnit.convert page a)) :=
      (Text.codes_convert page b ascii).trans (Text.codes_convert page a ascii).symm
    cases content with
    | word value | decimal number => exact .text beside
    | text units => exact .text (overwrite_beside refl (alike ascii) beside)
    | terminated units =>
      have ended : Text.codes (units.map (CodeUnit.convert page b) ++ [.nul]) =
          Text.codes (units.map (CodeUnit.convert page a) ++ [.nul]) := by
        rw [Text.codes_append, Text.codes_append, alike ascii]
        rfl
      exact .text (overwrite_beside refl ended beside)
    | cut units =>
      have full := overwrite_beside refl (alike ascii) beside
      exact .text (overwrite_beside refl rfl full)

def holding : Slot → Slot ⊕ List Nat
  | buffer _ units => .inr units.codes
  | slot => .inl slot

/-- The slot up to what a buffer holds and how wide that is. -/
def outline : Slot → Slot ⊕ Nat
  | buffer _ units => .inr units.length
  | slot => .inl slot

theorem beside_iff_holding :
    Beside (fun _ code code' => code' = code) slot other ↔ other.holding = slot.holding := by
  constructor
  · intro beside
    cases beside with
    | same slot => rfl
    | text beside => exact congrArg Sum.inr (Text.beside_iff_codes.mp beside)
  · intro alike
    cases slot with
    | buffer w units =>
      cases other with
      | buffer w' units' => exact .text (Text.beside_iff_codes.mpr (Sum.inr.inj alike))
      | integer type value | float format bits | capacity count => cases alike
    | integer type value | float format bits | capacity count =>
      cases other <;> cases alike
      exact .same _

theorem beside_iff_outline :
    Beside (fun _ _ _ => True) slot other ↔ other.outline = slot.outline := by
  constructor
  · intro beside
    cases beside with
    | same slot => rfl
    | text beside => exact congrArg Sum.inr beside.length
  · intro alike
    cases slot with
    | buffer w units =>
      cases other with
      | buffer w' units' => exact .text ⟨Sum.inr.inj alike, fun _ _ => trivial⟩
      | integer type value | float format bits | capacity count => cases alike
    | integer type value | float format bits | capacity count =>
      cases other <;> cases alike
      exact .same _

end Slot

structure SlotsBeside (agrees : Nat → Nat → Nat → Nat → Prop) (slots others : List Slot) :
    Prop where
  length : others.length = slots.length
  each : ∀ {place slot other}, slots[place]? = some slot → others[place]? = some other →
    Slot.Beside (agrees place) slot other

namespace SlotsBeside

variable {agrees agrees' : Nat → Nat → Nat → Nat → Prop} {slots others : List Slot}

theorem mono (beside : SlotsBeside agrees slots others)
    (weaker : ∀ {place index code code'}, agrees place index code code' →
      agrees' place index code code') : SlotsBeside agrees' slots others :=
  ⟨beside.length, fun found found' => (beside.each found found').mono weaker⟩

theorem lookup (beside : SlotsBeside agrees slots others) (place : Nat) :
    (slots[place]? = none ∧ others[place]? = none) ∨
      ∃ slot other, slots[place]? = some slot ∧ others[place]? = some other ∧
        Slot.Beside (agrees place) slot other := by
  have length := beside.length
  by_cases inside : place < slots.length
  · have inside' : place < others.length := by omega
    have found : slots[place]? = some slots[place] := List.getElem?_eq_getElem inside
    have found' : others[place]? = some others[place] := List.getElem?_eq_getElem inside'
    exact .inr ⟨_, _, found, found', beside.each found found'⟩
  · have outside : slots[place]? = none := List.getElem?_eq_none (by omega)
    have outside' : others[place]? = none := List.getElem?_eq_none (by omega)
    exact .inl ⟨outside, outside'⟩

theorem modify (beside : SlotsBeside agrees slots others) {place : Nat}
    {change change' : Slot → Slot}
    (kept : ∀ {slot other}, Slot.Beside (agrees place) slot other →
      Slot.Beside (agrees place) (change slot) (change' other)) :
    SlotsBeside agrees (slots.modify place change) (others.modify place change') where
  length := by rw [List.length_modify, List.length_modify, beside.length]
  each := by
    intro position slot other found found'
    by_cases here : place = position
    · subst here
      rw [List.getElem?_modify_eq] at found found'
      obtain ⟨before, shown, rfl⟩ := Option.map_eq_some_iff.mp found
      obtain ⟨before', shown', rfl⟩ := Option.map_eq_some_iff.mp found'
      exact kept (beside.each shown shown')
    · rw [List.getElem?_modify_ne _ _ here] at found found'
      exact beside.each found found'

theorem iff_views {View : Type} {alike : Nat → Nat → Nat → Prop} {view : Slot → View}
    (same : ∀ {slot other}, Slot.Beside alike slot other ↔ view other = view slot) :
    SlotsBeside (fun _ => alike) slots others ↔ others.map view = slots.map view := by
  constructor
  · intro beside
    apply List.ext_getElem?
    intro place
    rw [List.getElem?_map, List.getElem?_map]
    rcases beside.lookup place with ⟨found, found'⟩ | ⟨slot, other, found, found', both⟩
    · rw [found, found', Option.map_none]
    · rw [found, found']
      exact congrArg some (same.mp both)
  · intro views
    refine ⟨by simpa using congrArg List.length views, ?_⟩
    intro place slot other found found'
    have here := congrArg (·[place]?) views
    simp only [List.getElem?_map, found, found', Option.map_some] at here
    exact same.mpr (Option.some.inj here)

theorem iff_holdings : SlotsBeside (fun _ _ code code' => code' = code) slots others ↔
    others.map Slot.holding = slots.map Slot.holding := iff_views Slot.beside_iff_holding

theorem of_outlines (shaped : others.map Slot.outline = slots.map Slot.outline) :
    SlotsBeside (fun _ _ _ _ => True) slots others := (iff_views Slot.beside_iff_outline).mpr shaped

end SlotsBeside

structure Arguments.Beside (agrees : Nat → Nat → Nat → Nat → Prop) (arguments others : Arguments) :
    Prop where
  taken : others.taken = arguments.taken
  slots : SlotsBeside agrees arguments.slots others.slots

namespace Arguments.Beside

variable {agrees : Nat → Nat → Nat → Nat → Prop} {arguments others : Arguments}

theorem next (beside : Beside agrees arguments others) :
    (arguments.next = (none, arguments) ∧ others.next = (none, others)) ∨
      ∃ slot other after after', arguments.next = (some slot, after) ∧
        others.next = (some other, after') ∧ arguments.slots[arguments.taken]? = some slot ∧
        others.slots[arguments.taken]? = some other ∧
        Slot.Beside (agrees arguments.taken) slot other ∧ Beside agrees after after' := by
  unfold Arguments.next
  rw [beside.taken]
  rcases beside.slots.lookup arguments.taken with ⟨found, found'⟩ |
    ⟨slot, other, found, found', alike⟩
  · rw [found, found']
    exact .inl ⟨rfl, rfl⟩
  · rw [found, found']
    exact .inr ⟨slot, other, _, _, rfl, rfl, rfl, rfl, alike, rfl, beside.slots⟩

theorem takeCapacity (beside : Beside agrees arguments others) (index : Nat) :
    Carried id (Beside agrees) (Policy.takeCapacity index arguments)
      (Policy.takeCapacity index others) := by
  unfold Policy.takeCapacity
  rcases beside.next with ⟨next, next'⟩ | ⟨slot, other, after, after', next, next', -, -, alike,
    further⟩
  · rw [next, next']
    exact ⟨rfl, beside⟩
  · rw [next, next']
    cases alike with
    | same slot =>
      cases slot with
      | capacity count => cases count <;> exact ⟨rfl, further⟩
      | integer type value | float format bits | buffer w units => exact ⟨rfl, further⟩
    | text units => exact ⟨rfl, further⟩

theorem roomFor (beside : Beside agrees arguments others) (policy : Policy) (index : Nat)
    (kind : ConversionKind) {slot other : Slot} (size : other.size = slot.size) :
    Carried id (Beside agrees) (policy.roomFor index kind slot arguments)
      (policy.roomFor index kind other others) := by
  cases paired : policy.pairsCapacity kind with
  | false =>
    rw [Policy.roomFor_alone paired, Policy.roomFor_alone paired, size]
    exact ⟨rfl, beside⟩
  | true =>
    obtain ⟨taken, further⟩ := beside.takeCapacity index
    rw [Policy.roomFor_capacity paired, Policy.roomFor_capacity paired, size, taken]
    exact ⟨rfl, further⟩

end Arguments.Beside

end FormattedInput
