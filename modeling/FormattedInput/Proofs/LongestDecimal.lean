import FormattedInput.Proofs.SpelledDecimal

namespace FormattedInput

variable {w : Width}

/-- A text cut behind its first digits, an optional point and the digits behind that. -/
structure DigitCut (point : Nat) (text whole : Text w) (separator : Option (CodeUnit w))
    (fraction rest : Text w) : Prop where
  split : text = whole ++ (separator.toList ++ (fraction ++ rest))
  whole : ∀ unit ∈ whole, unit.isDigit 10 = true
  ends : ∀ unit ∈ (separator.toList ++ (fraction ++ rest)).head?, unit.isDigit 10 = false
  separates : ∀ unit ∈ separator, unit.code = point
  unpointed : separator = none → fraction = [] ∧ ∀ unit ∈ rest.head?, unit.code ≠ point
  fraction : ∀ unit ∈ fraction, unit.isDigit 10 = true
  stops : ∀ unit ∈ rest.head?, unit.isDigit 10 = false

namespace DigitCut

variable {point number places : Nat} {text whole fraction rest digits exponent : Text w}
  {separator : Option (CodeUnit w)}

theorem rest_behind (cut : DigitCut point text whole separator fraction rest) :
    ((text.drop whole.length).drop separator.toList.length).drop fraction.length = rest := by
  rw [cut.split, List.drop_left, List.drop_left, List.drop_left]

theorem mantissa (cut : DigitCut point text whole separator fraction rest)
    (some_ : whole ++ fraction ≠ []) :
    Mantissa point (Text.value 10 (whole ++ fraction)) fraction.length
      (whole ++ (separator.toList ++ fraction)) := by
  have read := Positional.ofDigits some_ (List.forall_mem_append.mpr ⟨cut.whole, cut.fraction⟩)
  cases separator with
  | none =>
    obtain ⟨rfl, -⟩ := cut.unpointed rfl
    rw [Option.toList_none, List.nil_append, List.append_nil]
    rw [List.append_nil] at read
    exact .plain read
  | some unit => exact .pointed read (cut.separates unit rfl)

section Covers

variable (cut : DigitCut point text whole separator fraction rest)
  (proper : Decimal.IsPoint point)
  (marks : ∀ unit ∈ exponent.head?, (unit.is 'e' || unit.is 'E') = true)
include cut proper marks

theorem covers_plain (read : Positional 10 number digits) (begins : digits ++ exponent <+: text) :
    (exponent = [] ∧ digits <+: whole ++ (separator.toList ++ fraction)) ∨
      digits = whole ++ (separator.toList ++ fraction) ∧ exponent <+: rest := by
  have ends : ∀ unit ∈ exponent.head?, unit.isDigit 10 = false :=
    fun unit first => CodeUnit.isDigit_exponent (marks unit first)
  rw [cut.split] at begins
  rcases Text.run_split read.isDigit ends cut.whole cut.ends begins with
    ⟨none, inside⟩ | ⟨rfl, further⟩
  · exact .inl ⟨none, inside.trans (List.prefix_append _ _)⟩
  · cases separator with
    | none =>
      obtain ⟨rfl, -⟩ := cut.unpointed rfl
      exact .inr ⟨(List.append_nil _).symm, further⟩
    | some unit =>
      cases exponent with
      | nil => exact .inl ⟨rfl, List.prefix_append _ _⟩
      | cons marker exponent =>
        -- The marker would be the point that was found here.
        obtain ⟨rfl, -⟩ := List.cons_prefix_cons.mp further
        have apart := proper.exponent (marks marker rfl)
        exact absurd (cut.separates marker rfl) (beq_eq_false_iff_ne.mp apart)

theorem covers_pointed {front behind : Text w} {period : CodeUnit w}
    (first : ∀ unit ∈ front, unit.isDigit 10 = true)
    (second : ∀ unit ∈ behind, unit.isDigit 10 = true) (separates : period.code = point)
    (begins : front ++ period :: (behind ++ exponent) <+: text) :
    (exponent = [] ∧ front ++ period :: behind <+: whole ++ (separator.toList ++ fraction)) ∨
      front ++ period :: behind = whole ++ (separator.toList ++ fraction) ∧ exponent <+: rest := by
  have ends : ∀ unit ∈ exponent.head?, unit.isDigit 10 = false :=
    fun unit first => CodeUnit.isDigit_exponent (marks unit first)
  have here : ∀ unit ∈ (period :: (behind ++ exponent)).head?, unit.isDigit 10 = false := by
    rintro unit ⟨⟩
    exact proper.isDigit separates
  rw [cut.split] at begins
  rcases Text.run_split first here cut.whole cut.ends begins with ⟨none, -⟩ | ⟨rfl, further⟩
  · cases none
  · cases separator with
    | none =>
      obtain ⟨rfl, apart⟩ := cut.unpointed rfl
      obtain ⟨left, rfl⟩ := further
      exact absurd separates (apart period rfl)
    | some unit =>
      obtain ⟨rfl, later⟩ := List.cons_prefix_cons.mp further
      rcases Text.run_split second ends cut.fraction cut.stops later with
        ⟨none, inside⟩ | ⟨rfl, left⟩
      · left
        refine ⟨none, (List.prefix_append_right_inj _).mpr ?_⟩
        exact List.cons_prefix_cons.mpr ⟨rfl, inside⟩
      · exact .inr ⟨rfl, left⟩

/-- Another mantissa ends within the digits of the cut, or it is all of them. -/
theorem covers (mantissa : Mantissa point number places digits)
    (begins : digits ++ exponent <+: text) :
    (exponent = [] ∧ digits <+: whole ++ (separator.toList ++ fraction)) ∨
      digits = whole ++ (separator.toList ++ fraction) ∧ exponent <+: rest := by
  cases mantissa with
  | plain read => exact cut.covers_plain proper marks read begins
  | pointed read separates =>
    obtain ⟨first, second⟩ := List.forall_mem_append.mp read.isDigit
    rw [List.append_assoc, List.cons_append] at begins
    exact cut.covers_pointed proper marks first second separates begins

end Covers

end DigitCut

namespace Field

theorem takeFraction_cut (point : Nat) (field : Field (TextSource w)) :
    ∃ (whole fraction rest : Text w) (separator : Option (CodeUnit w)),
      DigitCut point field.rest whole separator fraction rest ∧
      field.takeWhile (CodeUnit.isDigit 10) = (whole, field.advance whole.length) ∧
      (field.advance whole.length).takeFraction point = ((separator, fraction),
        ((field.advance whole.length).advance separator.toList.length).advance fraction.length) := by
  let whole := field.rest.takeWhile (CodeUnit.isDigit 10)
  have parts : whole ++ field.rest.dropWhile (CodeUnit.isDigit 10) = field.rest :=
    List.takeWhile_append_dropWhile
  have behind : (field.advance whole.length).rest = field.rest.dropWhile (CodeUnit.isDigit 10) :=
    rest_behind parts.symm
  have ends := Text.dropWhile_stops (CodeUnit.isDigit 10) field.rest
  have digits : ∀ unit ∈ whole, unit.isDigit 10 = true := fun _ => List.mem_takeWhile_imp
  obtain ⟨separator, left, shown, separates, apart, took⟩ :=
    takeIf_split (fun unit => unit.code == point) (field.advance whole.length)
  rw [← behind, shown] at parts ends
  cases separator with
  | none =>
    refine ⟨whole, [], left, none, ?_, takeWhile_text _ _, ?_⟩
    · exact ⟨parts.symm, digits, ends, fun unit taken => absurd taken (Option.not_mem_none unit),
        fun _ => ⟨rfl, fun unit first => beq_eq_false_iff_ne.mp (apart rfl unit first)⟩,
        List.forall_mem_nil _, ends⟩
    · rw [takeFraction, took]
      simp
  | some unit =>
    have there : ((field.advance whole.length).advance 1).rest = left := rest_behind shown
    refine ⟨whole, left.takeWhile (CodeUnit.isDigit 10), left.dropWhile (CodeUnit.isDigit 10),
      some unit, ?_, takeWhile_text _ _, ?_⟩
    · refine ⟨?_, digits, ends, fun other same => beq_iff_eq.mp (separates other same),
        fun none => absurd none (Option.some_ne_none unit), fun _ => List.mem_takeWhile_imp,
        Text.dropWhile_stops _ left⟩
      rw [List.takeWhile_append_dropWhile]
      exact parts.symm
    · rw [takeFraction, took]
      simp only [Option.toList_some, List.length_singleton, takeWhile_text, there]

end Field

namespace Scale

variable {text left front : Text w} {power : Int}

theorem longest_present {marker : CodeUnit w}
    (marks : (marker.is 'e' || marker.is 'E') = true)
    (longest : left.Longest (IntegerBase.fixed 10).Language front)
    (denotes : (IntegerBase.fixed 10).Denotes power front) :
    Text.Longest (fun text => ∃ power, Scale power text) (marker :: left) (marker :: front) where
  begins := List.cons_prefix_cons.mpr ⟨rfl, longest.begins⟩
  member := ⟨power, .present marks denotes⟩
  most := by
    rintro other begins ⟨value, scale⟩
    cases scale with
    | absent => exact Nat.zero_le _
    | present marks denotes =>
      obtain ⟨-, inside⟩ := List.cons_prefix_cons.mp begins
      exact Nat.succ_le_succ (longest.most _ inside ⟨value, denotes⟩)

theorem longest_absent (never : ∀ marker left, text = marker :: left →
      (marker.is 'e' || marker.is 'E') = true →
        ∀ front, front <+: left → ¬ (IntegerBase.fixed 10).Language front) :
    text.Longest (fun text => ∃ power, Scale power text) [] where
  begins := List.nil_prefix
  member := ⟨0, .absent⟩
  most := by
    rintro other begins ⟨value, scale⟩
    cases scale with
    | absent => exact Nat.le_refl _
    | present marks denotes =>
      obtain ⟨behind, rfl⟩ := begins
      exact absurd ⟨value, denotes⟩ (never _ _ rfl marks _ (List.prefix_append _ behind))

end Scale

namespace IntegerBase

variable {sign : Option (CodeUnit w)} {text : Text w}

theorem longest_ten (signs : ∀ unit ∈ sign, unit.isSign = true)
    (unsigned : sign = none → ∀ unit ∈ text.head?, unit.isSign = false)
    (some_ : text.takeWhile (CodeUnit.isDigit 10) ≠ []) :
    Text.Longest (IntegerBase.fixed 10).Language (sign.toList ++ text)
        (sign.toList ++ text.takeWhile (CodeUnit.isDigit 10)) ∧
      (IntegerBase.fixed 10).Denotes
        (signed sign (Text.value 10 (text.takeWhile (CodeUnit.isDigit 10))))
        (sign.toList ++ text.takeWhile (CodeUnit.isDigit 10)) := by
  obtain ⟨longest, magnitude⟩ := longest_positional
    (fun front begins number => magnitude_ten) some_
  exact longest_signed signs unsigned longest magnitude

theorem never_ten (signs : ∀ unit ∈ sign, unit.isSign = true)
    (unsigned : sign = none → ∀ unit ∈ text.head?, unit.isSign = false)
    (none : text.takeWhile (CodeUnit.isDigit 10) = []) :
    ∀ front, front <+: sign.toList ++ text → ¬ (IntegerBase.fixed 10).Language front := by
  rintro front begins ⟨value, denotes⟩
  obtain ⟨rest, number, rfl, magnitude, -⟩ := (denotes_signed signs unsigned begins).mp denotes
  have read := magnitude_ten.mp magnitude
  have run := Text.run_begins read.isDigit ((List.prefix_append_right_inj _).mp begins)
  exact read.ne_nil (List.prefix_nil.mp (none ▸ run))

end IntegerBase

theorem Counted.putBack?_both {input : Counted (TextSource w)} {first second : Option (CodeUnit w)}
    {rest : Text w} (seen : first.toList ++ (second.toList ++ rest) <+: input.rest) :
    (((input.advance first.toList.length).advance second.toList.length).putBack? second).putBack?
      first = input := by
  have front : first.toList <+: input.rest := (List.prefix_append _ _).trans seen
  have behind : second.toList <+: (input.advance first.toList.length).rest := by
    obtain ⟨left, whole⟩ := seen
    rw [rest_advance, ← whole, List.append_assoc, List.drop_left, List.append_assoc]
    exact List.prefix_append _ _
  rw [putBack?_taken behind, putBack?_taken front]

namespace Field

/-- Of the powers of ten that may stand here the longest is taken, or none if there is none. -/
theorem takeExponent_longest (field : Field (TextSource w)) :
    ∃ front, field.rest.Longest (fun text => ∃ power, Scale power text) front ∧
      Scale (signed field.takeExponent.1.1 (field.takeExponent.1.2.value 10)) front ∧
      field.takeExponent.2.input = field.input.advance front.length := by
  have nothing : signed (none : Option (CodeUnit w)) (Text.value 10 ([] : Text w)) = 0 := rfl
  obtain ⟨marker, left, shown, marks, unmarked, took⟩ :=
    takeIf_split (fun unit => unit.is 'e' || unit.is 'E') field
  rw [takeExponent, took]
  cases marker with
  | none =>
    refine ⟨[], Scale.longest_absent ?_, nothing ▸ .absent, rfl⟩
    intro marker behind whole marks
    rw [shown] at whole
    obtain rfl : left = marker :: behind := whole
    have bare := unmarked rfl marker rfl
    rw [marks] at bare
    cases bare
  | some marker =>
    have behind : (field.advance 1).rest = left := rest_behind shown
    obtain ⟨sign, body, split, signs, unsigned, took⟩ :=
      takeIf_split CodeUnit.isSign (field.advance 1)
    have digits : ((field.advance 1).advance sign.toList.length).rest = body := rest_behind split
    rw [behind] at split
    subst split
    simp only [Option.toList_some, List.length_singleton, takeSign, took, takeWhile_text, digits]
    by_cases none : body.takeWhile (CodeUnit.isDigit 10) = []
    · -- The marker was none: no integer stands behind it, so the empty power is the longest.
      have seen : (some marker).toList ++ (sign.toList ++ body) <+: field.input.rest :=
        shown ▸ field.rest_begins
      have returned := Counted.putBack?_both seen
      simp only [none, List.isEmpty_nil, if_true, List.length_nil, advance_zero]
      refine ⟨[], Scale.longest_absent ?_, nothing ▸ .absent, returned⟩
      rintro other following whole -
      rw [shown] at whole
      obtain ⟨-, rfl⟩ := List.cons.inj whole
      exact IntegerBase.never_ten signs unsigned none
    · rw [if_neg (mt List.isEmpty_iff.mp none)]
      have marks := marks marker rfl
      obtain ⟨longest, denotes⟩ := IntegerBase.longest_ten signs unsigned none
      refine ⟨_, shown ▸ Scale.longest_present marks longest denotes, .present marks denotes, ?_⟩
      simp only [input_advance, Counted.advance_advance, List.length_cons, List.length_append]
      congr 1
      omega

end Field

namespace Mantissa

theorem some_digit {point number places : Nat} {text : Text w}
    (mantissa : Mantissa point number places text) : ∃ unit ∈ text, unit.isDigit 10 = true := by
  cases mantissa with
  | plain read =>
    obtain ⟨unit, inside⟩ := List.exists_mem_of_ne_nil _ read.ne_nil
    exact ⟨unit, inside, read.isDigit unit inside⟩
  | @pointed whole fraction separator read separates =>
    obtain ⟨unit, inside⟩ := List.exists_mem_of_ne_nil _ read.ne_nil
    refine ⟨unit, ?_, read.isDigit unit inside⟩
    rw [List.mem_append] at inside ⊢
    exact inside.imp_right (List.mem_cons_of_mem separator)

end Mantissa

namespace Decimal

variable {point : Nat} {number : Decimal} {text front : Text w} {sign : Option (CodeUnit w)}

section Signed

variable (proper : IsPoint point) (signs : ∀ unit ∈ sign, unit.isSign = true)
  (unsigned : sign = none → ∀ unit ∈ text.head?, unit.isSign = false)
include proper signs unsigned

theorem Spells.behind (spells : Spells point number front)
    (begins : front <+: sign.toList ++ text) :
    ∃ (coefficient places : Nat) (power : Int) (digits exponent : Text w),
      Mantissa point coefficient places digits ∧ Scale power exponent ∧
      front = sign.toList ++ (digits ++ exponent) ∧ digits ++ exponent <+: text := by
  cases spells with
  | @number other coefficient places power digits exponent same mantissa scale =>
    have some_ : digits ++ exponent ≠ [] :=
      List.append_ne_nil_of_left_ne_nil mantissa.ne_nil exponent
    have behind : ∀ unit ∈ (digits ++ exponent).head?, unit.isSign = false := fun unit first =>
      mantissa.unsigned proper unit (Text.head_front mantissa.ne_nil unit first)
    obtain ⟨rfl, inside⟩ := Text.mark_split signs unsigned same some_ behind begins
    exact ⟨coefficient, places, power, digits, exponent, mantissa, scale, rfl, inside⟩

variable {whole fraction rest exponent : Text w} {separator : Option (CodeUnit w)}
  (cut : DigitCut point text whole separator fraction rest)
include cut

theorem longest_number (some_ : whole ++ fraction ≠ [])
    (longest : rest.Longest (fun text => ∃ power, Scale power text) exponent) {power : Int}
    (scale : Scale power exponent) :
    Text.Longest (Language point) (sign.toList ++ text)
        (sign.toList ++ (whole ++ (separator.toList ++ fraction) ++ exponent)) ∧
      Spells point ⟨sign.any CodeUnit.isMinus, Text.value 10 (whole ++ fraction),
          power - fraction.length⟩
        (sign.toList ++ (whole ++ (separator.toList ++ fraction) ++ exponent)) := by
  have spells := Spells.number signs (cut.mantissa some_) scale
  refine ⟨⟨?_, ⟨_, spells⟩, ?_⟩, spells⟩
  · obtain ⟨left, same⟩ := longest.begins
    refine (List.prefix_append_right_inj _).mpr ⟨left, ?_⟩
    simp only [cut.split, ← same, List.append_assoc]
  · rintro other begins ⟨number, spells⟩
    obtain ⟨_, _, _, digits, tail, mantissa, scale, rfl, inside⟩ :=
      spells.behind proper signs unsigned begins
    rcases cut.covers proper scale.marks mantissa inside with ⟨rfl, within⟩ | ⟨rfl, further⟩
    · have shorter := within.length_le
      simp only [List.length_append] at shorter ⊢
      simp only [List.length_nil]
      omega
    · have shorter := longest.most tail further ⟨_, scale⟩
      simp only [List.length_append] at shorter ⊢
      omega

theorem never_number (none : whole ++ fraction = []) :
    ∀ front, front <+: sign.toList ++ text → ¬ Language point front := by
  rintro front begins ⟨number, spells⟩
  obtain ⟨_, _, _, digits, tail, mantissa, scale, rfl, inside⟩ :=
    spells.behind proper signs unsigned begins
  obtain ⟨rfl, rfl⟩ := List.append_eq_nil_iff.mp none
  obtain ⟨unit, there, digit⟩ := mantissa.some_digit
  have pointed : unit ∈ separator := by
    rcases cut.covers proper scale.marks mantissa inside with ⟨-, within⟩ | ⟨rfl, -⟩
    · simpa using within.subset there
    · simpa using there
  rw [proper.isDigit (cut.separates unit pointed)] at digit
  cases digit

end Signed

def respelledUnit (point : Nat) (unit : CodeUnit w) : Byte :=
  if unit.code = point then .ofNat .narrow '.'.toNat else unit.toByte

def respelled (point : Nat) (text : Text w) : Text .narrow := text.map (respelledUnit point)

end Decimal

namespace CodeUnit

variable {v : Width} {unit : CodeUnit w} {other : CodeUnit v}

theorem isMinus_code (same : other.code = unit.code) : other.isMinus = unit.isMinus := by
  rw [isMinus, isMinus, is, is, same]

theorem isSign_same (same : other.code = unit.code) : other.isSign = unit.isSign := by
  rw [isSign, isSign, isMinus_code same, is, is, same]

end CodeUnit

section Respelling

open Decimal (IsPoint respelled)

variable {point : Nat} {unit : CodeUnit w} {text : Text w} (proper : IsPoint point)
include proper

theorem Decimal.IsPoint.kept
    (kind : unit.isDigit 10 = true ∨ unit.isSign = true ∨
      (unit.is 'e' || unit.is 'E') = true) :
    (Decimal.respelledUnit point unit).code = unit.code := by
  have apart : unit.code ≠ point := by
    rcases kind with digit | sign | marker
    · exact proper.digit digit
    · intro separates
      rw [proper.isSign separates] at sign
      cases sign
    · exact beq_eq_false_iff_ne.mp (proper.exponent marker)
  have ascii : unit.code < 128 := by
    rcases kind with digit | sign | marker
    · exact (CodeUnit.isDigit_code digit).2
    · rw [CodeUnit.isSign, CodeUnit.isMinus, Bool.or_eq_true, CodeUnit.is, CodeUnit.is,
        beq_iff_eq, beq_iff_eq] at sign
      rcases sign with plus | minus
      · exact plus ▸ by decide
      · exact minus ▸ by decide
    · rw [Bool.or_eq_true, CodeUnit.is, CodeUnit.is, beq_iff_eq, beq_iff_eq] at marker
      rcases marker with lower | upper
      · exact lower ▸ by decide
      · exact upper ▸ by decide
  rw [Decimal.respelledUnit, if_neg apart]
  exact CodeUnit.code_ofNat (Nat.lt_trans ascii (by decide))

theorem Positional.respelled {number : Nat} (read : Positional 10 number text) :
    Positional 10 number (respelled point text) :=
  read.map fun unit inside => proper.kept (.inl (read.isDigit unit inside))

theorem Mantissa.respelled {number places : Nat} (mantissa : Mantissa point number places text) :
    Mantissa '.'.toNat number places (respelled point text) := by
  cases mantissa with
  | plain read => exact .plain (read.respelled proper)
  | @pointed whole fraction separator read separates =>
    have digits := read.respelled proper
    rw [Decimal.respelled, List.map_append] at digits
    have period : (Decimal.respelledUnit point separator).code = '.'.toNat := by
      rw [Decimal.respelledUnit, if_pos separates]
      rfl
    have mantissa := Mantissa.pointed digits period
    rwa [List.length_map, ← List.map_cons, ← List.map_append] at mantissa

theorem IntegerBase.Denotes.respelled {power : Int}
    (denotes : (IntegerBase.fixed 10).Denotes power text) :
    (IntegerBase.fixed 10).Denotes power (respelled point text) := by
  have behind {number : Nat} {text : Text w}
      (magnitude : (IntegerBase.fixed 10).Magnitude number text) :
      (IntegerBase.fixed 10).Magnitude number (Decimal.respelled point text) :=
    magnitude_ten.mpr ((magnitude_ten.mp magnitude).respelled proper)
  cases denotes with
  | unsigned magnitude => exact .unsigned (behind magnitude)
  | plus positive magnitude =>
    have same := proper.kept (.inr (.inl (Bool.or_eq_true_iff.mpr (.inl positive))))
    exact .plus ((congrArg (· == '+'.toNat) same).trans positive) (behind magnitude)
  | minus negative magnitude =>
    have same := proper.kept (.inr (.inl (Bool.or_eq_true_iff.mpr (.inr negative))))
    exact .minus ((congrArg (· == '-'.toNat) same).trans negative) (behind magnitude)

theorem Scale.respelled {power : Int} (scale : Scale power text) :
    Scale power (respelled point text) := by
  cases scale with
  | absent => exact .absent
  | present marks denotes =>
    have same := proper.kept (.inr (.inr marks))
    refine .present ?_ (denotes.respelled proper)
    rw [CodeUnit.is, CodeUnit.is, same]
    exact marks

theorem Decimal.Spells.respelled {number : Decimal} (spells : Decimal.Spells point number text) :
    Decimal.Spells '.'.toNat number (respelled point text) := by
  cases spells with
  | @number sign coefficient places power digits exponent signs mantissa scale =>
    obtain ⟨other, spelled, again, minus⟩ : ∃ other : Option Byte,
        Decimal.respelled point sign.toList = other.toList ∧
          (∀ unit ∈ other, unit.isSign = true) ∧
          other.any CodeUnit.isMinus = sign.any CodeUnit.isMinus := by
      cases sign with
      | none => exact ⟨none, rfl, nofun, rfl⟩
      | some unit =>
        have same := proper.kept (.inr (.inl (signs unit rfl)))
        refine ⟨some _, rfl, ?_, CodeUnit.isMinus_code same⟩
        rintro other ⟨⟩
        exact (CodeUnit.isSign_same same).trans (signs unit rfl)
    have whole := Decimal.Spells.number again (mantissa.respelled proper) (scale.respelled proper)
    rw [minus, ← spelled] at whole
    simpa only [Decimal.respelled, List.map_append] using whole

end Respelling

namespace Counted

variable {point : Nat} {width : Option Nat} {input : Counted (TextSource w)}

/-- The longest beginning that spells a number is read, as the number that a parser makes of it
once its point is a period. -/
def ReadsLongestDecimal (point : Nat) (width : Option Nat) (input : Counted (TextSource w)) :
    Prop :=
  ∃ (front : Text w) (number : Decimal),
    (Text.upTo width input.rest).Longest (Decimal.Language point) front ∧
    Decimal.parse? (Decimal.respelled point front) = some number ∧
    input.takeDecimal point width = (.ok number, input.advance front.length)

/-- Nothing in sight spells a number, and nothing is consumed. -/
def ReadsNoDecimal (point : Nat) (width : Option Nat) (input : Counted (TextSource w)) : Prop :=
  (∀ front, front <+: Text.upTo width input.rest → ¬ Decimal.Language point front) ∧
    input.takeDecimal point width =
      (.error (if input.rest = [] then .inputExhausted input.consumed
        else .mismatch input.consumed), input)

theorem reads_decimal (proper : Decimal.IsPoint point) (width : Option Nat)
    (input : Counted (TextSource w)) :
    input.ReadsLongestDecimal point width ∨ input.ReadsNoDecimal point width := by
  obtain ⟨sign, text, split, signs, unsigned, took⟩ :=
    Field.takeIf_split CodeUnit.isSign (⟨input, width⟩ : Field (TextSource w))
  have split : Text.upTo width input.rest = sign.toList ++ text := split
  have behind : (Field.advance sign.toList.length ⟨input, width⟩).rest = text :=
    Field.rest_behind split
  obtain ⟨whole, fraction, rest, separator, cut, digits, pointed⟩ :=
    Field.takeFraction_cut point (Field.advance sign.toList.length ⟨input, width⟩)
  rw [behind] at cut
  have seen : sign.toList ++ text <+: input.rest := split ▸ Text.upTo_begins width input.rest
  rw [ReadsLongestDecimal, ReadsNoDecimal, takeDecimal, split]
  simp only [Field.takeSign, took, digits, pointed]
  -- A number needs a digit on one side of the point.
  by_cases none : whole ++ fraction = []
  · right
    refine ⟨Decimal.never_number proper signs unsigned cut none, ?_⟩
    obtain ⟨rfl, rfl⟩ := List.append_eq_nil_iff.mp none
    rw [cut.split] at seen
    have returned := putBack?_both seen
    simp only [List.isEmpty_nil, Bool.and_self, if_true, List.length_nil, Field.advance_zero,
      Field.input_advance, returned, fail_text, unmatched_text]
  · left
    have going : ¬ (whole.isEmpty && fraction.isEmpty) = true := by
      rw [Bool.and_eq_true, List.isEmpty_iff, List.isEmpty_iff]
      exact fun both => none (List.append_eq_nil_iff.mpr both)
    rw [if_neg going]
    obtain ⟨exponent, longest, scale, moved⟩ :=
      (((Field.advance sign.toList.length ⟨input, width⟩).advance whole.length).advance
        separator.toList.length |>.advance fraction.length).takeExponent_longest
    simp only [Field.rest_advance, behind, cut.rest_behind] at longest
    obtain ⟨longest, spells⟩ :=
      Decimal.longest_number proper signs unsigned cut none longest scale
    refine ⟨_, _, longest, Decimal.parse?_iff.mpr (spells.respelled proper), ?_⟩
    rw [moved]
    simp only [Field.input_advance, advance_advance, List.length_append, Nat.add_assoc]
    rfl

/-- A decimal number is read as the longest beginning that spells one, if its point is no other
part of a number; if there is none, nothing is consumed. Whatever the point and the source, what
is handed on to be parsed spells a number, so that parsing it cannot fail. -/
theorem longest_decimal_taken (point : Nat) (width : Option Nat) :
    (Decimal.IsPoint point → ∀ input : Counted (TextSource w),
        input.ReadsLongestDecimal point width ∨ input.ReadsNoDecimal point width) ∧
      ∀ (σ : Type) [UnitSource σ w] (input : Counted σ),
        input.takeDecimal point width = input.takeParsed point width ∧
        ∀ span after, input.takeSpelling point width = (.ok span, after) →
          Decimal.Language '.'.toNat span ∧ (Decimal.parse? span).isSome = true := by
  refine ⟨fun proper input => reads_decimal proper width input, ?_⟩
  intro σ _ input
  refine ⟨(input.takeParsed_eq point width).symm, ?_⟩
  intro span after handed
  rcases input.takeSpelling_cases point width with
    ⟨pointed, pieces, left, legible, spelled, -⟩ | ⟨halt, left, failed, -⟩
  · rw [spelled] at handed
    cases handed
    have spells := FloatSpan.spells legible
    exact ⟨⟨_, spells⟩, Option.isSome_iff_exists.mpr ⟨_, Decimal.parse?_iff.mpr spells⟩⟩
  · rw [failed] at handed
    cases handed

/-- A comma separates the fraction, and a marker without a digit is left with its sign. -/
theorem comma_number_taken :
    let input : Counted (TextSource .narrow) :=
      ⟨TextSource.ofText (Text.ofString .narrow "-3,25e+x"), 0⟩
    Decimal.IsPoint ','.toNat ∧ input.ReadsLongestDecimal ','.toNat none ∧
      input.takeDecimal ','.toNat none = (.ok ⟨true, 325, -2⟩, input.advance 5) := by
  intro input
  have proper : Decimal.IsPoint ','.toNat :=
    { digitless := by decide
      unsigned := by decide
      unmarked := by decide }
  have taken : input.takeDecimal ','.toNat none = (.ok ⟨true, 325, -2⟩, input.advance 5) := by
    decide +kernel
  refine ⟨proper, ?_, taken⟩
  apply ((longest_decimal_taken ','.toNat none).1 proper input).resolve_right
  rintro ⟨-, failed⟩
  rw [taken] at failed
  cases failed

end Counted

end FormattedInput
