import FormattedInput.Proofs.LongestInteger
import FormattedInput.Scan.Spelling

namespace FormattedInput

variable {w : Width}

/-- Digits with or without a point, as one number and how many of its places are behind the
point. -/
inductive Mantissa (point : Nat) : Nat → Nat → Text w → Prop where
  | plain {number : Nat} {digits : Text w} (read : Positional 10 number digits) :
    Mantissa point number 0 digits
  | pointed {number : Nat} {whole fraction : Text w} {separator : CodeUnit w}
    (read : Positional 10 number (whole ++ fraction)) (separates : separator.code = point) :
    Mantissa point number fraction.length (whole ++ separator :: fraction)

inductive Scale : Int → Text w → Prop where
  | absent : Scale 0 []
  | present {marker : CodeUnit w} {power : Int} {text : Text w}
    (marks : (marker.is 'e' || marker.is 'E') = true)
    (denotes : (IntegerBase.fixed 10).Denotes power text) : Scale power (marker :: text)

namespace Decimal

inductive Spells (point : Nat) : Decimal → Text w → Prop where
  | number {sign : Option (CodeUnit w)} {coefficient places : Nat} {power : Int}
    {digits exponent : Text w} (signs : ∀ unit ∈ sign, unit.isSign = true)
    (mantissa : Mantissa point coefficient places digits) (scale : Scale power exponent) :
    Spells point ⟨sign.any CodeUnit.isMinus, coefficient, power - places⟩
      (sign.toList ++ (digits ++ exponent))

def Language (point : Nat) (text : Text w) : Prop := ∃ number, Spells point number text

/-- A point that no other part of a number contains. -/
structure IsPoint (point : Nat) : Prop where
  digitless : ¬ ('0'.toNat ≤ point ∧ point ≤ '9'.toNat)
  unsigned : point ≠ '+'.toNat ∧ point ≠ '-'.toNat
  unmarked : point ≠ 'e'.toNat ∧ point ≠ 'E'.toNat

end Decimal

namespace CodeUnit

variable {unit : CodeUnit w}

theorem isDigit_ten : unit.isDigit 10 = true ↔ '0'.toNat ≤ unit.code ∧ unit.code ≤ '9'.toNat := by
  have zero : '0'.toNat = 48 := rfl
  have nine : '9'.toNat = 57 := rfl
  rw [isDigit_iff]
  constructor
  · rintro ⟨digit, read⟩
    cases read <;> omega
  · rintro ⟨least, most⟩
    exact ⟨unit.code - '0'.toNat, .figure (by omega) (by omega) (by omega)⟩

theorem isDigit_exponent (marks : (unit.is 'e' || unit.is 'E') = true) :
    unit.isDigit 10 = false := by
  rw [Bool.or_eq_true, is, is, beq_iff_eq, beq_iff_eq] at marks
  apply Bool.eq_false_iff.mpr
  intro digit
  have range := isDigit_ten.mp digit
  rcases marks with lower | upper
  · rw [lower] at range
    exact absurd range (by decide)
  · rw [upper] at range
    exact absurd range (by decide)

end CodeUnit

namespace Decimal.IsPoint

variable {point : Nat} {unit : CodeUnit w}

theorem isDigit (proper : IsPoint point) (separates : unit.code = point) :
    unit.isDigit 10 = false := by
  apply Bool.eq_false_iff.mpr
  intro digit
  exact proper.digitless (separates ▸ CodeUnit.isDigit_ten.mp digit)

theorem isSign (proper : IsPoint point) (separates : unit.code = point) :
    unit.isSign = false := by
  have plus : unit.is '+' = false := beq_eq_false_iff_ne.mpr (separates ▸ proper.unsigned.1)
  have minus : unit.is '-' = false := beq_eq_false_iff_ne.mpr (separates ▸ proper.unsigned.2)
  rw [CodeUnit.isSign, CodeUnit.isMinus, plus, minus, Bool.or_self]

theorem exponent (proper : IsPoint point) (marks : (unit.is 'e' || unit.is 'E') = true) :
    (unit.code == point) = false := by
  rw [Bool.or_eq_true, CodeUnit.is, CodeUnit.is, beq_iff_eq, beq_iff_eq] at marks
  apply beq_eq_false_iff_ne.mpr
  rcases marks with lower | upper
  · exact lower ▸ proper.unmarked.1.symm
  · exact upper ▸ proper.unmarked.2.symm

theorem digit (proper : IsPoint point) (digit : unit.isDigit 10 = true) : unit.code ≠ point := by
  intro separates
  rw [proper.isDigit separates] at digit
  cases digit

end Decimal.IsPoint

theorem Positional.map {v : Width} {base number : Nat} {text : Text w}
    (digits : Positional base number text) {change : CodeUnit w → CodeUnit v}
    (same : ∀ unit ∈ text, (change unit).code = unit.code) :
    Positional base number (text.map change) := by
  have read {unit : CodeUnit w} {digit : Nat} (kept : (change unit).code = unit.code)
      (stands : DigitOf base unit digit) : DigitOf base (change unit) digit := by
    cases stands with
    | figure inside below code => exact .figure inside below (kept.trans code)
    | capital inside below code => exact .capital inside below (kept.trans code)
    | small inside below code => exact .small inside below (kept.trans code)
  induction digits with
  | single stands => exact .single (read (same _ List.mem_cons_self) stands)
  | further digits stands ih =>
    obtain ⟨front, last⟩ := List.forall_mem_append.mp same
    rw [List.map_append]
    exact .further (ih front) (read (last _ List.mem_cons_self) stands)

namespace IntegerBase

theorem magnitude_ten {number : Nat} {text : Text w} :
    (IntegerBase.fixed 10).Magnitude number text ↔ Positional 10 number text := by
  constructor
  · intro magnitude
    cases magnitude with
    | fixed digits => exact digits
    | marked allowed first second digits =>
      rcases allowed with other | other <;> cases other
  · exact .fixed

end IntegerBase

namespace Mantissa

variable {point number places : Nat} {text : Text w}

theorem code (mantissa : Mantissa point number places text) :
    ∀ unit ∈ text, unit.isDigit 10 = true ∨ unit.code = point := by
  cases mantissa with
  | plain read => exact fun unit inside => .inl (read.isDigit unit inside)
  | pointed read separates =>
    obtain ⟨whole, fraction⟩ := List.forall_mem_append.mp read.isDigit
    rw [List.forall_mem_append, List.forall_mem_cons]
    exact ⟨fun unit inside => .inl (whole unit inside), .inr separates,
      fun unit inside => .inl (fraction unit inside)⟩

theorem ne_nil (mantissa : Mantissa point number places text) : text ≠ [] := by
  cases mantissa with
  | plain read => exact read.ne_nil
  | pointed read separates => simp

variable (proper : Decimal.IsPoint point)
include proper

theorem unsigned (mantissa : Mantissa point number places text) :
    ∀ unit ∈ text, unit.isSign = false := by
  intro unit inside
  rcases mantissa.code unit inside with digit | separates
  · exact CodeUnit.isSign_code (CodeUnit.isDigit_code digit).1
  · exact proper.isSign separates

theorem unmarked (mantissa : Mantissa point number places text) :
    ∀ unit ∈ text, (unit.is 'e' || unit.is 'E') = false := by
  intro unit inside
  apply Bool.eq_false_iff.mpr
  intro marks
  rcases mantissa.code unit inside with digit | separates
  · rw [CodeUnit.isDigit_exponent marks] at digit
    cases digit
  · exact absurd separates (beq_eq_false_iff_ne.mp (proper.exponent marks))

end Mantissa

theorem Scale.marks {power : Int} {text : Text w} (scale : Scale power text) :
    ∀ unit ∈ text.head?, (unit.is 'e' || unit.is 'E') = true := by
  cases scale with
  | absent => nofun
  | present marks denotes =>
    rintro unit ⟨⟩
    exact marks

namespace Decimal

variable {number : Decimal} {text : Text .narrow}

theorem cutSign_split (text : Text .narrow) :
    text = (cutSign text).1.toList ++ (cutSign text).2 ∧
      (∀ unit ∈ (cutSign text).1, unit.isSign = true) ∧
      ((cutSign text).1 = none → ∀ unit ∈ (cutSign text).2.head?, unit.isSign = false) := by
  unfold cutSign
  cases text with
  | nil => exact ⟨rfl, nofun, fun _ => nofun⟩
  | cons unit text =>
    cases signs : unit.isSign with
    | true =>
      refine ⟨by simp [signs], ?_, by simp [signs]⟩
      simp [signs]
    | false => simp [signs]

theorem cutSign_signed {sign : Option Byte} (signs : ∀ unit ∈ sign, unit.isSign = true)
    (unsigned : sign = none → ∀ unit ∈ text.head?, unit.isSign = false) :
    cutSign (sign.toList ++ text) = (sign, text) := by
  cases sign with
  | some unit => simp [cutSign, signs unit rfl]
  | none =>
    cases text with
    | nil => rfl
    | cons unit text => simp [cutSign, unsigned rfl unit rfl]

theorem digits?_iff {number : Nat} : digits? text = some number ↔ Positional 10 number text := by
  rw [digits?]
  constructor
  · intro read
    split at read
    · rename_i all
      cases read
      rw [Bool.and_eq_true, Bool.not_eq_true', List.isEmpty_eq_false_iff, List.all_eq_true] at all
      exact .ofDigits all.1 all.2
    · cases read
  · intro digits
    have some_ := List.isEmpty_eq_false_iff.mpr digits.ne_nil
    rw [some_, List.all_eq_true.mpr digits.isDigit, digits.value]
    rfl

theorem power?_iff {power : Int}
    (marks : ∀ unit ∈ text.head?, (unit.is 'e' || unit.is 'E') = true) :
    power? text = some power ↔ Scale power text := by
  cases text with
  | nil =>
    constructor
    · rintro ⟨⟩
      exact .absent
    · rintro ⟨⟩
      rfl
  | cons marker text =>
    obtain ⟨split, signs, unsigned⟩ := cutSign_split text
    have begins : text <+: (cutSign text).1.toList ++ (cutSign text).2 := split ▸ List.prefix_rfl
    rw [power?, Option.map_eq_some_iff]
    constructor
    · rintro ⟨number, read, rfl⟩
      have magnitude := IntegerBase.magnitude_ten.mpr (digits?_iff.mp read)
      exact .present (marks marker rfl)
        ((IntegerBase.denotes_signed signs unsigned begins).mpr ⟨_, number, split, magnitude, rfl⟩)
    · rintro (_ | ⟨-, denotes⟩)
      obtain ⟨rest, number, whole, magnitude, rfl⟩ :=
        (IntegerBase.denotes_signed signs unsigned begins).mp denotes
      obtain rfl := List.append_cancel_left (split.symm.trans whole)
      exact ⟨number, digits?_iff.mpr (IntegerBase.magnitude_ten.mp magnitude), rfl⟩

theorem isPoint_period : IsPoint '.'.toNat where
  digitless := by decide
  unsigned := by decide
  unmarked := by decide

theorem cutPoint_whole (unpointed : ∀ unit ∈ text, beforePoint unit = true) :
    cutPoint text = (text, []) := by
  rw [cutPoint, List.takeWhile_eq_self_iff.mpr unpointed, List.dropWhile_eq_nil_iff.mpr unpointed]
  rfl

theorem cutPoint_pointed {whole fraction : Text .narrow} {period : Byte}
    (unpointed : ∀ unit ∈ whole, beforePoint unit = true)
    (separates : beforePoint period = false) :
    cutPoint (whole ++ period :: fraction) = (whole, fraction) := by
  have stops : ¬ beforePoint period = true := Bool.eq_false_iff.mp separates
  rw [cutPoint, List.takeWhile_append_of_pos unpointed, List.dropWhile_append_of_pos unpointed,
    List.takeWhile_cons_of_neg stops, List.dropWhile_cons_of_neg stops, List.append_nil]
  rfl

theorem cutPoint_split (text : Text .narrow) :
    cutPoint text = (text, []) ∨
      ∃ period, beforePoint period = false ∧
        text = (cutPoint text).1 ++ period :: (cutPoint text).2 := by
  have split : text.takeWhile beforePoint ++ text.dropWhile beforePoint = text :=
    List.takeWhile_append_dropWhile
  have stops := Text.dropWhile_stops beforePoint text
  cases behind : text.dropWhile beforePoint with
  | nil =>
    left
    rw [behind, List.append_nil] at split
    rw [cutPoint, behind, split]
    rfl
  | cons period fraction =>
    right
    rw [behind] at stops split
    refine ⟨period, stops period rfl, ?_⟩
    rw [cutPoint, behind]
    exact split.symm

theorem beforePoint_digit {unit : Byte} (digit : unit.isDigit 10 = true) :
    beforePoint unit = true := by
  have apart := isPoint_period.digit digit
  rw [beforePoint, CodeUnit.is, beq_eq_false_iff_ne.mpr apart]
  rfl

theorem mantissa_cutPoint {coefficient : Nat}
    (read : Positional 10 coefficient ((cutPoint text).1 ++ (cutPoint text).2)) :
    Mantissa '.'.toNat coefficient (cutPoint text).2.length text := by
  rcases cutPoint_split text with whole | ⟨period, separates, split⟩
  · rw [whole, List.append_nil] at read
    rw [whole]
    exact .plain read
  · have period : period.code = '.'.toNat := by simpa [beforePoint, CodeUnit.is] using separates
    have mantissa := Mantissa.pointed read period
    rwa [← split] at mantissa

theorem cutPoint_mantissa {coefficient places : Nat}
    (mantissa : Mantissa '.'.toNat coefficient places text) :
    Positional 10 coefficient ((cutPoint text).1 ++ (cutPoint text).2) ∧
      (cutPoint text).2.length = places := by
  cases mantissa with
  | plain read =>
    rw [cutPoint_whole fun unit inside => beforePoint_digit (read.isDigit unit inside),
      List.append_nil]
    exact ⟨read, rfl⟩
  | @pointed front behind separator read separates =>
    obtain ⟨whole, -⟩ := List.forall_mem_append.mp read.isDigit
    have period : beforePoint separator = false := by simp [beforePoint, CodeUnit.is, separates]
    rw [cutPoint_pointed (fun unit inside => beforePoint_digit (whole unit inside)) period]
    exact ⟨read, rfl⟩

theorem cutMarker_mantissa {coefficient places : Nat} {power : Int}
    {digits exponent : Text .narrow} (mantissa : Mantissa '.'.toNat coefficient places digits)
    (scale : Scale power exponent) :
    (digits ++ exponent).takeWhile beforeMarker = digits ∧
      (digits ++ exponent).dropWhile beforeMarker = exponent := by
  have before : ∀ unit ∈ digits, beforeMarker unit = true := by
    intro unit inside
    rw [beforeMarker, mantissa.unmarked isPoint_period unit inside]
    rfl
  have stops : ∀ unit ∈ exponent.head?, beforeMarker unit = false := by
    intro unit first
    rw [beforeMarker, scale.marks unit first]
    rfl
  have taken := Text.takeWhile_front before stops
  refine ⟨taken, ?_⟩
  have whole : (digits ++ exponent).takeWhile beforeMarker ++
      (digits ++ exponent).dropWhile beforeMarker = digits ++ exponent :=
    List.takeWhile_append_dropWhile
  rw [taken] at whole
  exact List.append_cancel_left whole

/-- The parser accepts the spellings of decimal numbers, and nothing else. -/
theorem parse?_iff : parse? text = some number ↔ Spells '.'.toNat number text := by
  constructor
  · intro parsed
    obtain ⟨split, signs, -⟩ := cutSign_split text
    have parts : (cutSign text).2.takeWhile beforeMarker ++
        (cutSign text).2.dropWhile beforeMarker = (cutSign text).2 :=
      List.takeWhile_append_dropWhile
    -- The parser does not look at the unit in front of the power: it is where the digits stopped.
    have marks : ∀ unit ∈ ((cutSign text).2.dropWhile beforeMarker).head?,
        (unit.is 'e' || unit.is 'E') = true := by
      intro unit first
      have marker := Text.dropWhile_stops beforeMarker _ unit first
      rwa [beforeMarker, Bool.not_eq_false'] at marker
    simp only [parse?] at parsed
    split at parsed
    · rename_i coefficient power digits powers
      cases parsed
      have spelled := Spells.number signs (mantissa_cutPoint (digits?_iff.mp digits))
        ((power?_iff marks).mp powers)
      rwa [parts, ← split] at spelled
    · cases parsed
  · rintro ⟨signs, mantissa, scale⟩
    have unsigned := mantissa.unsigned isPoint_period
    obtain ⟨taken, left⟩ := cutMarker_mantissa mantissa scale
    obtain ⟨read, rfl⟩ := cutPoint_mantissa mantissa
    simp only [parse?]
    rw [cutSign_signed signs fun _ unit first =>
      unsigned unit (Text.head_front mantissa.ne_nil unit first)]
    simp only [taken, left, digits?_iff.mpr read, (power?_iff scale.marks).mpr scale]

end Decimal

theorem CodeUnit.code_toByte {unit : CodeUnit w} (digit : unit.isDigit 10 = true) :
    unit.toByte.code = unit.code :=
  CodeUnit.code_ofNat (Nat.lt_trans (CodeUnit.isDigit_code digit).2 (by decide))

namespace FloatSpan

variable {pointed : Bool} {span : FloatSpan w} {sign : Option (CodeUnit w)}

/-- Pieces that a reader of numbers can have taken. -/
structure Legible (pointed : Bool) (span : FloatSpan w) : Prop where
  sign : ∀ unit ∈ span.sign, unit.isSign = true
  whole : ∀ unit ∈ span.whole, unit.isDigit 10 = true
  fraction : ∀ unit ∈ span.fraction, unit.isDigit 10 = true
  unpointed : pointed = false → span.fraction = []
  some_ : span.whole ++ span.fraction ≠ []
  exponentSign : ∀ unit ∈ span.exponentSign, unit.isSign = true
  exponent : ∀ unit ∈ span.exponent, unit.isDigit 10 = true

theorem spelledSign_split (sign : Option (CodeUnit w)) :
    ∃ byte : Option Byte, spelledSign sign = byte.toList ∧
      (∀ unit ∈ byte, unit.isSign = true) ∧
      byte.any CodeUnit.isMinus = sign.any CodeUnit.isMinus := by
  cases sign with
  | none => exact ⟨none, rfl, nofun, rfl⟩
  | some unit =>
    refine ⟨some (.ofNat .narrow (if unit.isMinus then '-' else '+').toNat), rfl, ?_, ?_⟩
    · rintro byte ⟨⟩
      cases unit.isMinus <;> decide
    · rw [Option.any_some, Option.any_some]
      cases unit.isMinus <;> decide

theorem positional_spelled {digits : Text w} (some_ : digits ≠ [])
    (all : ∀ unit ∈ digits, unit.isDigit 10 = true) :
    Positional 10 (digits.value 10) (digits.map CodeUnit.toByte) :=
  (Positional.ofDigits some_ all).map fun unit inside => CodeUnit.code_toByte (all unit inside)

theorem mantissa_spelled (legible : span.Legible pointed) :
    Mantissa '.'.toNat (Text.value 10 (span.whole ++ span.fraction)) span.fraction.length
      (span.whole.map CodeUnit.toByte ++ (if pointed then [.ofNat .narrow '.'.toNat] else [])
        ++ span.fraction.map CodeUnit.toByte) := by
  have read := positional_spelled legible.some_
    (List.forall_mem_append.mpr ⟨legible.whole, legible.fraction⟩)
  rw [List.map_append] at read
  cases pointed with
  | true =>
    have separates : (CodeUnit.ofNat .narrow '.'.toNat).code = '.'.toNat := rfl
    simpa using Mantissa.pointed read separates
  | false =>
    have empty := legible.unpointed rfl
    rw [empty] at read ⊢
    simpa using Mantissa.plain read

theorem scale_spelled (legible : span.Legible pointed) :
    Scale (signed span.exponentSign (span.exponent.value 10))
      (if span.exponent.isEmpty then []
        else .ofNat .narrow 'e'.toNat
          :: (spelledSign span.exponentSign ++ span.exponent.map CodeUnit.toByte)) := by
  by_cases empty : span.exponent = []
  · -- A sign that was given back with its marker is not spelled, and it scales nothing.
    have nothing : signed span.exponentSign (Text.value 10 ([] : Text w)) = 0 := by
      simp [signed, Text.value]
    rw [empty, nothing]
    exact .absent
  · obtain ⟨byte, spelled, signs, minus⟩ := spelledSign_split span.exponentSign
    have read := positional_spelled empty legible.exponent
    have same : signed span.exponentSign (span.exponent.value 10) =
        signed byte (span.exponent.value 10) := by rw [signed, signed, minus]
    have magnitude := IntegerBase.magnitude_ten.mpr read
    rw [if_neg (mt List.isEmpty_iff.mp empty), spelled, same]
    exact .present rfl ((IntegerBase.denotes_signed signs (fun _ => magnitude.unsigned)
      List.prefix_rfl).mpr ⟨_, _, rfl, magnitude, rfl⟩)

theorem spells (legible : span.Legible pointed) :
    Decimal.Spells '.'.toNat span.toDecimal (span.spelling pointed) := by
  obtain ⟨byte, spelled, signs, minus⟩ := spelledSign_split span.sign
  have spelling := Decimal.Spells.number signs (mantissa_spelled legible) (scale_spelled legible)
  rw [minus, ← spelled] at spelling
  simpa only [FloatSpan.spelling, FloatSpan.toDecimal, List.append_assoc] using spelling

end FloatSpan

section Taking

variable {σ : Type} [UnitSource σ w]

theorem Counted.takeRun_accepts (accept : CodeUnit w → Bool) (room width : Option Nat)
    (input : Counted σ) : ∀ unit ∈ (input.takeRun accept room width).units, accept unit = true := by
  fun_induction takeRun accept room width input with
  | case1 room input => exact List.forall_mem_nil _
  | case2 room width input open_ source looked => exact List.forall_mem_nil _
  | case3 width input open_ unit source looked accepted => exact List.forall_mem_nil _
  | case4 room width input open_ unit source looked accepted roomy run ih =>
    exact List.forall_mem_cons.mpr ⟨accepted, ih⟩
  | case5 room width input open_ unit source looked rejected => exact List.forall_mem_nil _

namespace Field

theorem takeIf_accepts (accept : CodeUnit w → Bool) (field : Field σ) :
    ∀ unit ∈ (field.takeIf accept).1, accept unit = true := by
  unfold takeIf
  split
  · nofun
  · split
    · nofun
    · split
      · rename_i accepted
        rintro unit ⟨⟩
        exact accepted
      · nofun

theorem takeWhile_accepts (accept : CodeUnit w → Bool) (field : Field σ) :
    ∀ unit ∈ (field.takeWhile accept).1, accept unit = true :=
  Counted.takeRun_accepts accept none field.width field.input

theorem takeFraction_legible (point : Nat) (field : Field σ) :
    (∀ unit ∈ (field.takeFraction point).1.2, unit.isDigit 10 = true) ∧
      ((field.takeFraction point).1.1.isSome = false → (field.takeFraction point).1.2 = []) := by
  unfold takeFraction
  split
  · exact ⟨nofun, fun _ => rfl⟩
  · exact ⟨takeWhile_accepts _ _, nofun⟩

theorem takeExponent_legible (field : Field σ) :
    (∀ unit ∈ field.takeExponent.1.1, unit.isSign = true) ∧
      ∀ unit ∈ field.takeExponent.1.2, unit.isDigit 10 = true := by
  unfold takeExponent
  split
  · exact ⟨nofun, nofun⟩
  · simp only
    split
    · exact ⟨nofun, nofun⟩
    · exact ⟨takeIf_accepts _ _, takeWhile_accepts _ _⟩

end Field

namespace Counted

/-- Taking a number and spelling one fail alike; otherwise the number's pieces are spelled. -/
theorem takeSpelling_cases (point : Nat) (width : Option Nat) (input : Counted σ) :
    (∃ (pointed : Bool) (span : FloatSpan w) (after : Counted σ), span.Legible pointed ∧
      input.takeSpelling point width = (.ok (span.spelling pointed), after) ∧
      input.takeDecimal point width = (.ok span.toDecimal, after)) ∨
    ∃ halt after, input.takeSpelling point width = (.error halt, after) ∧
      input.takeDecimal point width = (.error halt, after) := by
  rw [takeSpelling, takeDecimal]
  simp only
  split
  · exact .inr ⟨_, _, rfl, rfl⟩
  · rename_i some_
    left
    refine ⟨_, _, _, ?_, rfl, rfl⟩
    constructor
    · exact Field.takeIf_accepts _ _
    · exact Field.takeWhile_accepts _ _
    · exact (Field.takeFraction_legible _ _).1
    · exact (Field.takeFraction_legible _ _).2
    · intro none
      obtain ⟨whole, fraction⟩ := List.append_eq_nil_iff.mp none
      exact some_ (Bool.and_eq_true_iff.mpr
        ⟨List.isEmpty_iff.mpr whole, List.isEmpty_iff.mpr fraction⟩)
    · exact (Field.takeExponent_legible _).1
    · exact (Field.takeExponent_legible _).2

/-- Parsing never fails: what a number is spelled as is the spelling of that number. -/
theorem takeParsed_eq (point : Nat) (width : Option Nat) (input : Counted σ) :
    input.takeParsed point width = input.takeDecimal point width := by
  rw [takeParsed]
  rcases input.takeSpelling_cases point width with
    ⟨pointed, span, after, legible, spelled, taken⟩ | ⟨halt, after, failed, same⟩
  · rw [spelled, taken]
    simp only [Decimal.parse?_iff.mpr (FloatSpan.spells legible)]
  · rw [failed, same]

end Counted

end Taking

end FormattedInput
