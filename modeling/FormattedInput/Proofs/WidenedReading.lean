import FormattedInput.Proofs.Widening
import FormattedInput.Scan.Progress

namespace FormattedInput

/-- What the relation of a narrow source with a wide one must satisfy. -/
structure Widens {σ τ : Type} [UnitSource σ .narrow] [UnitSource τ .wide]
    (same : σ → τ → Prop) : Prop where
  peek : ∀ {source : σ} {target : τ}, same source target →
    (UnitSource.peek target).1 = (UnitSource.peek source).1.map CodeUnit.widened ∧
      (∀ unit ∈ (UnitSource.peek source).1, unit.isAscii = true) ∧
      same (UnitSource.peek source).2 (UnitSource.peek target).2
  consume : ∀ {source seen : σ} {target seen' : τ} {unit : Byte}, same source target →
    UnitSource.peek source = (some unit, seen) →
      UnitSource.peek target = (some unit.widened, seen') →
        same (UnitSource.consume seen) (UnitSource.consume seen')
  putBack : ∀ {source : σ} {target : τ} (unit : Byte), same source target →
    same (UnitSource.putBack unit source) (UnitSource.putBack unit.widened target)

/-- The right result is the left one carried over, and the states are related. -/
def Carried {α β γ δ : Type} (carry : α → β) (related : γ → δ → Prop) (left : α × γ)
    (right : β × δ) : Prop :=
  right.1 = carry left.1 ∧ related left.2 right.2

theorem Carried.split {α β γ δ : Type} {carry : α → β} {related : γ → δ → Prop} {left : α × γ}
    {right : β × δ} (carried : Carried carry related left right) :
    ∃ value state other, left = (value, state) ∧ right = (carry value, other) ∧
      related state other :=
  ⟨left.1, left.2, right.2, rfl, Prod.ext carried.1 rfl, carried.2⟩

variable {σ τ : Type} [UnitSource σ .narrow] [UnitSource τ .wide] {same : σ → τ → Prop}

theorem Widens.looks (widens : Widens same) {source seen : σ} {target : τ} {shown : Option Byte}
    (related : same source target) (looked : UnitSource.peek source = (shown, seen)) :
    ∃ seen', UnitSource.peek target = (shown.map CodeUnit.widened, seen') ∧
      (∀ unit ∈ shown, unit.isAscii = true) ∧ same seen seen' := by
  obtain ⟨wide, ascii, further⟩ := widens.peek related
  rw [looked] at wide ascii further
  exact ⟨_, Prod.ext wide rfl, ascii, further⟩

structure Counted.Matches (same : σ → τ → Prop) (input : Counted σ) (wide : Counted τ) : Prop where
  source : same input.source wide.source
  consumed : wide.consumed = input.consumed

structure Field.Matches (same : σ → τ → Prop) (field : Field σ) (wide : Field τ) : Prop where
  input : field.input.Matches same wide.input
  width : wide.width = field.width

structure Run.Matches (same : σ → τ → Prop) (run : Run σ .narrow) (wide : Run τ .wide) :
    Prop where
  units : wide.units = run.units.widened
  ascii : run.units.IsAscii
  overflows : wide.overflows = run.overflows
  width : wide.width = run.width
  input : run.input.Matches same wide.input

namespace Counted.Matches

variable {input : Counted σ} {wide : Counted τ}

theorem peek (widens : Widens same) (matching : input.Matches same wide) :
    Carried (Option.map CodeUnit.widened) (Matches same) input.peek wide.peek := by
  obtain ⟨shown, -, related⟩ := widens.peek matching.source
  exact ⟨shown, related, matching.consumed⟩

theorem consume (widens : Widens same) (matching : input.Matches same wide) {unit : Byte}
    {seen : Counted σ} {seen' : Counted τ} (looked : input.peek = (some unit, seen))
    (looked' : wide.peek = (some unit.widened, seen')) :
    seen.consume.Matches same seen'.consume := by
  obtain ⟨shown, rfl⟩ := Prod.mk.inj looked
  obtain ⟨shown', rfl⟩ := Prod.mk.inj looked'
  exact ⟨widens.consume matching.source (Prod.ext shown rfl) (Prod.ext shown' rfl),
    congrArg (· + 1) matching.consumed⟩

theorem putBack (widens : Widens same) (matching : input.Matches same wide) (unit : Byte) :
    (input.putBack unit).Matches same (wide.putBack unit.widened) :=
  ⟨widens.putBack unit matching.source, congrArg (· - 1) matching.consumed⟩

theorem putBack? (widens : Widens same) (matching : input.Matches same wide)
    (taken : Option Byte) :
    (input.putBack? taken).Matches same (wide.putBack? (taken.map CodeUnit.widened)) := by
  cases taken with
  | none => exact matching
  | some unit => exact matching.putBack widens unit

theorem unmatched (widens : Widens same) (matching : input.Matches same wide) :
    Carried id (Matches same) input.unmatched wide.unmatched := by
  obtain ⟨shown, seen, seen', looked, looked', related⟩ := (matching.peek widens).split
  rw [Counted.unmatched, Counted.unmatched, looked, looked']
  cases shown with
  | none => exact ⟨congrArg Halt.inputExhausted related.consumed, related⟩
  | some unit => exact ⟨congrArg Halt.mismatch related.consumed, related⟩

theorem fail {α : Type} (widens : Widens same) (matching : input.Matches same wide) :
    Carried id (Matches same) (input.fail (α := α)) wide.fail := by
  obtain ⟨halt, related⟩ := matching.unmatched widens
  exact ⟨congrArg Except.error halt, related⟩

theorem takeRun (widens : Widens same) {accept : Byte → Bool} {accept' : CodeUnit .wide → Bool}
    (alike : ∀ unit : Byte, unit.isAscii = true → accept' unit.widened = accept unit)
    (room width : Option Nat) (matching : input.Matches same wide) :
    (input.takeRun accept room width).Matches same (wide.takeRun accept' room width) := by
  fun_induction Counted.takeRun accept room width input generalizing wide with
  | case1 room input =>
    rw [takeRun_round, if_pos rfl]
    exact ⟨rfl, nofun, rfl, rfl, matching⟩
  | case2 room width input going source looked =>
    obtain ⟨source', looked', -, further⟩ := widens.looks matching.source looked
    rw [takeRun_round, if_neg going, looked']
    exact ⟨rfl, nofun, rfl, rfl, further, matching.consumed⟩
  | case3 width input going unit source looked accepted =>
    obtain ⟨source', looked', ascii, further⟩ := widens.looks matching.source looked
    have accepted' : accept' unit.widened = true := (alike unit (ascii unit rfl)).trans accepted
    rw [takeRun_round, if_neg going, looked']
    simp only [Option.map_some, if_pos accepted', if_true]
    exact ⟨rfl, nofun, rfl, rfl, further, matching.consumed⟩
  | case4 room width input going unit source looked accepted roomy run =>
    rename_i ih
    obtain ⟨source', looked', ascii, further⟩ := widens.looks matching.source looked
    have accepted' : accept' unit.widened = true := (alike unit (ascii unit rfl)).trans accepted
    rw [takeRun_round, if_neg going, looked']
    simp only [Option.map_some, if_pos accepted', if_neg roomy]
    have stepped : Matches same ⟨UnitSource.consume source, input.consumed + 1⟩
        ⟨UnitSource.consume source', wide.consumed + 1⟩ :=
      ⟨widens.consume matching.source looked looked', congrArg (· + 1) matching.consumed⟩
    have later := ih stepped
    exact ⟨congrArg (unit.widened :: ·) later.units,
      List.forall_mem_cons.mpr ⟨ascii unit rfl, later.ascii⟩, later.overflows, later.width,
      later.input⟩
  | case5 room width input going unit source looked rejected =>
    obtain ⟨source', looked', ascii, further⟩ := widens.looks matching.source looked
    have rejected' : ¬ accept' unit.widened = true := by
      rwa [alike unit (ascii unit rfl)]
    rw [takeRun_round, if_neg going, looked']
    simp only [Option.map_some, if_neg rejected']
    exact ⟨rfl, nofun, rfl, rfl, further, matching.consumed⟩

theorem dropSpace (widens : Widens same) (matching : input.Matches same wide) :
    input.dropSpace.Matches same wide.dropSpace :=
  (matching.takeRun widens (fun _ => CodeUnit.isSpace_widened) none none).input

end Counted.Matches

namespace Field.Matches

variable {field : Field σ} {wide : Field τ}

theorem takeIf (widens : Widens same) (accept : Byte → Bool) (accept' : CodeUnit .wide → Bool)
    (alike : ∀ unit : Byte, accept' unit.widened = accept unit)
    (matching : field.Matches same wide) :
    Carried (Option.map CodeUnit.widened) (Matches same) (field.takeIf accept)
      (wide.takeIf accept') := by
  obtain ⟨shown, seen, seen', looked, looked', related⟩ := (matching.input.peek widens).split
  rw [Field.takeIf, Field.takeIf, matching.width, looked, looked']
  split
  · exact ⟨rfl, matching⟩
  · cases shown with
    | none => exact ⟨rfl, related, rfl⟩
    | some unit =>
      have moved := matching.input.consume widens looked looked'
      simp only [Option.map_some, alike]
      split
      · exact ⟨rfl, moved, rfl⟩
      · exact ⟨rfl, related, rfl⟩

theorem takeDigits (widens : Widens same) (base : Nat) (matching : field.Matches same wide) :
    Carried Text.widened (Matches same) (field.takeWhile (CodeUnit.isDigit base))
      (wide.takeWhile (CodeUnit.isDigit base)) := by
  have run := matching.input.takeRun widens
    (fun unit _ => CodeUnit.isDigit_widened base unit) none field.width
  unfold Field.takeWhile
  rw [matching.width]
  exact ⟨run.units, run.input, run.width⟩

theorem takeSign (widens : Widens same) (matching : field.Matches same wide) :
    Carried (Option.map CodeUnit.widened) (Matches same) field.takeSign wide.takeSign :=
  matching.takeIf widens CodeUnit.isSign CodeUnit.isSign fun _ => rfl

end Field.Matches

def BaseMark.widened (mark : BaseMark .narrow) : BaseMark .wide :=
  ⟨mark.base, mark.zero, mark.marker.map CodeUnit.widened⟩

namespace Field.Matches

variable {field : Field σ} {wide : Field τ}

theorem takeMark (widens : Widens same) (base : IntegerBase) (matching : field.Matches same wide) :
    Carried BaseMark.widened (Matches same) (base.takeMark field) (base.takeMark wide) := by
  unfold IntegerBase.takeMark
  split
  · obtain ⟨zero, field', wide', took, took', related⟩ :=
      (matching.takeIf widens (fun unit => unit.is '0') (fun unit => unit.is '0')
        fun _ => rfl).split
    rw [took, took']
    cases zero with
    | none => exact ⟨rfl, related⟩
    | some zero =>
      obtain ⟨marker, _, _, found, found', further⟩ :=
        (related.takeIf widens (fun unit => unit.is 'x' || unit.is 'X')
          (fun unit => unit.is 'x' || unit.is 'X') fun _ => rfl).split
      simp only [Option.map_some, found, found']
      cases marker with
      | none => exact ⟨rfl, further⟩
      | some marker => exact ⟨rfl, further⟩
  · exact ⟨rfl, matching⟩

def carryPiece (piece : Option Byte × Text .narrow) : Option (CodeUnit .wide) × Text .wide :=
  (piece.1.map CodeUnit.widened, piece.2.widened)

theorem takeFraction (widens : Widens same) (point : Nat) (matching : field.Matches same wide) :
    Carried carryPiece (Matches same) (field.takeFraction point) (wide.takeFraction point) := by
  obtain ⟨separator, field', wide', took, took', related⟩ :=
    (matching.takeIf widens (fun unit => unit.code == point) (fun unit => unit.code == point)
        fun _ => rfl).split
  rw [Field.takeFraction, Field.takeFraction, took, took']
  cases separator with
  | none => exact ⟨rfl, related⟩
  | some separator =>
    obtain ⟨digits, further⟩ := related.takeDigits widens 10
    exact ⟨congrArg (some separator.widened, ·) digits, further⟩

theorem takeExponent (widens : Widens same) (matching : field.Matches same wide) :
    Carried carryPiece (Matches same) field.takeExponent wide.takeExponent := by
  obtain ⟨marker, field', wide', took, took', related⟩ :=
    (matching.takeIf widens (fun unit => unit.is 'e' || unit.is 'E')
      (fun unit => unit.is 'e' || unit.is 'E') fun _ => rfl).split
  rw [Field.takeExponent, Field.takeExponent, took, took']
  cases marker with
  | none => exact ⟨rfl, related⟩
  | some marker =>
    obtain ⟨sign, _, _, signed, signed', further⟩ := (related.takeSign widens).split
    obtain ⟨digits, _, _, read, read', last⟩ := (further.takeDigits widens 10).split
    simp only [Option.map_some, signed, signed', read, read', Text.isEmpty_widened]
    split
    · exact ⟨rfl, (last.input.putBack? widens sign).putBack widens marker, last.width⟩
    · exact ⟨rfl, last⟩

end Field.Matches

theorem signed_widened (sign : Option Byte) (magnitude : Nat) :
    signed (sign.map CodeUnit.widened) magnitude = signed sign magnitude := by
  cases sign <;> rfl

theorem FloatSpan.toDecimal_widened (sign exponentSign : Option Byte)
    (whole fraction exponent : Text .narrow) :
    FloatSpan.toDecimal ⟨sign.map CodeUnit.widened, whole.widened, fraction.widened,
      exponentSign.map CodeUnit.widened, exponent.widened⟩ =
    FloatSpan.toDecimal ⟨sign, whole, fraction, exponentSign, exponent⟩ := by
  have minus : (sign.map CodeUnit.widened).any CodeUnit.isMinus = sign.any CodeUnit.isMinus := by
    cases sign <;> rfl
  simp only [toDecimal, ← Text.widened_append, Text.value_widened, signed_widened,
    Text.length_widened, minus]

namespace Counted.Matches

variable {input : Counted σ} {wide : Counted τ}

theorem takeInteger (widens : Widens same) (base : IntegerBase) (width : Option Nat)
    (matching : input.Matches same wide) :
    Carried id (Matches same) (input.takeInteger base width) (wide.takeInteger base width) := by
  have started : Field.Matches same ⟨input, width⟩ ⟨wide, width⟩ := ⟨matching, rfl⟩
  obtain ⟨sign, _, _, signed, signed', related⟩ := (started.takeSign widens).split
  obtain ⟨mark, _, _, marked, marked', related'⟩ := (related.takeMark widens base).split
  obtain ⟨digits, _, _, read, read', last⟩ := (related'.takeDigits widens mark.base).split
  have base : mark.widened.base = mark.base := rfl
  have zero : mark.widened.zero = mark.zero := rfl
  have marker : mark.widened.marker = mark.marker.map CodeUnit.widened := rfl
  simp only [Counted.takeInteger, signed, signed', marked, marked', base, read, read', zero,
    marker, Text.isEmpty_widened, signed_widened, Text.value_widened]
  split
  · cases mark.marker with
    | none => exact (last.input.putBack? widens sign).fail widens
    | some marker => exact ⟨rfl, last.input.putBack widens marker⟩
  · exact ⟨rfl, last.input⟩

theorem takeDecimal (widens : Widens same) (point : Nat) (width : Option Nat)
    (matching : input.Matches same wide) :
    Carried id (Matches same) (input.takeDecimal point width) (wide.takeDecimal point width) := by
  have started : Field.Matches same ⟨input, width⟩ ⟨wide, width⟩ := ⟨matching, rfl⟩
  obtain ⟨sign, _, _, signed, signed', related⟩ := (started.takeSign widens).split
  obtain ⟨whole, _, _, read, read', further⟩ := (related.takeDigits widens 10).split
  obtain ⟨fraction, _, _, pointed, pointed', last⟩ := (further.takeFraction widens point).split
  have separator : (Field.Matches.carryPiece fraction).1 = fraction.1.map CodeUnit.widened := rfl
  have behind : (Field.Matches.carryPiece fraction).2 = fraction.2.widened := rfl
  simp only [Counted.takeDecimal, signed, signed', read, read', pointed, pointed', separator,
    behind, Text.isEmpty_widened]
  split
  · exact ((last.input.putBack? widens fraction.1).putBack? widens sign).fail widens
  · obtain ⟨exponent, _, _, raised, raised', final⟩ := (last.takeExponent widens).split
    simp only [raised, raised']
    exact ⟨congrArg Except.ok (FloatSpan.toDecimal_widened sign exponent.1 whole fraction.2
      exponent.2), final.input⟩

theorem takeText (widens : Widens same) (shape : TextShape) (elements width : Option Nat)
    (matching : input.Matches same wide) :
    Carried (fun taken => (taken.1.widened, taken.2)) (Matches same)
        (input.takeText shape elements width) (wide.takeText shape elements width) ∧
      (input.takeText shape elements width).1.1.IsAscii := by
  have leading : (input.dropLeading shape).Matches same (wide.dropLeading shape) := by
    cases shape with
    | word => exact matching.dropSpace widens
    | characters => exact matching
    | members set => exact matching
  have alike : ∀ unit : Byte, unit.isAscii = true →
      shape.accepts unit.widened = shape.accepts unit := by
    intro unit ascii
    cases shape with
    | word => exact congrArg not (CodeUnit.isSpace_widened ascii)
    | characters => rfl
    | members set => rfl
  have run := leading.takeRun widens alike (elements.map shape.room) (shape.width width)
  have lacks : shape.lacks ((wide.dropLeading shape).takeRun shape.accepts
      (elements.map shape.room) (shape.width width)) =
      shape.lacks ((input.dropLeading shape).takeRun shape.accepts (elements.map shape.room)
        (shape.width width)) := by
    cases shape <;> simp only [TextShape.lacks, run.units, run.width, Text.isEmpty_widened]
  unfold Counted.takeText
  simp only [run.overflows, lacks, run.units]
  split
  · exact ⟨⟨rfl, run.input⟩, run.ascii⟩
  · split
    · obtain ⟨halt, stopped⟩ := run.input.unmatched widens
      exact ⟨⟨by simp only [halt, id_eq], stopped⟩, run.ascii⟩
    · exact ⟨⟨rfl, run.input⟩, run.ascii⟩

theorem takeLiteral (widens : Widens same) (code : Nat) (matching : input.Matches same wide) :
    Carried id (Matches same) (input.takeLiteral code) (wide.takeLiteral code) := by
  obtain ⟨shown, seen, seen', looked, looked', related⟩ := (matching.peek widens).split
  have found : (shown.map CodeUnit.widened).any (fun unit => unit.code == code) =
      shown.any (fun unit => unit.code == code) := by cases shown <;> rfl
  simp only [Counted.takeLiteral, looked, looked', found]
  split
  · rename_i matched
    cases shown with
    | none => cases matched
    | some unit => exact ⟨rfl, matching.consume widens looked looked'⟩
  · obtain ⟨halt, stopped⟩ := related.unmatched widens
    exact ⟨congrArg some halt, stopped⟩

end Counted.Matches

namespace Content

def widened : Content .narrow → Content .wide
  | word value => word value
  | decimal number => decimal number
  | text units => text units.widened
  | terminated units => terminated units.widened
  | cut units => cut units.widened

def IsAscii : Content .narrow → Prop
  | word _ | decimal _ => True
  | text units | terminated units | cut units => units.IsAscii

end Content

def Result.widened (result : Result .narrow) : Result .wide :=
  ⟨result.content.map Content.widened, result.halt⟩

def Result.IsAscii (result : Result .narrow) : Prop := ∀ content ∈ result.content, content.IsAscii

namespace Counted.Matches

variable {input : Counted σ} {wide : Counted τ}

theorem convertInteger (widens : Widens same) (base : IntegerBase) (width : Option Nat)
    (matching : input.Matches same wide) :
    Carried Result.widened (Matches same) (input.convertInteger base width)
        (wide.convertInteger base width) ∧
      (input.convertInteger base width).1.IsAscii := by
  obtain ⟨value, _, _, read, read', related⟩ :=
    ((matching.dropSpace widens).takeInteger widens base width).split
  rw [Counted.convertInteger, Counted.convertInteger, read, read']
  cases value with
  | ok value =>
    refine ⟨⟨rfl, related⟩, ?_⟩
    rintro content ⟨⟩
    trivial
  | error halt => exact ⟨⟨rfl, related⟩, nofun⟩

theorem convertFloat (widens : Widens same) (point : Nat) (width : Option Nat)
    (matching : input.Matches same wide) :
    Carried Result.widened (Matches same) (input.convertFloat point width)
        (wide.convertFloat point width) ∧
      (input.convertFloat point width).1.IsAscii := by
  obtain ⟨number, _, _, read, read', related⟩ :=
    ((matching.dropSpace widens).takeDecimal widens point width).split
  rw [Counted.convertFloat, Counted.convertFloat, read, read']
  cases number with
  | ok number =>
    refine ⟨⟨rfl, related⟩, ?_⟩
    rintro content ⟨⟩
    trivial
  | error halt => exact ⟨⟨rfl, related⟩, nofun⟩

theorem convertText (widens : Widens same) (policy : Policy) (index : Nat) (shape : TextShape)
    (elements width : Option Nat) (matching : input.Matches same wide) :
    Carried Result.widened (Matches same) (input.convertText policy index shape elements width)
        (wide.convertText policy index shape elements width) ∧
      (input.convertText policy index shape elements width).1.IsAscii := by
  obtain ⟨carried, ascii⟩ := matching.takeText widens shape elements width
  obtain ⟨⟨units, ended⟩, _, _, read, read', related⟩ := carried.split
  rw [read] at ascii
  rw [Counted.convertText, Counted.convertText, read, read']
  cases ended with
  | complete =>
    simp only
    refine ⟨⟨?_, related⟩, ?_⟩
    · simp only [Result.widened, Option.map_some]
      split <;> rfl
    · rintro content ⟨⟩
      split <;> exact ascii
  | overflow =>
    refine ⟨⟨rfl, related⟩, ?_⟩
    rintro content ⟨⟩
    exact ascii
  | failed halt =>
    refine ⟨⟨rfl, related⟩, ?_⟩
    rintro content ⟨⟩
    exact ascii

theorem convert (widens : Widens same) (rules : Rules) (index : Nat) (conversion : Conversion)
    (elements : Option Nat) (matching : input.Matches same wide) :
    Carried Result.widened (Matches same) (input.convert rules index conversion elements)
        (wide.convert rules index conversion elements) ∧
      (input.convert rules index conversion elements).1.IsAscii := by
  obtain ⟨suppress, width, length, kind⟩ := conversion
  cases kind with
  | decimal | unsigned | integer | octal | hex | pointer =>
    exact matching.convertInteger widens _ width
  | float => exact matching.convertFloat widens _ width
  | string swapped => exact matching.convertText widens _ index .word elements width
  | chars swapped => exact matching.convertText widens _ index .characters elements width
  | charClass set => exact matching.convertText widens _ index (.members set) elements width
  | count =>
    refine ⟨⟨?_, matching⟩, ?_⟩
    · simp only [Counted.convert, Result.widened, Option.map_some, matching.consumed,
        Content.widened]
    · rintro content ⟨⟩
      trivial
  | percent =>
    obtain ⟨halt, related⟩ := matching.takeLiteral widens '%'.toNat
    exact ⟨⟨congrArg (Result.mk none) halt, related⟩, nofun⟩

end Counted.Matches

namespace TextSource

def widened (source : TextSource .narrow) : TextSource .wide :=
  ⟨source.before.widened, source.after.widened⟩

structure IsAscii (source : TextSource .narrow) : Prop where
  before : source.before.IsAscii
  after : source.after.IsAscii

/-- An ASCII text and the widened one at the same place. -/
def Beside (source : TextSource .narrow) (wide : TextSource .wide) : Prop :=
  wide = source.widened ∧ source.IsAscii

theorem beside_widens : Widens Beside where
  peek := by
    rintro source target ⟨rfl, ascii⟩
    refine ⟨?_, ?_, rfl, ascii⟩
    · exact List.head?_map
    · intro unit shown
      exact ascii.after unit (List.mem_of_head? shown)
  consume := by
    rintro source seen target seen' unit ⟨rfl, ascii⟩ looked looked'
    obtain ⟨-, rfl⟩ := Prod.mk.inj looked
    obtain ⟨-, rfl⟩ := Prod.mk.inj looked'
    obtain ⟨before, after⟩ := source
    cases after with
    | nil => exact ⟨rfl, ascii⟩
    | cons first after =>
      obtain ⟨here, later⟩ := List.forall_mem_cons.mp ascii.after
      exact ⟨rfl, List.forall_mem_cons.mpr ⟨here, ascii.before⟩, later⟩
  putBack := by
    rintro source target unit ⟨rfl, ascii⟩
    obtain ⟨before, after⟩ := source
    cases before with
    | nil => exact ⟨rfl, ascii⟩
    | cons last before =>
      obtain ⟨here, earlier⟩ := List.forall_mem_cons.mp ascii.before
      exact ⟨rfl, earlier, List.forall_mem_cons.mpr ⟨here, ascii.after⟩⟩

end TextSource

end FormattedInput
