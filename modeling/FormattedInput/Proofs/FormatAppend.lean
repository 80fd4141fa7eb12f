import FormattedInput.Format.Reading
import Mathlib.Data.List.TakeWhile

/-!
Reading a format that continues another. A directive that was read to its end is read alike
when more follows, with two exceptions. A run of whitespace takes in the whitespace that
follows, and the letter after a modifier may turn out to be part of a longer modifier. Apart
from the latter, the directives of both formats follow each other, and runs of whitespace
that meet become one. -/
namespace FormattedInput

variable {w : Width}

def FormatError.later (count : Nat) (error : FormatError) : FormatError :=
  { error with offset := count + error.offset }

namespace Format

/-- Whether the spelling of a modifier begins with all of one text and ends in the other. -/
def cutsModifier (front back : Text w) : Bool :=
  modifiers.any fun modifier => decide (front.length < modifier.spelling.length) &&
    (strip? modifier.spelling (front ++ back)).isSome

/-- Whether a format is one conversion that, behind its width, cuts a modifier. -/
def cutsConversion (front back : Text w) : Bool :=
  match front with
  | percent :: body => percent.is '%' && cutsModifier (readWidth (readMark '*' body).2).2 back
  | [] => false

/-- Whether a format ends within the spelling of a modifier that another one completes. Its
last directive has then been read as a shorter modifier and a literal. -/
def splitsModifier (front back : Text w) : Bool :=
  match _found : readDirective front with
  | .error _ => false
  | .ok (_, rest) => cutsConversion front back || splitsModifier rest back
termination_by front.length
decreasing_by exact readDirective_length ‹_›

theorem strip?_append {letters : List Char} {front : Text w}
    (long : letters.length ≤ front.length) (back : Text w) :
    strip? letters (front ++ back) = (strip? letters front).map (· ++ back) := by
  induction letters generalizing front with
  | nil => rfl
  | cons letter letters ih =>
    cases front with
    | nil => simp at long
    | cons first front =>
      simp only [List.cons_append, strip?]
      split
      · exact ih (Nat.le_of_succ_le_succ long)
      · rfl

theorem readMark_append (letter : Char) {front : Text w} (going : front ≠ []) (back : Text w) :
    readMark letter (front ++ back) =
      ((readMark letter front).1, (readMark letter front).2 ++ back) := by
  have long : [letter].length ≤ front.length := List.length_pos_iff.mpr going
  unfold readMark
  rw [strip?_append long]
  cases strip? [letter] front <;> rfl

theorem readWidth_append {front : Text w} (going : (readWidth front).2 ≠ []) (back : Text w) :
    readWidth (front ++ back) = ((readWidth front).1, (readWidth front).2 ++ back) := by
  have left : front.dropWhile (CodeUnit.isDigit 10) ≠ [] := going
  have short : (front.takeWhile (CodeUnit.isDigit 10)).length ≠ front.length := by
    intro whole
    have split := congrArg List.length
      (List.takeWhile_append_dropWhile (p := CodeUnit.isDigit 10) (l := front))
    rw [List.length_append] at split
    exact left (List.length_eq_zero_iff.mp (by omega))
  have digits : (front ++ back).takeWhile (CodeUnit.isDigit 10) =
      front.takeWhile (CodeUnit.isDigit 10) := by
    rw [List.takeWhile_append, if_neg short]
  have rest : (front ++ back).dropWhile (CodeUnit.isDigit 10) =
      front.dropWhile (CodeUnit.isDigit 10) ++ back := by
    rw [List.dropWhile_append, if_neg (by simpa using left)]
  simp only [readWidth, digits, rest]

theorem strip?_whole {front back : Text w} (whole : cutsModifier front back = false)
    {modifier : LengthModifier} (member : modifier ∈ modifiers) :
    strip? modifier.spelling (front ++ back) =
      (strip? modifier.spelling front).map (· ++ back) := by
  by_cases long : modifier.spelling.length ≤ front.length
  · exact strip?_append long back
  · have absent : strip? modifier.spelling (front ++ back) = none := by
      have uncut := List.any_eq_false.mp whole modifier member
      simpa [Nat.lt_of_not_le long] using uncut
    have short : strip? modifier.spelling front = none := by
      rw [Option.eq_none_iff_forall_ne_some]
      intro rest found
      have := strip?_length found
      omega
    rw [absent, short, Option.map_none]

theorem readModifier_append {front back : Text w} (whole : cutsModifier front back = false) :
    readModifier (front ++ back) =
      ((readModifier front).1, (readModifier front).2 ++ back) := by
  have same (list : List LengthModifier) (inside : ∀ modifier ∈ list, modifier ∈ modifiers) :
      (list.findSome? fun modifier =>
        (strip? modifier.spelling (front ++ back)).map fun rest => (modifier, rest)) =
      (list.findSome? fun modifier =>
        (strip? modifier.spelling front).map fun rest => (modifier, rest)).map
          fun found => (found.1, found.2 ++ back) := by
    induction list with
    | nil => rfl
    | cons modifier list ih =>
      have here := strip?_whole whole (inside modifier List.mem_cons_self)
      have there := ih fun other member => inside other (List.mem_cons_of_mem _ member)
      simp only [List.findSome?_cons, here, there]
      cases strip? modifier.spelling front <;> rfl
  unfold readModifier
  rw [same modifiers fun _ member => member]
  cases modifiers.findSome? fun modifier =>
    (strip? modifier.spelling front).map fun rest => (modifier, rest) <;> rfl

theorem readRanges_closed {close : CodeUnit w} (closes : close.is ']' = true) (text : Text w) :
    readRanges (close :: text) = some ([], text) := by
  unfold readRanges
  rw [if_pos closes]

theorem readRanges_alone {low : CodeUnit w} (opens : ¬ low.is ']' = true) {text : Text w}
    (single : ∀ dash high more, text = dash :: high :: more →
      ¬ (dash.is '-' && !high.is ']') = true) :
    readRanges (low :: text) =
      (readRanges text).map fun (ranges, rest) => ((low.code, low.code) :: ranges, rest) := by
  conv => lhs; unfold readRanges
  rw [if_neg opens]
  split
  · rename_i dash high more
    rw [if_neg (single dash high more rfl)]
  · rfl

theorem readRanges_single {low : CodeUnit w} (opens : ¬ low.is ']' = true) {text : Text w}
    (apart : ∀ dash ∈ text.head?, dash.is '-' = false) :
    readRanges (low :: text) =
      (readRanges text).map fun (ranges, rest) => ((low.code, low.code) :: ranges, rest) := by
  apply readRanges_alone opens
  rintro dash high more rfl
  rw [apart dash rfl, Bool.false_and]
  exact Bool.false_ne_true

theorem readRanges_append {front rest : Text w} {ranges : List (Nat × Nat)}
    (found : readRanges front = some (ranges, rest)) (back : Text w) :
    readRanges (front ++ back) = some (ranges, rest ++ back) := by
  fun_induction readRanges front generalizing ranges with
  | case1 => contradiction
  | case2 low text closes =>
    cases found
    exact readRanges_closed closes (rest ++ back)
  | case3 low opens dash high more spells ih =>
    obtain ⟨⟨ranges, last⟩, inner, same⟩ := Option.map_eq_some_iff.mp found
    cases same
    rw [List.cons_append, List.cons_append, List.cons_append, readRanges, if_neg opens]
    simp only [if_pos spells, ih inner, Option.map_some]
  | case4 low opens dash high more single ih =>
    obtain ⟨⟨ranges, last⟩, inner, same⟩ := Option.map_eq_some_iff.mp found
    cases same
    have later := ih inner
    rw [List.cons_append, List.cons_append] at later
    rw [List.cons_append, List.cons_append, List.cons_append, readRanges, if_neg opens]
    simp only [if_neg single, later, Option.map_some]
  | case5 low opens text single ih =>
    obtain ⟨⟨ranges, last⟩, inner, same⟩ := Option.map_eq_some_iff.mp found
    cases same
    -- Only the closing bracket is left, so what follows it cannot make a range of it.
    cases text with
    | nil => contradiction
    | cons close more =>
      cases more with
      | cons second more => exact absurd rfl (single close second more)
      | nil =>
        have closes : close.is ']' = true := by
          cases closes : close.is ']' with
          | true => rfl
          | false => simp [readRanges, closes] at inner
        have apart : ∀ dash ∈ ([close] ++ back).head?, dash.is '-' = false := by
          rintro dash ⟨⟩
          simp only [CodeUnit.is, beq_iff_eq] at closes
          simp only [CodeUnit.is, closes]
          rfl
        have later := readRanges_single opens apart
        rw [ih inner] at later
        exact later

theorem readClass_append {front rest : Text w} {set : CharClass}
    (found : readClass front = some (set, rest)) (back : Text w) :
    readClass (front ++ back) = some (set, rest ++ back) := by
  obtain ⟨⟨ranges, last⟩, inner, same⟩ := Option.map_eq_some_iff.mp found
  have members : readRanges (readMark ']' (readMark '^' front).2).2 = some (ranges, last) := inner
  have going : (readMark '^' front).2 ≠ [] := by
    intro none
    rw [none] at members
    contradiction
  have going' : front ≠ [] := by
    rintro rfl
    contradiction
  obtain ⟨rfl, rfl⟩ := Prod.mk.inj same
  unfold readClass
  rw [readMark_append '^' going' back]
  simp only [readMark_append ']' going back, readRanges_append members back]
  rfl

theorem readConversion_append {body rest : Text w} {directive : Directive}
    (found : readConversion body = .ok (directive, rest)) {back : Text w}
    (whole : cutsModifier (readWidth (readMark '*' body).2).2 back = false) :
    readConversion (body ++ back) = .ok (directive, rest ++ back) := by
  -- Nothing in front of the letter is empty, so no mark is read where the formats meet.
  have letters : (readModifier (readWidth (readMark '*' body).2).2).2 ≠ [] := by
    intro none
    simp [readConversion, none] at found
  have modified : (readWidth (readMark '*' body).2).2 ≠ [] := by
    intro none
    have short := readModifier_length (readWidth (readMark '*' body).2).2
    rw [none, List.length_nil] at short
    rw [none] at letters
    exact letters (List.length_eq_zero_iff.mp (Nat.le_zero.mp short))
  have widened : (readMark '*' body).2 ≠ [] := by
    intro none
    rw [none] at modified
    exact modified rfl
  have going : body ≠ [] := by
    rintro rfl
    exact widened rfl
  unfold readConversion at found ⊢
  rw [readMark_append '*' going back]
  simp only [readWidth_append modified back, readModifier_append whole] at found ⊢
  cases left : (readModifier (readWidth (readMark '*' body).2).2).2 with
  | nil => exact absurd left letters
  | cons letter more =>
    simp only [left, List.cons_append] at found ⊢
    cases opens : letter.is '[' with
    | true =>
      simp only [opens, if_true] at found ⊢
      cases member : readClass more with
      | none => simp [member] at found
      | some class_ =>
        simp only [member, Except.ok.injEq, Prod.mk.injEq] at found
        obtain ⟨rfl, rfl⟩ := found
        simp only [readClass_append member back]
    | false =>
      simp only [opens, Bool.false_eq_true, if_false] at found ⊢
      cases known : kind? letter with
      | none =>
        simp only [known, Except.ok.injEq, Prod.mk.injEq] at found ⊢
        exact ⟨found.1, congrArg (· ++ back) found.2⟩
      | some kind =>
        simp only [known, Except.ok.injEq, Prod.mk.injEq] at found ⊢
        exact ⟨found.1, congrArg (· ++ back) found.2⟩

theorem splitsModifier_ok {front rest : Text w} {directive : Directive}
    (found : readDirective front = .ok (directive, rest)) (back : Text w) :
    splitsModifier front back = (cutsConversion front back || splitsModifier rest back) := by
  rw [splitsModifier]
  split
  · rename_i failed
    rw [found] at failed
    cases failed
  · rename_i again
    rw [found] at again
    cases again
    rfl

theorem cutsModifier_append {front back : Text w} (cuts : cutsModifier front back = true)
    (more : Text w) : cutsModifier front (back ++ more) = true := by
  obtain ⟨modifier, member, cut⟩ := List.any_eq_true.mp cuts
  obtain ⟨short, spelled⟩ := Bool.and_eq_true_iff.mp cut
  obtain ⟨rest, found⟩ := Option.isSome_iff_exists.mp spelled
  have long : modifier.spelling.length ≤ (front ++ back).length := by
    have split := strip?_length found
    omega
  refine List.any_eq_true.mpr ⟨modifier, member, Bool.and_eq_true_iff.mpr ⟨short, ?_⟩⟩
  rw [← List.append_assoc, strip?_append long, found]
  rfl

theorem splitsModifier_append {front back : Text w} (splits : splitsModifier front back = true)
    (more : Text w) : splitsModifier front (back ++ more) = true := by
  fun_induction splitsModifier front back with
  | case1 => contradiction
  | case2 front directive rest found ih =>
    rw [splitsModifier_ok found]
    rcases Bool.or_eq_true_iff.mp splits with here | later
    · apply Bool.or_eq_true_iff.mpr
      left
      cases front with
      | nil => contradiction
      | cons percent body =>
        obtain ⟨marked, cuts⟩ := Bool.and_eq_true_iff.mp here
        exact Bool.and_eq_true_iff.mpr ⟨marked, cutsModifier_append cuts more⟩
    · exact Bool.or_eq_true_iff.mpr (.inr (ih later))

theorem readDirective_append {front rest : Text w} {directive : Directive}
    (found : readDirective front = .ok (directive, rest)) {back : Text w}
    (whole : splitsModifier front back = false)
    (apart : rest ≠ [] ∨ directive ≠ .whitespace) :
    readDirective (front ++ back) = .ok (directive, rest ++ back) := by
  rw [splitsModifier_ok found] at whole
  obtain ⟨uncut, -⟩ := Bool.or_eq_false_iff.mp whole
  cases front with
  | nil => cases found
  | cons first text =>
    simp only [List.cons_append, readDirective] at found ⊢
    cases space : first.isSpace with
    | true =>
      simp only [space, if_true, Except.ok.injEq, Prod.mk.injEq] at found ⊢
      obtain ⟨rfl, rfl⟩ := found
      have going : text.dropWhile CodeUnit.isSpace ≠ [] := by simpa using apart
      rw [List.dropWhile_append, if_neg (by simpa using going)]
      exact ⟨rfl, rfl⟩
    | false =>
      simp only [space, Bool.false_eq_true, if_false] at found ⊢
      cases percent : first.is '%' with
      | true =>
        simp only [percent, if_true] at found ⊢
        rw [cutsConversion, percent, Bool.true_and] at uncut
        exact readConversion_append found uncut
      | false =>
        simp only [percent, Bool.false_eq_true, if_false, Except.ok.injEq, Prod.mk.injEq]
          at found ⊢
        exact ⟨found.1, congrArg (· ++ back) found.2⟩

theorem readFrom_ok (offset : Nat) {text rest : Text w} {directive : Directive}
    (found : readDirective text = .ok (directive, rest)) :
    readFrom offset text =
      ⟨(directive, offset + (text.length - rest.length)) ::
          (readFrom (offset + (text.length - rest.length)) rest).steps,
        (readFrom (offset + (text.length - rest.length)) rest).error⟩ := by
  have going : ¬ text.isEmpty = true := by
    intro ends
    rw [List.isEmpty_iff.mp ends] at found
    cases found
  rw [readFrom, if_neg going]
  split
  · rename_i failed
    rw [found] at failed
    cases failed
  · rename_i again
    rw [found] at again
    cases again
    rfl

theorem readFrom_error (offset : Nat) {text : Text w} {fault : FormatFault} (going : text ≠ [])
    (failed : readDirective text = .error fault) :
    readFrom offset text = ⟨[], some ⟨fault, offset⟩⟩ := by
  rw [readFrom, if_neg (by simpa using going)]
  split
  · rename_i again
    rw [failed] at again
    cases again
    rfl
  · rename_i found
    rw [failed] at found
    cases found

def Reading.directives (reading : Reading) : List Directive := reading.steps.map Prod.fst

theorem readFrom_later (count offset : Nat) (text : Text w) :
    (readFrom (count + offset) text).directives = (readFrom offset text).directives ∧
      (readFrom (count + offset) text).error =
        (readFrom offset text).error.map (FormatError.later count) := by
  fun_induction readFrom offset text with
  | case1 offset text ends =>
    rw [readFrom, if_pos ends]
    exact ⟨rfl, rfl⟩
  | case2 offset text going fault failed =>
    rw [readFrom_error _ (by simpa using going) failed]
    exact ⟨rfl, rfl⟩
  | case3 offset text going directive rest read stop later =>
    rename_i ih
    rw [readFrom_ok _ read, Nat.add_assoc]
    exact ⟨congrArg (directive :: ·) ih.1, ih.2⟩

/-- How the directives of two formats stand in the format that both make together. -/
inductive Joins : List Directive → List Directive → List Directive → Prop where
  | apart (first second : List Directive) : Joins first second (first ++ second)
  | merged (first second : List Directive) :
    Joins (first ++ [.whitespace]) (.whitespace :: second) (first ++ .whitespace :: second)

theorem Joins.cons {first second whole : List Directive} (joins : Joins first second whole)
    (directive : Directive) : Joins (directive :: first) second (directive :: whole) := by
  cases joins with
  | apart => exact .apart (directive :: first) second
  | merged first second => exact .merged (directive :: first) second

theorem readFrom_nil (offset : Nat) : readFrom offset ([] : Text w) = ⟨[], none⟩ := by
  rw [readFrom]
  rfl

theorem readFrom_whitespace (offset : Nat) {front back : Text w} (going : front ≠ [])
    (spaces : front.dropWhile CodeUnit.isSpace = []) :
    let whole := readFrom offset (front ++ back)
    Joins [.whitespace] (readFrom 0 back).directives whole.directives ∧
      whole.error = (readFrom 0 back).error.map (FormatError.later (offset + front.length)) := by
  have all := List.dropWhile_eq_nil_iff.mp spaces
  obtain ⟨first, text, rfl⟩ := List.exists_cons_of_ne_nil going
  have read : readDirective (first :: text ++ back) =
      .ok (.whitespace, back.dropWhile CodeUnit.isSpace) := by
    have behind : text.dropWhile CodeUnit.isSpace = [] :=
      List.dropWhile_eq_nil_iff.mpr fun unit member => all unit (List.mem_cons_of_mem _ member)
    rw [List.cons_append, readDirective, if_pos (all first List.mem_cons_self),
      List.dropWhile_append, behind]
    rfl
  intro whole
  have step : whole = _ := readFrom_ok offset read
  have shorter := length_dropWhile_le CodeUnit.isSpace back
  -- The whitespace reads on only into whitespace that begins the second format.
  cases back with
  | nil =>
    simp only [step, List.dropWhile_nil, readFrom_nil]
    exact ⟨.apart [.whitespace] [], rfl⟩
  | cons next more =>
    cases space : next.isSpace with
    | false =>
      have stays : (next :: more).dropWhile CodeUnit.isSpace = next :: more := by
        rw [List.dropWhile_cons, if_neg (by simp [space])]
      have stop : offset + ((first :: text ++ next :: more).length - (next :: more).length) =
          offset + (first :: text).length + 0 := by
        rw [List.length_append, Nat.add_sub_cancel, Nat.add_zero]
      obtain ⟨directives, error⟩ :=
        readFrom_later (offset + (first :: text).length) 0 (next :: more)
      rw [stays, stop] at step
      rw [step, ← directives]
      exact ⟨.apart [.whitespace] _, error⟩
    | true =>
      have again : readDirective (next :: more) =
          .ok (.whitespace, more.dropWhile CodeUnit.isSpace) := by
        rw [readDirective, if_pos space]
      have passes : (next :: more).dropWhile CodeUnit.isSpace =
          more.dropWhile CodeUnit.isSpace := by rw [List.dropWhile_cons, if_pos space]
      rw [passes] at step shorter
      generalize more.dropWhile CodeUnit.isSpace = rest at step shorter again
      have stop : offset + ((first :: text ++ next :: more).length - rest.length) =
          offset + (first :: text).length + (0 + ((next :: more).length - rest.length)) := by
        rw [List.length_append]
        omega
      obtain ⟨directives, error⟩ := readFrom_later (offset + (first :: text).length)
        (0 + ((next :: more).length - rest.length)) rest
      have listed : whole.directives = .whitespace ::
          (readFrom (0 + ((next :: more).length - rest.length)) rest).directives := by
        rw [step, stop, ← directives]
        rfl
      have alone := readFrom_ok 0 again
      rw [listed, alone, step, stop]
      exact ⟨.merged [] _, error⟩

theorem readConversion_whitespace {body rest : Text w} :
    readConversion body ≠ .ok (.whitespace, rest) := by
  intro found
  unfold readConversion at found
  simp only at found
  split at found
  · cases found
  · split at found
    · split at found <;> cases found
    · split at found <;> cases found

theorem readDirective_spaces {front rest : Text w}
    (found : readDirective front = .ok (.whitespace, rest)) :
    front.dropWhile CodeUnit.isSpace = rest := by
  cases front with
  | nil => cases found
  | cons first text =>
    simp only [readDirective] at found
    cases space : first.isSpace with
    | true =>
      simp only [space, if_true, Except.ok.injEq, Prod.mk.injEq, true_and] at found
      rw [List.dropWhile_cons, if_pos space, found]
    | false =>
      simp only [space, Bool.false_eq_true, if_false] at found
      split at found
      · exact absurd found readConversion_whitespace
      · cases found

/-- A format that is read without an error and cuts no modifier is read alike when another
follows, and that one is read as it is read alone. -/
theorem readFrom_append (offset : Nat) {front back : Text w}
    (sound : (readFrom offset front).error = none) (uncut : splitsModifier front back = false) :
    let whole := readFrom offset (front ++ back)
    Joins (readFrom offset front).directives (readFrom 0 back).directives whole.directives ∧
      whole.error = (readFrom 0 back).error.map (FormatError.later (offset + front.length)) := by
  fun_induction readFrom offset front with
  | case1 offset front ends =>
    obtain rfl := List.isEmpty_iff.mp ends
    obtain ⟨directives, error⟩ := readFrom_later offset 0 back
    intro whole
    have same : whole.directives = (readFrom 0 back).directives := directives
    rw [same]
    exact ⟨.apart [] _, error⟩
  | case2 offset front going fault failed => cases sound
  | case3 offset front going directive rest read stop later =>
    rename_i ih
    have shorter := readDirective_length read
    -- Only whitespace that ends the first format reads on into the second.
    by_cases apart : rest ≠ [] ∨ directive ≠ .whitespace
    · have later := uncut
      rw [splitsModifier_ok read] at later
      obtain ⟨joins, error⟩ := ih sound (Bool.or_eq_false_iff.mp later).2
      have same : offset + ((front ++ back).length - (rest ++ back).length) = stop := by
        rw [List.length_append, List.length_append]
        omega
      have place : stop + rest.length = offset + front.length := by omega
      rw [readFrom_ok offset (readDirective_append read uncut apart), same]
      rw [place] at error
      exact ⟨joins.cons directive, error⟩
    · obtain ⟨rfl, rfl⟩ : rest = [] ∧ directive = .whitespace := by simpa using apart
      have ended : later = ⟨[], none⟩ := readFrom_nil stop
      rw [ended]
      exact readFrom_whitespace offset (by simpa using going) (readDirective_spaces read)

end Format

end FormattedInput
