import FormattedInput.Format.Walk
import FormattedInput.Proofs.LongestPrefix
import FormattedInput.Proofs.PrintedMarks

namespace FormattedInput

variable {w : Width}

namespace Text

def IsMark (mark : Char) (text : Text w) : Prop := text = [] ∨ text = ofChars w [mark]

theorem Longest.unique {language : Text w → Prop} {text front other : Text w}
    (longest : text.Longest language front) (again : text.Longest language other) :
    front = other := by
  have short := again.most front longest.begins longest.member
  have long := longest.most other again.begins again.member
  exact (List.prefix_of_prefix_length_le longest.begins again.begins short).eq_of_length
    (Nat.le_antisymm short long)

theorem Longest.rest_unique {language : Text w → Prop} {text front other rest left : Text w}
    (longest : text.Longest language front) (split : text = front ++ rest)
    (again : text.Longest language other) (cut : text = other ++ left) : rest = left := by
  obtain rfl := longest.unique again
  exact List.append_cancel_left (split.symm.trans cut)

end Text

namespace Format

/-- What is left behind the marks of a conversion: an optional star, then all the digits, then
the longest modifier. -/
def LeftByMarks (body rest : Text w) : Prop :=
  ∃ star digits modifier : Text w, body = star ++ (digits ++ (modifier ++ rest)) ∧
    body.Longest (Text.IsMark '*') star ∧
    Text.Longest (fun front => ∀ unit ∈ front, unit.isDigit 10 = true)
      (digits ++ (modifier ++ rest)) digits ∧
    Text.Longest (fun front => ∃ length : LengthModifier, front = Text.ofChars w length.spelling)
      (modifier ++ rest) modifier

/-- What is left of a class behind an optional caret and then an optional closing bracket. -/
def LeftInClass (members rest : Text w) : Prop :=
  ∃ caret bracket : Text w, members = caret ++ (bracket ++ rest) ∧
    members.Longest (Text.IsMark '^') caret ∧
    Text.Longest (Text.IsMark ']') (bracket ++ rest) bracket

/-- A conversion of which nothing but marks is there. -/
def IsTruncated (text : Text w) : Prop :=
  ∃ percent body, text = percent :: body ∧ percent.is '%' = true ∧ LeftByMarks body []

/-- A class without a bracket that closes it. -/
def IsUnclosed (text : Text w) : Prop :=
  ∃ percent body opening members rest, text = percent :: body ∧ percent.is '%' = true ∧
    LeftByMarks body (opening :: members) ∧ opening.is '[' = true ∧ LeftInClass members rest ∧
    ∀ unit ∈ rest, unit.is ']' = false

/-- Directives one behind the other, each with the offset where it ends and read where the one
before it ended. -/
inductive Tiles (text : Text w) : Nat → List (Directive × Nat) → Nat → Prop where
  | done (offset : Nat) : Tiles text offset [] offset
  | step {start stop last : Nat} {directive : Directive} {steps : List (Directive × Nat)}
    (forward : start < stop) (inside : stop ≤ text.length)
    (read : readDirective (text.drop start) = .ok (directive, text.drop stop))
    (later : Tiles text stop steps last) : Tiles text start ((directive, stop) :: steps) last

end Format

namespace CodeUnit

theorem is_iff {unit : CodeUnit w} {mark : Char} (ascii : mark.toNat < 128) :
    unit.is mark = true ↔ unit = ofNat w mark.toNat := by
  rw [is, beq_iff_eq]
  constructor
  · intro same
    exact CodeUnit.ext (same.trans (code_ofAscii ascii).symm)
  · rintro rfl
    exact code_ofAscii ascii

end CodeUnit

namespace Format

theorem longest_mark (mark : Char) (ascii : mark.toNat < 128) (text : Text w) :
    ∃ front, text = front ++ (readMark mark text).2 ∧ text.Longest (Text.IsMark mark) front := by
  have spelled : Text.ofChars w [mark] = [CodeUnit.ofNat w mark.toNat] := Text.ofChars_ascii ascii
  cases text with
  | nil => exact ⟨[], rfl, List.prefix_rfl, .inl rfl, fun other begins _ => begins.length_le⟩
  | cons first more =>
    cases there : first.is mark with
    | true =>
      refine ⟨[first], ?_, ⟨more, rfl⟩, .inr ?_, ?_⟩
      · simp only [readMark, strip?, there, if_true, List.singleton_append]
      · rw [spelled, (CodeUnit.is_iff ascii).mp there]
      · rintro other - (rfl | rfl)
        · exact Nat.zero_le _
        · rw [spelled]
          exact Nat.le_refl _
    | false =>
      refine ⟨[], ?_, List.nil_prefix, .inl rfl, ?_⟩
      · simp only [readMark, strip?, there, Bool.false_eq_true, if_false, List.nil_append]
      · rintro other begins (rfl | rfl)
        · exact Nat.le_refl _
        · rw [spelled] at begins
          obtain ⟨same, -⟩ := List.cons_prefix_cons.mp begins
          rw [(CodeUnit.is_iff ascii).mpr same.symm] at there
          cases there

theorem longest_width (text : Text w) :
    ∃ front, text = front ++ (readWidth text).2 ∧
      text.Longest (fun front => ∀ unit ∈ front, unit.isDigit 10 = true) front :=
  ⟨_, List.takeWhile_append_dropWhile.symm, Text.longest_run (CodeUnit.isDigit 10) text⟩

theorem strip?_both {short long : List Char} (shorter : short.length ≤ long.length)
    {text first second : Text w} (found : strip? short text = some first)
    (again : strip? long text = some second) : short <+: long := by
  induction short generalizing long text with
  | nil => exact List.nil_prefix
  | cons letter short ih =>
    cases long with
    | nil => cases shorter
    | cons other long =>
      cases text with
      | nil => cases found
      | cons unit text =>
        rw [strip?] at found again
        split at found
        · rename_i here
          split at again
          · rename_i there
            have same : letter = other :=
              Char.toNat_inj.mp ((beq_iff_eq.mp here).symm.trans (beq_iff_eq.mp there))
            exact List.cons_prefix_cons.mpr ⟨same, ih (Nat.le_of_succ_le_succ shorter) found again⟩
          · cases again
        · cases found

theorem strip?_begins {letters : List Char} (ascii : ∀ letter ∈ letters, letter.toNat < 128)
    {text rest : Text w} :
    strip? letters text = some rest ↔ text = Text.ofChars w letters ++ rest := by
  constructor
  · intro found
    induction letters generalizing text with
    | nil =>
      cases found
      simp
    | cons letter letters ih =>
      obtain ⟨first, others⟩ := List.forall_mem_cons.mp ascii
      cases text with
      | nil => cases found
      | cons unit text =>
        rw [strip?] at found
        split at found
        · rename_i here
          rw [Text.ofChars_cons, Text.ofChars_ascii first, (CodeUnit.is_iff first).mp here,
            ih others found, List.append_assoc, List.singleton_append]
        · cases found
  · rintro rfl
    exact strip?_spelled ascii rest

theorem modifiers_longest_first :
    modifiers.Pairwise fun earlier later =>
      ¬ (earlier.spelling <+: later.spelling ∧ earlier.spelling.length < later.spelling.length) := by
  decide

theorem length_spelled {letters : List Char} (ascii : ∀ letter ∈ letters, letter.toNat < 128) :
    (Text.ofChars w letters).length = letters.length := by
  rw [Text.ofChars_small ascii, List.length_map]

theorem mem_modifiers {modifier : LengthModifier} (spelled : modifier ≠ .absent) :
    modifier ∈ modifiers := by
  cases modifier with
  | absent => exact absurd rfl spelled
  | _ => decide

theorem longest_modifier (text : Text w) :
    ∃ front, text = front ++ (readModifier text).2 ∧
      text.Longest (fun front => ∃ length : LengthModifier,
        front = Text.ofChars w length.spelling) front := by
  have stripped {other : LengthModifier} (begins : Text.ofChars w other.spelling <+: text) :
      ∃ rest, strip? other.spelling text = some rest := by
    obtain ⟨rest, rfl⟩ := begins
    exact ⟨rest, strip?_spelled (spelling_ascii other) rest⟩
  unfold readModifier
  cases found : modifiers.findSome? fun modifier =>
      (strip? modifier.spelling text).map fun rest => (modifier, rest) with
  | none =>
    refine ⟨[], rfl, List.nil_prefix, ⟨.absent, Text.ofChars_nil.symm⟩, ?_⟩
    rintro other begins ⟨modifier, rfl⟩
    obtain ⟨rest, fits⟩ := stripped begins
    by_cases absent : modifier = .absent
    · rw [absent, length_spelled (spelling_ascii .absent)]
      exact Nat.le_refl _
    · have unfit := List.findSome?_eq_none_iff.mp found modifier (mem_modifiers absent)
      rw [fits] at unfit
      cases unfit
  | some pair =>
    obtain ⟨before, modifier, behind, listed, fits, unfit⟩ := List.findSome?_eq_some_iff.mp found
    obtain ⟨rest, here, rfl⟩ := Option.map_eq_some_iff.mp fits
    have split := (strip?_begins (spelling_ascii modifier)).mp here
    refine ⟨Text.ofChars w modifier.spelling, split, ⟨rest, split.symm⟩, ⟨modifier, rfl⟩, ?_⟩
    rintro other begins ⟨longer, rfl⟩
    obtain ⟨left, there⟩ := stripped begins
    rw [length_spelled (spelling_ascii longer), length_spelled (spelling_ascii modifier)]
    by_contra extends_
    have shorter := Nat.lt_of_not_le extends_
    have extended := strip?_both (Nat.le_of_lt shorter) here there
    have spelled : longer ≠ .absent := by
      rintro rfl
      exact Nat.not_lt_zero _ shorter
    have member := mem_modifiers spelled
    rw [listed, List.mem_append, List.mem_cons] at member
    -- A longer spelling listed earlier would have been found, and later ones are no longer.
    rcases member with earlier | rfl | later
    · have absent := unfit longer earlier
      rw [there] at absent
      cases absent
    · exact Nat.lt_irrefl _ shorter
    · have order := modifiers_longest_first
      rw [listed] at order
      exact List.rel_of_pairwise_cons (List.pairwise_append.mp order).2.1 later
        ⟨extended, shorter⟩

theorem leftByMarks_iff {body rest : Text w} :
    LeftByMarks body rest ↔ (readModifier (readWidth (readMark '*' body).2).2).2 = rest := by
  obtain ⟨star, starred, star_longest⟩ := longest_mark '*' (by decide) body
  obtain ⟨digits, widened, digits_longest⟩ := longest_width (readMark '*' body).2
  obtain ⟨modifier, modified, modifier_longest⟩ :=
    longest_modifier (readWidth (readMark '*' body).2).2
  constructor
  · rintro ⟨first, second, third, split, first_longest, second_longest, third_longest⟩
    obtain marks := star_longest.rest_unique starred first_longest split
    rw [marks] at widened digits_longest modified modifier_longest ⊢
    have width := digits_longest.rest_unique widened second_longest rfl
    rw [width] at modified modifier_longest ⊢
    exact modifier_longest.rest_unique modified third_longest rfl
  · rintro rfl
    refine ⟨star, digits, modifier, ?_, star_longest, ?_, ?_⟩
    · rw [← modified, ← widened, ← starred]
    · rw [← modified, ← widened]
      exact digits_longest
    · rw [← modified]
      exact modifier_longest

theorem leftInClass_iff {members rest : Text w} :
    LeftInClass members rest ↔ (readMark ']' (readMark '^' members).2).2 = rest := by
  obtain ⟨caret, negated, caret_longest⟩ := longest_mark '^' (by decide) members
  obtain ⟨bracket, closing, bracket_longest⟩ := longest_mark ']' (by decide) (readMark '^' members).2
  constructor
  · rintro ⟨first, second, split, first_longest, second_longest⟩
    have marks := caret_longest.rest_unique negated first_longest split
    rw [marks] at closing bracket_longest ⊢
    exact bracket_longest.rest_unique closing second_longest rfl
  · rintro rfl
    refine ⟨caret, bracket, ?_, caret_longest, ?_⟩
    · rw [← closing, ← negated]
    · rw [← closing]
      exact bracket_longest

theorem readRanges_unclosed {text : Text w} :
    readRanges text = none ↔ ∀ unit ∈ text, unit.is ']' = false := by
  fun_induction readRanges text with
  | case1 => exact iff_of_true rfl (List.forall_mem_nil _)
  | case2 low text closes =>
    apply iff_of_false (Option.some_ne_none _)
    intro open_
    rw [open_ low List.mem_cons_self] at closes
    cases closes
  | case3 low opens dash high more spells ih =>
    obtain ⟨dashes, high_open⟩ := Bool.and_eq_true_iff.mp spells
    have low_open : low.is ']' = false := Bool.eq_false_iff.mpr opens
    have dash_open : dash.is ']' = false := by
      rw [CodeUnit.is, beq_iff_eq.mp dashes]
      rfl
    have high_open : high.is ']' = false := by simpa using high_open
    simp only [Option.map_eq_none_iff, ih, List.forall_mem_cons, low_open, dash_open, high_open,
      true_and]
  | case4 low opens dash high more single ih =>
    rw [Option.map_eq_none_iff, ih, List.forall_mem_cons (l := dash :: high :: more)]
    exact (and_iff_right (Bool.eq_false_iff.mpr opens)).symm
  | case5 low opens text single ih =>
    rw [Option.map_eq_none_iff, ih, List.forall_mem_cons (l := text)]
    exact (and_iff_right (Bool.eq_false_iff.mpr opens)).symm

theorem readClass_unclosed {members : Text w} :
    readClass members = none ↔
      ∃ rest, LeftInClass members rest ∧ ∀ unit ∈ rest, unit.is ']' = false := by
  have ranges : readClass members = none ↔
      readRanges (readMark ']' (readMark '^' members).2).2 = none := Option.map_eq_none_iff
  rw [ranges, readRanges_unclosed]
  constructor
  · intro open_
    exact ⟨_, leftInClass_iff.mpr rfl, open_⟩
  · rintro ⟨rest, left, open_⟩
    rwa [leftInClass_iff.mp left]

theorem readConversion_faults (body : Text w) :
    (readConversion body = .error .truncatedConversion ↔ LeftByMarks body []) ∧
      (readConversion body = .error .unterminatedClass ↔ ∃ opening members rest,
        LeftByMarks body (opening :: members) ∧ opening.is '[' = true ∧
        LeftInClass members rest ∧ ∀ unit ∈ rest, unit.is ']' = false) := by
  simp only [leftByMarks_iff]
  unfold readConversion
  simp only
  generalize (readModifier (readWidth (readMark '*' body).2).2).2 = left
  cases left with
  | nil => exact ⟨iff_of_true rfl rfl, iff_of_false nofun nofun⟩
  | cons letter more =>
    cases opens : letter.is '[' with
    | true =>
      simp only [opens, if_true]
      constructor
      · apply iff_of_false
        · split <;> exact nofun
        · exact nofun
      · have unclosed : (∃ opening members rest, letter :: more = opening :: members ∧
            opening.is '[' = true ∧ LeftInClass members rest ∧
            ∀ unit ∈ rest, unit.is ']' = false) ↔ readClass more = none := by
          rw [readClass_unclosed]
          constructor
          · rintro ⟨_, _, rest, same, -, left⟩
            cases same
            exact ⟨rest, left⟩
          · rintro ⟨rest, left⟩
            exact ⟨letter, more, rest, rfl, opens, left⟩
        rw [unclosed]
        cases readClass more with
        | none => exact iff_of_true rfl rfl
        | some found => exact iff_of_false nofun nofun
    | false =>
      simp only [opens, Bool.false_eq_true, if_false]
      constructor
      · apply iff_of_false
        · split <;> exact nofun
        · exact nofun
      · apply iff_of_false
        · split <;> exact nofun
        · rintro ⟨_, _, _, same, bracket, -⟩
          cases same
          rw [opens] at bracket
          cases bracket

theorem readDirective_faults {text : Text w} (going : text ≠ []) :
    (readDirective text = .error .truncatedConversion ↔ IsTruncated text) ∧
      (readDirective text = .error .unterminatedClass ↔ IsUnclosed text) := by
  obtain ⟨first, more, rfl⟩ := List.exists_cons_of_ne_nil going
  cases percent : first.is '%' with
  | true =>
    have visible : ¬ first.isSpace = true := by
      intro space
      rw [isSpace_percent space] at percent
      cases percent
    obtain ⟨truncated, unclosed⟩ := readConversion_faults more
    have read : readDirective (first :: more) = readConversion more := by
      rw [readDirective, if_neg visible, if_pos percent]
    rw [read, truncated, unclosed]
    constructor
    · constructor
      · exact fun left => ⟨first, more, rfl, percent, left⟩
      · rintro ⟨_, _, same, -, left⟩
        cases same
        exact left
    · constructor
      · rintro ⟨opening, members, rest, left⟩
        exact ⟨first, more, opening, members, rest, rfl, percent, left⟩
      · rintro ⟨_, _, opening, members, rest, same, -, left⟩
        cases same
        exact ⟨opening, members, rest, left⟩
  | false =>
    have reads : ∀ fault, readDirective (first :: more) ≠ .error fault := by
      intro fault
      rw [readDirective]
      split
      · rintro ⟨⟩
      · rw [percent, if_neg Bool.false_ne_true]
        rintro ⟨⟩
    have other {body : Text w} {sign : CodeUnit w} (same : first :: more = sign :: body) :
        ¬ sign.is '%' = true := by
      cases same
      exact Bool.eq_false_iff.mp percent
    constructor
    · apply iff_of_false (reads _)
      rintro ⟨_, _, same, sign, -⟩
      exact other same sign
    · apply iff_of_false (reads _)
      rintro ⟨_, _, _, _, _, same, sign, -⟩
      exact other same sign

theorem readDirective_percentSign {text : Text w} {fault : FormatFault} (going : text ≠ [])
    (failed : readDirective text = .error fault) :
    ∃ percent body, text = percent :: body ∧ percent.is '%' = true := by
  obtain ⟨truncated, unclosed⟩ := readDirective_faults going
  cases fault with
  | truncatedConversion =>
    obtain ⟨percent, body, same, sign, -⟩ := truncated.mp failed
    exact ⟨percent, body, same, sign⟩
  | unterminatedClass =>
    obtain ⟨percent, body, _, _, _, same, sign, -⟩ := unclosed.mp failed
    exact ⟨percent, body, same, sign⟩

theorem Tiles.stops {whole : Text w} {start last : Nat} {steps : List (Directive × Nat)}
    (tiles : Tiles whole start steps last) :
    (steps.getLast?.map Prod.snd).getD start = last := by
  induction tiles with
  | done offset => rfl
  | step forward inside read later ih =>
    rename_i start stop last directive steps
    rw [List.getLast?_cons, ← ih]
    cases steps.getLast? <;> rfl

/-- The directives tile the format up to its end, or up to where the error was read. -/
theorem readFrom_tiles (whole : Text w) (offset : Nat) (text : Text w)
    (here : whole.drop offset = text) (inside : offset ≤ whole.length) :
    ∃ last, Tiles whole offset (readFrom offset text).steps last ∧
      ((readFrom offset text).error = none → last = whole.length) ∧
      (∀ error, (readFrom offset text).error = some error → error.offset = last ∧
        whole.drop last ≠ [] ∧ readDirective (whole.drop last) = .error error.fault) := by
  fun_induction readFrom offset text with
  | case1 offset text ends =>
    obtain rfl := List.isEmpty_iff.mp ends
    have length := congrArg List.length here
    rw [List.length_drop, List.length_nil] at length
    refine ⟨offset, .done offset, fun _ => by omega, ?_⟩
    rintro error ⟨⟩
  | case2 offset text going fault failed =>
    refine ⟨offset, .done offset, fun none => absurd none (Option.some_ne_none _), ?_⟩
    rintro error ⟨⟩
    rw [here]
    exact ⟨rfl, by simpa using going, failed⟩
  | case3 offset text going directive rest read stop later ih =>
    have shorter := readDirective_length read
    have length := congrArg List.length here
    rw [List.length_drop] at length
    obtain ⟨front, split, -⟩ := readDirective_local read
    -- The next directive is read where this one stopped.
    have left : whole.drop stop = rest := by
      have cut : text.drop (text.length - rest.length) = rest := by
        rw [split, List.length_append, Nat.add_sub_cancel, List.drop_left]
      rw [← List.drop_drop, here, cut]
    obtain ⟨last, tiles, sound, failed⟩ := ih left (by omega)
    refine ⟨last, .step (by omega) (by omega) ?_ tiles, sound, failed⟩
    rw [here, left]
    exact read

theorem next_ok {walk : Walk w} {directive : Directive} {rest : Text w}
    (read : readDirective walk.rest = .ok (directive, rest)) :
    walk.next =
      some (.ok directive, ⟨rest, walk.offset + (walk.rest.length - rest.length)⟩) := by
  have going : ¬ walk.rest.isEmpty = true := by
    intro ends
    rw [List.isEmpty_iff.mp ends] at read
    cases read
  rw [Walk.next, if_neg going, read]

theorem next_error {walk : Walk w} {fault : FormatFault} (going : walk.rest ≠ [])
    (failed : readDirective walk.rest = .error fault) :
    walk.next = some (.error ⟨fault, walk.offset⟩, ⟨[], walk.offset⟩) := by
  rw [Walk.next, if_neg (by simpa using going), failed]

theorem readFrom_yields (offset : Nat) (text : Text w) :
    Walk.Yields ⟨text, offset⟩ (readFrom offset text).items := by
  fun_induction readFrom offset text with
  | case1 offset text ends => exact .ended (if_pos ends)
  | case2 offset text going fault failed =>
    have found : Walk.next ⟨text, offset⟩ = some (.error ⟨fault, offset⟩, ⟨[], offset⟩) :=
      next_error (by simpa using going) failed
    exact .item found (.ended rfl)
  | case3 offset text going directive rest read stop later ih =>
    have found : Walk.next ⟨text, offset⟩ = some (.ok directive, ⟨rest, stop⟩) := next_ok read
    exact .item found ih

theorem next_item {walk : Walk w} (going : walk.rest ≠ []) :
    ∃ item after, walk.next = some (item, after) ∧
      (item = .error ⟨.truncatedConversion, walk.offset⟩ ↔ IsTruncated walk.rest) ∧
      (item = .error ⟨.unterminatedClass, walk.offset⟩ ↔ IsUnclosed walk.rest) ∧
      (¬ IsTruncated walk.rest → ¬ IsUnclosed walk.rest →
        ∃ directive, item = .ok directive ∧ walk.offset < after.offset) ∧
      (∀ error, item = .error error → error.offset = walk.offset ∧ after.offset = walk.offset ∧
        after.next = none) := by
  obtain ⟨truncated, unclosed⟩ := readDirective_faults going
  cases read : readDirective walk.rest with
  | ok found =>
    obtain ⟨directive, rest⟩ := found
    have shorter := readDirective_length read
    rw [read] at truncated unclosed
    refine ⟨_, _, next_ok read, ?_, ?_, ?_, nofun⟩
    · exact iff_of_false nofun fun fault => nomatch truncated.mpr fault
    · exact iff_of_false nofun fun fault => nomatch unclosed.mpr fault
    · exact fun _ _ => ⟨directive, rfl, Nat.lt_add_of_pos_right (by omega)⟩
  | error fault =>
    rw [read] at truncated unclosed
    refine ⟨_, _, next_error going read, ?_, ?_, ?_, ?_⟩
    · rw [← truncated]
      simp
    · rw [← unclosed]
      simp
    · intro whole closed
      cases fault with
      | truncatedConversion => exact absurd (truncated.mp rfl) whole
      | unterminatedClass => exact absurd (unclosed.mp rfl) closed
    · rintro error ⟨⟩
      exact ⟨rfl, rfl, rfl⟩

theorem collect_items (steps : List (Directive × Nat)) (items : List (Item × Nat)) :
    (steps.map (fun step => ((.ok step.1 : Item), step.2)) ++ items).mapM Prod.fst =
      (items.mapM Prod.fst).map (steps.map Prod.fst ++ ·) := by
  induction steps with
  | nil =>
    rw [List.map_nil, List.nil_append]
    cases items.mapM Prod.fst <;> rfl
  | cons step steps ih =>
    rw [List.map_cons, List.cons_append, List.mapM_cons, ih]
    cases items.mapM Prod.fst <;> rfl

theorem parse_items (format : Text w) :
    parse format = (read format).items.mapM Prod.fst := by
  rw [parse, Reading.items, collect_items]
  cases (read format).error with
  | none => exact congrArg Except.ok (List.append_nil _).symm
  | some error => rfl

/-- A walk through a format meets directives that tile it and at most one error. The error is
the last item, stands at a percent sign and moves nothing; it is met exactly where the marks
behind a percent sign end the format or stand before a class that is not closed. Reading the
whole format collects the directives or gives the error. -/
theorem format_walked (format : Text w) :
    let text := format.beforeNul
    let reading := read format
    (Walk.start format).Yields reading.items ∧
    parse format = reading.items.mapM Prod.fst ∧
    Tiles text 0 reading.steps reading.stop ∧
    (reading.error = none → reading.stop = text.length) ∧
    (∀ error, reading.error = some error → error.offset = reading.stop ∧
      ∃ percent body, text.drop error.offset = percent :: body ∧ percent.is '%' = true) ∧
    ∀ walk : Walk w, walk.rest ≠ [] → ∃ item after, walk.next = some (item, after) ∧
      (item = .error ⟨.truncatedConversion, walk.offset⟩ ↔ IsTruncated walk.rest) ∧
      (item = .error ⟨.unterminatedClass, walk.offset⟩ ↔ IsUnclosed walk.rest) ∧
      (¬ IsTruncated walk.rest → ¬ IsUnclosed walk.rest →
        ∃ directive, item = .ok directive ∧ walk.offset < after.offset) ∧
      (∀ error, item = .error error → error.offset = walk.offset ∧ after.offset = walk.offset ∧
        after.next = none) := by
  intro text reading
  obtain ⟨last, tiles, sound, failed⟩ :=
    readFrom_tiles text 0 text rfl (Nat.zero_le _)
  have stop : reading.stop = last := tiles.stops
  rw [stop]
  refine ⟨readFrom_yields 0 text, parse_items format, tiles, sound, ?_, fun _ => next_item⟩
  intro error found
  obtain ⟨offset, going, faulty⟩ := failed error found
  rw [offset]
  exact ⟨rfl, readDirective_percentSign going faulty⟩

end Format

end FormattedInput
