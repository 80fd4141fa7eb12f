import FormattedInput.Proofs.Lockstep

namespace FormattedInput

variable {w : Width}

inductive Use (w : Width) where
  | look
  | consume
  | putBack (unit : CodeUnit w)
deriving DecidableEq

/-- A counted source with a record of its uses, each with the state it was made in. -/
structure Recorded (σ : Type) (w : Width) where
  input : Counted σ
  record : List (Counted σ × Use w)
deriving DecidableEq

namespace Recorded

variable {σ : Type}

def ofSource (w : Width) (source : σ) : Recorded σ w := ⟨⟨source, 0⟩, []⟩

def note (use : Use w) (after : Counted σ) (recorded : Recorded σ w) : Recorded σ w :=
  ⟨after, recorded.record ++ [(recorded.input, use)]⟩

def moments (recorded : Recorded σ w) : List σ :=
  recorded.record.map (fun entry => entry.1.source) ++ [recorded.input.source]

theorem mem_note {use : Use w} {after : Counted σ} {recorded : Recorded σ w}
    {entry : Counted σ × Use w} (member : entry ∈ (recorded.note use after).record) :
    entry ∈ recorded.record ∨ entry = (recorded.input, use) :=
  (List.mem_append.mp member).imp_right List.mem_singleton.mp

theorem record_note (use : Use w) (after : Counted σ) (recorded : Recorded σ w) :
    recorded.record ⊆ (recorded.note use after).record :=
  List.subset_append_left _ _

theorem getLast?_note (use : Use w) (after : Counted σ) (recorded : Recorded σ w) :
    (recorded.note use after).record.getLast? = some (recorded.input, use) :=
  List.getLast?_concat

/-- An invariant that holds now and at every use that was recorded. -/
def Always (holds : Dealings w → σ → Prop) (deal : Dealings w) (recorded : Recorded σ w) : Prop :=
  holds deal recorded.input.source ∧ ∀ entry ∈ recorded.record, ∃ deal, holds deal entry.1.source

theorem Always.note {holds : Dealings w → σ → Prop} {deal further : Dealings w}
    {recorded : Recorded σ w} (always : Always holds deal recorded) (use : Use w)
    {after : Counted σ} (held : holds further after.source) :
    Always holds further (recorded.note use after) := by
  refine ⟨held, fun entry member => ?_⟩
  rcases mem_note member with earlier | rfl
  · exact always.2 entry earlier
  · exact ⟨deal, always.1⟩

variable [UnitSource σ w]

instance : UnitSource (Recorded σ w) w where
  peek recorded := (recorded.input.peek.1, recorded.note .look recorded.input.peek.2)
  consume recorded := recorded.note .consume recorded.input.consume
  putBack unit recorded := recorded.note (.putBack unit) (recorded.input.putBack unit)
  supply recorded := UnitSource.supply recorded.input.source
  supply_consume := by
    intro recorded seen unit looked
    obtain ⟨shown, rfl⟩ := Prod.mk.inj looked
    exact UnitSource.supply_consume (Prod.ext shown rfl)

theorem erases : Lockstep fun (_ : Dealings w) (recorded : Recorded σ w) (source : σ) =>
    recorded.input.source = source where
  peek := by
    rintro deal recorded _ rfl
    exact ⟨rfl, rfl⟩
  consume := by
    rintro earlier taken recorded seen _ seen' unit rfl looked looked'
    obtain ⟨-, rfl⟩ := Prod.mk.inj looked
    obtain ⟨-, rfl⟩ := Prod.mk.inj looked'
    rfl
  putBack := by
    rintro earlier taken returned unit recorded _ few rfl
    rfl
  settle := by
    rintro deal recorded _ rfl
    rfl

theorem scan_erased (task : Task w) (source : σ) :
    (task.scan (ofSource w source)).report = (task.scan source).report ∧
      (task.scan (ofSource w source)).slots = (task.scan source).slots ∧
      (task.scan (ofSource w source)).source.input.source = (task.scan source).source := by
  have started : (ofSource w source).input.source = source := rfl
  obtain ⟨report, stored, -, -, same⟩ :=
    scan_lockstep erases task.rules task.format task.slots started
  exact ⟨report, stored, same⟩

variable {holds : Dealings w → σ → Prop}

theorem always_keeps (keeps : Keeps holds) : Keeps (Always holds) where
  peek := by
    intro deal recorded always
    exact always.note .look (keeps.peek always.1)
  consume := by
    intro earlier taken recorded seen unit always looked
    obtain ⟨shown, rfl⟩ := Prod.mk.inj looked
    have looked : Always holds _ (recorded.note .look recorded.input.peek.2) :=
      always.note .look (keeps.peek always.1)
    exact looked.note .consume (keeps.consume always.1 (Prod.ext shown rfl))
  putBack := by
    intro earlier taken returned unit recorded few always
    exact always.note (.putBack unit) (keeps.putBack few always.1)
  settle := by
    intro deal recorded always
    exact ⟨keeps.settle always.1, always.2⟩

theorem scan_always (keeps : Keeps holds) (task : Task w) {source : σ}
    (held : holds (.fresh []) source) :
    ∀ moment ∈ (task.scan (ofSource w source)).source.moments, ∃ deal, holds deal moment := by
  have started : Always holds (.fresh []) (ofSource w source) := ⟨held, nofun⟩
  obtain ⟨kept, -, now, before⟩ :=
    scan_keeps (always_keeps keeps) task.rules task.format task.slots started
  intro moment member
  rcases List.mem_append.mp member with earlier | last
  · obtain ⟨entry, recorded, rfl⟩ := List.mem_map.mp earlier
    exact before entry recorded
  · obtain rfl := List.mem_singleton.mp last
    exact ⟨_, now⟩

end Recorded

end FormattedInput
