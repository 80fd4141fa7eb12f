import FormattedInput.CodeUnit

/-!
Where a scan's units come from. A source shows its next unit before it is
consumed and takes back units that were consumed but not wanted. Looking is an
operation of its own: on a stream it may read, and an end of input met while
looking need not last. -/
namespace FormattedInput

/-- The supply bounds how many units are still to come. It shrinks whenever a unit
that was seen is consumed, so a loop that consumes comes to an end. -/
class UnitSource (σ : Type) (w : outParam Width) where
  peek : σ → Option (CodeUnit w) × σ
  consume : σ → σ
  putBack : CodeUnit w → σ → σ
  supply : σ → Nat
  supply_consume : ∀ {source seen : σ} {c : CodeUnit w},
    peek source = (some c, seen) → supply (consume seen) < supply source

end FormattedInput
