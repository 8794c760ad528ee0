import Mathlib.Data.Finset.Card
import Mathlib.Data.Finset.Range
import Mathlib.Logic.Relation

/-!
# Relations without cycles

Assets use each other and layers move into each other; both relations relate finitely
many places and lead from none of them back to it.  The number of descendants of a place
then falls with every step (`card_descendants_lt`), so a descent has no more levels than
there are places.
-/

namespace MotionScene

open Relation

variable {related : Nat → Nat → Prop} {bound : Nat}

/-- No place leads back to itself. -/
def NoCycle (related : Nat → Nat → Prop) : Prop :=
  ∀ place, ¬ TransGen related place place

theorem NoCycle.swap (acyclic : NoCycle related) : NoCycle (Function.swap related) := by
  intro place cycle
  exact acyclic place (transGen_swap.mp cycle)

open Classical in
/-- The places below a bound that a place leads to. -/
noncomputable def descendants (related : Nat → Nat → Prop) (bound place : Nat) : Finset Nat :=
  (Finset.range bound).filter (TransGen related place)

theorem mem_descendants {place other : Nat} :
    other ∈ descendants related bound place ↔ other < bound ∧ TransGen related place other := by
  classical
  simp [descendants]

/-- A place has fewer descendants than one that it is related to. -/
theorem card_descendants_lt (acyclic : NoCycle related) {place other : Nat}
    (hother : other < bound) (hrelated : related place other) :
    (descendants related bound other).card < (descendants related bound place).card := by
  refine Finset.card_lt_card ((Finset.ssubset_iff_of_subset fun last hlast => ?_).mpr
    ⟨other, ?_, ?_⟩)
  · obtain ⟨hlt, hleads⟩ := mem_descendants.mp hlast
    exact mem_descendants.mpr ⟨hlt, .head hrelated hleads⟩
  · exact mem_descendants.mpr ⟨hother, .single hrelated⟩
  · exact fun hself => acyclic other (mem_descendants.mp hself).2

theorem card_descendants_lt_bound (acyclic : NoCycle related) {place : Nat}
    (hplace : place < bound) : (descendants related bound place).card < bound := by
  calc (descendants related bound place).card
      < (Finset.range bound).card := by
        refine Finset.card_lt_card ((Finset.ssubset_iff_of_subset fun other hother => ?_).mpr
          ⟨place, Finset.mem_range.mpr hplace, ?_⟩)
        · exact Finset.mem_range.mpr (mem_descendants.mp hother).1
        · exact fun hself => acyclic place (mem_descendants.mp hself).2
    _ = bound := Finset.card_range _

end MotionScene
