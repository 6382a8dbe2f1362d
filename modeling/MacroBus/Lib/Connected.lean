import Mathlib.Logic.Relation
import Mathlib.Order.Basic

/-!
# Strongly connected graphs

What is handed on along every edge of a strongly connected graph is everywhere.
-/

namespace Connected

variable {ι : Type*} {edge : ι → ι → Prop}

/-- Every node is reached from every other along the edges. -/
def StronglyConnected (edge : ι → ι → Prop) : Prop := ∀ i j, Relation.ReflTransGen edge i j

/-- A property handed on along edges holds wherever the edges lead. -/
theorem of_path {P : ι → Prop} (hedge : ∀ i j, edge i j → P i → P j) {i j : ι}
    (hpath : Relation.ReflTransGen edge i j) (hi : P i) : P j := by
  induction hpath with
  | refl => exact hi
  | tail _ hlast ih => exact hedge _ _ hlast ih

/-- A property handed on along edges holds everywhere or nowhere. -/
theorem StronglyConnected.everywhere (h : StronglyConnected edge) {P : ι → Prop}
    (hedge : ∀ i j, edge i j → P i → P j) {i : ι} (hi : P i) (j : ι) : P j :=
  of_path hedge (h i j) hi

/-- A value that never grows along an edge is the same everywhere. -/
theorem StronglyConnected.constant (h : StronglyConnected edge) {β : Type*} [PartialOrder β]
    {f : ι → β} (hedge : ∀ i j, edge i j → f j ≤ f i) (i j : ι) : f i = f j := by
  have hle : ∀ a b, f b ≤ f a := by
    intro a b
    refine h.everywhere (P := fun c => f c ≤ f a) ?_ (le_refl (f a)) b
    intro c d hcd hc
    exact (hedge c d hcd).trans hc
  exact le_antisymm (hle j i) (hle i j)

end Connected
