import Mathlib.Algebra.BigOperators.Group.Finset.Basic
import Mathlib.Data.Fintype.Defs
import Mathlib.Data.Fintype.EquivFin
import Mathlib.Order.WellFounded

/-!
# Weights along an acyclic relation

On a finite type, a relation without cycles comes to an end everywhere. So everything can
be given a weight that pays for a fixed cost and for all that follows from it.
-/

namespace Weights

variable {E : Type*} [Fintype E] {R : E → E → Prop}

/-- Without cycles there is no endless chain. -/
theorem wellFounded_of_acyclic (hacyclic : ∀ e, ¬Relation.TransGen R e e) :
    WellFounded fun e' e => R e e' := by
  have hirrefl : Std.Irrefl fun e' e => Relation.TransGen R e e' := ⟨hacyclic⟩
  have htrans : IsTrans E fun e' e => Relation.TransGen R e e' :=
    ⟨fun _ _ _ h h' => h'.trans h⟩
  have hwf : WellFounded fun e' e => Relation.TransGen R e e' :=
    Finite.wellFounded_of_trans_of_irrefl _
  exact hwf.mono fun _ _ h => Relation.TransGen.single h

/-- **Weights that pay for what follows**: everything weighs the cost and, besides, as much
as all its successors together. -/
theorem exists_weight [DecidableRel R] (hacyclic : ∀ e, ¬Relation.TransGen R e e) (cost : ℕ) :
    ∃ w : E → ℕ, ∀ e, w e = cost + ∑ e' with R e e', w e' := by
  have hwf := wellFounded_of_acyclic hacyclic
  let w : E → ℕ := hwf.fix fun e w => cost + ∑ e' : {e' // R e e'}, w e'.1 e'.2
  have hfix : ∀ e, w e = cost + ∑ e' : {e' // R e e'}, w e'.1 := fun e => hwf.fix_eq _ e
  refine ⟨w, fun e => ?_⟩
  have hsum : ∑ e' with R e e', w e' = ∑ e' : {e' // R e e'}, w e'.1 :=
    Finset.sum_subtype _ (fun e' => by simp) w
  rw [hfix, hsum]

end Weights
