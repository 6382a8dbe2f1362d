import Mathlib.Algebra.Order.Ring.Defs
import Mathlib.Algebra.Order.GroupWithZero.OrderIso

/-!
# Doubling up to a limit

A delay that starts at a base and is doubled after each use, never over a limit. The base
itself may be over the limit: it is the first delay all the same.
-/

namespace Doubling

variable {α : Type*} [Semiring α] [LinearOrder α]

/-- The delay after `k` doublings. -/
def delay (base limit : α) : ℕ → α
  | 0 => base
  | k + 1 => min (delay base limit k * 2) limit

variable {base limit : α} {k : ℕ}

/-- Without a doubling the delay is the base. -/
@[simp]
theorem delay_zero : delay base limit 0 = base := rfl

/-- One more doubling. -/
theorem delay_succ : delay base limit (k + 1) = min (delay base limit k * 2) limit := rfl

/-- A doubled delay is within the limit. -/
theorem delay_succ_le : delay base limit (k + 1) ≤ limit := min_le_right _ _

/-- **No delay exceeds both** the base and the limit. -/
theorem delay_le_max (base limit : α) (k : ℕ) : delay base limit k ≤ max base limit := by
  cases k with
  | zero => exact le_max_left _ _
  | succ k => exact delay_succ_le.trans (le_max_right _ _)

variable [IsStrictOrderedRing α]

/-- No delay is below both the base and the limit. -/
theorem min_le_delay (hbase : 0 ≤ base) (hlimit : 0 ≤ limit) (k : ℕ) :
    min base limit ≤ delay base limit k := by
  induction k with
  | zero => exact min_le_left _ _
  | succ k ih =>
    have hnonneg : 0 ≤ delay base limit k := (le_min hbase hlimit).trans ih
    have htwice := le_mul_of_one_le_right hnonneg one_le_two
    exact le_min (ih.trans htwice) (min_le_right _ _)

/-- **A doubled delay is the base** only where the limit is. -/
theorem delay_eq_base_iff (hbase : 0 < base) (hlimit : 0 < limit) :
    delay base limit k = base ↔ k = 0 ∨ base = limit := by
  cases k with
  | zero => simp
  | succ k =>
    have hleast := min_le_delay hbase.le hlimit.le k
    have hpos : 0 < delay base limit k := (lt_min hbase hlimit).trans_le hleast
    have htwice := lt_mul_of_one_lt_right hpos one_lt_two
    rw [delay_succ]
    constructor
    · intro h
      right
      rcases lt_trichotomy base limit with hlt | heq | hgt
      · -- Twice a delay of at least the base is more than the base.
        rw [min_eq_left hlt.le] at hleast
        have hmore : base < min (delay base limit k * 2) limit :=
          lt_min (hleast.trans_lt htwice) hlt
        exact absurd h hmore.ne'
      · exact heq
      · have hless : min (delay base limit k * 2) limit < base := (min_le_right _ _).trans_lt hgt
        exact absurd h hless.ne
    · rintro (h | rfl)
      · cases h
      · rw [min_self] at hleast
        exact min_eq_right (hleast.trans htwice.le)

end Doubling
