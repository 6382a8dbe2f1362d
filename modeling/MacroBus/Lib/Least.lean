import Mathlib.Order.Lattice
import Mathlib.Data.List.Perm.Basic

/-!
# Keeping the least

A held value is replaced by an offered one of lower rank, and by no other. What is held
after a list of offers depends on their order only where two values of the same rank are
offered and no lower one is offered or held.
-/

namespace Least

variable {α : Type*} {β : Type*} [LinearOrder β] (rank : α → β)

/-- What is held after one offer. -/
def keep (held : Option α) (a : α) : Option α :=
  match held with
  | none => some a
  | some b => if rank a < rank b then some a else some b

/-- What is held after these offers. -/
def keepAll (held : Option α) (offers : List α) : Option α := offers.foldl (keep rank) held

/-- The value ranks lower than the one held. -/
def Below (held : Option α) (a : α) : Prop := ∀ b ∈ held, rank a < rank b

/-- No two different offers share the lowest rank, if that is below the value held. -/
def NoTies (held : Option α) (offers : List α) : Prop :=
  ∀ a ∈ offers, ∀ b ∈ offers, rank a = rank b → (∀ c ∈ offers, rank a ≤ rank c) →
    Below rank held a → a = b

variable {rank} {held : Option α} {offers : List α} {a b : α}

/-- A value of the lowest rank stays. -/
theorem keepAll_some_of_le (hle : ∀ b ∈ offers, rank a ≤ rank b) :
    keepAll rank (some a) offers = some a := by
  induction offers with
  | nil => rfl
  | cons b offers ih =>
    have hkeep : keep rank (some a) b = some a := if_neg (hle b List.mem_cons_self).not_gt
    unfold keepAll at ih ⊢
    rw [List.foldl_cons, hkeep]
    exact ih fun c hc => hle c (List.mem_cons_of_mem b hc)

/-- A value of the lowest rank wins if it is offered first. -/
theorem keepAll_cons_of_le (hbelow : Below rank held a) (hle : ∀ b ∈ offers, rank a ≤ rank b) :
    keepAll rank held (a :: offers) = some a := by
  have hkeep : keep rank held a = some a := by
    cases held with
    | none => rfl
    | some b => exact if_pos (hbelow b rfl)
  have hrest := keepAll_some_of_le hle
  unfold keepAll at hrest ⊢
  rw [List.foldl_cons, hkeep, hrest]

/-- **What is held in the end** is what was held, if no offer ranks lower, or an offer of the
lowest rank. -/
theorem keepAll_cases (rank : α → β) (held : Option α) (offers : List α) :
    keepAll rank held offers = held ∧ (∀ b ∈ offers, ¬Below rank held b) ∨
      ∃ a ∈ offers, keepAll rank held offers = some a ∧ (∀ b ∈ offers, rank a ≤ rank b) ∧
        Below rank held a := by
  induction offers generalizing held with
  | nil => exact Or.inl ⟨rfl, fun b hb => by cases hb⟩
  | cons b offers ih =>
    have hnext : keepAll rank held (b :: offers) = keepAll rank (keep rank held b) offers := rfl
    rw [hnext]
    by_cases hb : Below rank held b
    · have hkeep : keep rank held b = some b := by
        cases held with
        | none => rfl
        | some a => exact if_pos (hb a rfl)
      rw [hkeep]
      refine Or.inr ?_
      rcases ih (some b) with ⟨hheld, hnone⟩ | ⟨a, ha, hheld, hle, hbelow⟩
      · refine ⟨b, List.mem_cons_self, hheld, fun c hc => ?_, hb⟩
        rcases List.mem_cons.mp hc with rfl | hc
        · exact le_rfl
        · have hnot := hnone c hc
          simp only [Below, Option.mem_some_iff, forall_eq'] at hnot
          exact not_lt.mp hnot
      · have hab : rank a < rank b := hbelow b rfl
        refine ⟨a, List.mem_cons_of_mem b ha, hheld, fun c hc => ?_, fun d hd => hab.trans (hb d hd)⟩
        rcases List.mem_cons.mp hc with rfl | hc
        · exact hab.le
        · exact hle c hc
    · obtain ⟨d, rfl⟩ : ∃ d, held = some d := by
        cases held with
        | none => exact absurd (fun _ h => by cases h) hb
        | some d => exact ⟨d, rfl⟩
      have hdb : ¬rank b < rank d := fun hlt => hb fun c hc => by
        rwa [← Option.some.inj hc]
      have hkeep : keep rank (some d) b = some d := if_neg hdb
      rw [hkeep]
      rcases ih (some d) with ⟨hheld, hnone⟩ | ⟨a, ha, hheld, hle, hbelow⟩
      · refine Or.inl ⟨hheld, fun c hc => ?_⟩
        rcases List.mem_cons.mp hc with rfl | hc
        · exact hb
        · exact hnone c hc
      · refine Or.inr ⟨a, List.mem_cons_of_mem b ha, hheld, fun c hc => ?_, hbelow⟩
        rcases List.mem_cons.mp hc with rfl | hc
        · exact (hbelow d rfl).le.trans (not_lt.mp hdb)
        · exact hle c hc

/-- **Without ties neither order nor repetition matters.** -/
theorem NoTies.keepAll_congr (hties : NoTies rank held offers) {offers' : List α}
    (hsame : ∀ a, a ∈ offers' ↔ a ∈ offers) :
    keepAll rank held offers' = keepAll rank held offers := by
  rcases keepAll_cases rank held offers with ⟨hheld, hnone⟩ | ⟨a, ha, hheld, hle, hbelow⟩
  · rcases keepAll_cases rank held offers' with ⟨hheld', _⟩ | ⟨b, hb, _, _, hbelow'⟩
    · rw [hheld, hheld']
    · exact absurd hbelow' (hnone b ((hsame b).mp hb))
  · rcases keepAll_cases rank held offers' with ⟨_, hnone'⟩ | ⟨b, hb, hheld', hle', _⟩
    · exact absurd hbelow (hnone' a ((hsame a).mpr ha))
    · have hb' := (hsame b).mp hb
      have hrank : rank a = rank b := le_antisymm (hle b hb') (hle' a ((hsame a).mpr ha))
      rw [hheld, hheld', hties a ha b hb' hrank hle hbelow]

end Least
