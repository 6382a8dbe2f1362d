import Mathlib.Logic.Function.Basic
import Mathlib.Tactic.TypeStar

/-!
# Members that share a table

Each member of a group puts a token of its own into a shared table, under a key, and later
clears that entry. The table is read and cleared by key alone, so the entry a member finds
is its own token only where no two members use one key at the same time.
-/

/-- A table, and the token each member has put there and not yet cleared. -/
structure Slots (κ μ γ : Type*) where
  /-- The table. -/
  table : κ → Option γ
  /-- The tokens of the members. -/
  held : μ → Option γ

namespace Slots

variable {κ μ γ : Type*} [DecidableEq κ] [DecidableEq μ] (key : μ → κ)

/-- A member puts a token into the table. -/
def claim (s : Slots κ μ γ) (m : μ) (c : γ) : Slots κ μ γ where
  table := Function.update s.table (key m) (some c)
  held := Function.update s.held m (some c)

/-- A member clears its entry. -/
def release (s : Slots κ μ γ) (m : μ) : Slots κ μ γ where
  table := Function.update s.table (key m) none
  held := Function.update s.held m none

/-- **Every entry of the table is the token of one member**, put there under its key. -/
structure Owned (s : Slots κ μ γ) : Prop where
  /-- What a member holds is in the table. -/
  entry : ∀ m c, s.held m = some c → s.table (key m) = some c
  /-- What is in the table is held. -/
  holder : ∀ k c, s.table k = some c → ∃ m, key m = k ∧ s.held m = some c
  /-- A token is held once. -/
  once : ∀ m m' c, s.held m = some c → s.held m' = some c → m = m'

section Entries

variable (s : Slots κ μ γ) (m m' : μ) (c : γ) (k : κ)

/-- Who holds what after a claim. -/
theorem claim_held : (s.claim key m c).held m' = if m' = m then some c else s.held m' :=
  Function.update_apply ..

/-- The table after a claim. -/
theorem claim_table : (s.claim key m c).table k = if k = key m then some c else s.table k :=
  Function.update_apply ..

/-- Who holds what after a release. -/
theorem release_held : (s.release key m).held m' = if m' = m then none else s.held m' :=
  Function.update_apply ..

/-- The table after a release. -/
theorem release_table : (s.release key m).table k = if k = key m then none else s.table k :=
  Function.update_apply ..

end Entries

variable {key} {s : Slots κ μ γ} {m m' : μ} {c c' : γ}

omit [DecidableEq κ] [DecidableEq μ] in
/-- Two members that hold tokens under one key are the same. -/
theorem Owned.eq_of_key (h : Owned key s) (hm : s.held m = some c) (hm' : s.held m' = some c')
    (hkey : key m = key m') : m = m' := by
  have hentry := h.entry m c hm
  rw [hkey, h.entry m' c' hm'] at hentry
  obtain rfl := Option.some.inj hentry
  exact h.once m m' _ hm hm'

/-- **A new token may be claimed** under a key that no other member uses. -/
theorem Owned.claim (h : Owned key s) (hnew : ∀ m', s.held m' ≠ some c)
    (hfree : ∀ m', m' ≠ m → key m' = key m → s.held m' = none) :
    Owned key (s.claim key m c) := by
  refine ⟨?_, ?_, ?_⟩
  · intro m' c' hm'
    rw [claim_held] at hm'
    rw [claim_table]
    split at hm'
    · next heq => rw [if_pos (by rw [heq]), hm']
    · next hne =>
      have hkey : key m' ≠ key m := by
        intro hkey
        rw [hfree m' hne hkey] at hm'
        cases hm'
      rw [if_neg hkey]
      exact h.entry m' c' hm'
  · intro k c' hk
    rw [claim_table] at hk
    split at hk
    · next heq => exact ⟨m, heq.symm, by rw [claim_held, if_pos rfl, hk]⟩
    · next hne =>
      obtain ⟨m', hkey, hm'⟩ := h.holder k c' hk
      have hother : m' ≠ m := by
        rintro rfl
        exact hne hkey.symm
      exact ⟨m', hkey, by rw [claim_held, if_neg hother, hm']⟩
  · intro m₁ m₂ c' h₁ h₂
    rw [claim_held] at h₁ h₂
    split at h₁ <;> split at h₂
    · next heq₁ heq₂ => exact heq₁.trans heq₂.symm
    · rw [← h₁] at h₂
      exact absurd h₂ (hnew m₂)
    · rw [← h₂] at h₁
      exact absurd h₁ (hnew m₁)
    · exact h.once m₁ m₂ c' h₁ h₂

/-- **A member may clear** the entry it holds. -/
theorem Owned.release (h : Owned key s) (hm : s.held m = some c) :
    Owned key (s.release key m) := by
  refine ⟨?_, ?_, ?_⟩
  · intro m' c' hm'
    rw [release_held] at hm'
    rw [release_table]
    split at hm'
    · cases hm'
    · next hne =>
      have hkey : key m' ≠ key m := fun hkey => hne (h.eq_of_key hm' hm hkey)
      rw [if_neg hkey]
      exact h.entry m' c' hm'
  · intro k c' hk
    rw [release_table] at hk
    split at hk
    · cases hk
    · next hne =>
      obtain ⟨m', hkey, hm'⟩ := h.holder k c' hk
      have hother : m' ≠ m := by
        rintro rfl
        exact hne hkey.symm
      exact ⟨m', hkey, by rw [release_held, if_neg hother, hm']⟩
  · intro m₁ m₂ c' h₁ h₂
    rw [release_held] at h₁ h₂
    split at h₁ <;> split at h₂
    all_goals first | cases h₁ | cases h₂ | exact h.once m₁ m₂ c' h₁ h₂

omit [DecidableEq κ] [DecidableEq μ] in
/-- An empty table is owned. -/
theorem owned_empty : Owned key (⟨fun _ => none, fun _ => none⟩ : Slots κ μ γ) :=
  ⟨fun _ _ h => (by cases h), fun _ _ h => (by cases h), fun _ _ _ h => (by cases h)⟩

end Slots
