import Mathlib.Data.List.AList

/-!
# Mapping the values of an association list

The keys of an association list stay what they are when its values are mapped, so looking
up, inserting and listing commute with it.
-/

namespace AList

variable {α : Type*} {β : Type*} {γ : Type*} (f : β → γ) (s : AList fun _ : α => β)

/-- Map every value. -/
def mapVals : AList fun _ : α => γ where
  entries := s.entries.map (Sigma.map id fun _ => f)
  nodupKeys := List.NodupKeys.map₂ (fun _ => f) s.entries s.nodupKeys

/-- The keys stay. -/
@[simp]
theorem keys_mapVals : (s.mapVals f).keys = s.keys := List.map₂_keys (fun _ => f) s.entries

variable [DecidableEq α]

/-- The value of a key is mapped. -/
@[simp]
theorem lookup_mapVals (a : α) : (s.mapVals f).lookup a = (s.lookup a).map f :=
  List.dlookup_map₂ a

/-- Erasing a key. -/
theorem kerase_map (a : α) (l : List (Σ _ : α, β)) :
    (l.map (Sigma.map id fun _ => f) : List (Σ _ : α, γ)).kerase a =
      (l.kerase a).map (Sigma.map id fun _ => f) := by
  induction l with
  | nil => rfl
  | cons entry l ih =>
    by_cases h : a = entry.1
    · rw [List.map_cons, List.kerase_cons_eq (by exact h), List.kerase_cons_eq h]
    · rw [List.map_cons, List.kerase_cons_ne (by exact h), List.kerase_cons_ne h, List.map_cons, ih]

/-- **Inserting** a mapped value is mapping after the insertion. -/
theorem insert_mapVals (a : α) (b : β) :
    (s.mapVals f).insert a (f b) = (s.insert a b).mapVals f := by
  refine AList.ext ?_
  rw [entries_insert]
  unfold mapVals
  dsimp only
  rw [kerase_map, entries_insert, List.map_cons]
  rfl

end AList
