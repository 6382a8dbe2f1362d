import Mathlib.Data.Finset.Dedup
import MacroBus.Busd.Registry

/-!
# The seen-set as a sliding window

The seen-set keeps the ids in the order in which they were recorded and forgets the
oldest. What it holds is therefore the end of the list of all ids ever recorded.
-/

namespace MacroBus

namespace SeenSet

/-- The lookup set and the queue hold the same ids, each once, and no more than `cap`. -/
structure Wf (s : SeenSet) : Prop where
  /-- There is room for one id. -/
  pos : 1 ≤ s.cap
  /-- No id is queued twice. -/
  nodup : s.order.Nodup
  /-- The set is for lookup in the queue. -/
  set_eq : s.set = s.order.toFinset
  /-- The queue is bounded. -/
  length_le : s.order.length ≤ s.cap

/-- A new set is well formed. -/
theorem wf_new (cap : ℕ) : (new cap).Wf :=
  ⟨le_max_right _ _, List.nodup_nil, by simp [new], by simp [new]⟩

/-- Nothing is evicted up to the capacity. -/
theorem evict_of_le {cap : ℕ} (set : Finset Str) {order : List Str} (h : order.length ≤ cap) :
    evict cap set order = (set, order) := by
  cases order with
  | nil => rfl
  | cons old order => rw [evict, if_neg (by omega)]

/-- One id too many costs the oldest. -/
theorem evict_succ {cap : ℕ} (set : Finset Str) {old : Str} {order : List Str}
    (h : order.length = cap) : evict cap set (old :: order) = (set.erase old, order) := by
  rw [evict, if_pos (by rw [List.length_cons]; omega), evict_of_le _ (by omega)]

/-- Eviction only forgets. -/
theorem evict_subset (cap : ℕ) (set : Finset Str) (order : List Str) :
    (evict cap set order).1 ⊆ set := by
  induction order generalizing set with
  | nil => exact Finset.Subset.refl _
  | cons old order ih =>
    rw [evict]
    split
    · exact (ih _).trans (Finset.erase_subset _ _)
    · exact Finset.Subset.refl _

variable {s : SeenSet} {id : Str}

/-- Recording an id adds no other. -/
theorem mem_of_mem_insert {other : Str} (h : other ∈ (s.insert id).2.set) :
    other = id ∨ other ∈ s.set := by
  unfold SeenSet.insert at h
  split at h
  · exact Or.inr h
  · exact Finset.mem_insert.mp (evict_subset _ _ _ h)

/-- An id that is there is not recorded again. -/
theorem insert_of_mem (h : id ∈ s.set) : s.insert id = (false, s) := by
  rw [SeenSet.insert, if_pos h]

/-- Membership is membership in the queue. -/
theorem Wf.mem_set (h : s.Wf) : id ∈ s.set ↔ id ∈ s.order := by
  rw [h.set_eq, List.mem_toFinset]

/-- The last ids of a list, as many as the capacity. -/
def window (cap : ℕ) (recorded : List Str) : List Str := recorded.drop (recorded.length - cap)

/-- Recording one more id moves the window by one. -/
theorem window_append_singleton {cap : ℕ} (hpos : 1 ≤ cap) (recorded : List Str) (id : Str) :
    window cap (recorded ++ [id]) =
      (window cap recorded ++ [id]).drop ((window cap recorded).length + 1 - cap) := by
  unfold window
  rw [List.length_append, List.length_singleton, List.length_drop]
  by_cases hle : recorded.length + 1 ≤ cap
  · have h1 : recorded.length + 1 - cap = 0 := by omega
    have h2 : recorded.length - cap = 0 := by omega
    simp only [h1, h2, List.drop_zero, Nat.sub_zero]
  · have h1 : recorded.length - (recorded.length - cap) + 1 - cap = 1 := by omega
    have h2 : recorded.length + 1 - cap = recorded.length - cap + 1 := by omega
    rw [h1, h2, ← List.drop_drop, List.drop_append_of_le_length (by omega)]

/-- **Recording a new id.** It is appended to the queue, and the oldest id goes if the queue
was full. -/
theorem Wf.insert_of_notMem (h : s.Wf) (hid : id ∉ s.set) :
    ∃ s', s.insert id = (true, s') ∧ s'.Wf ∧ s'.cap = s.cap ∧
      s'.order = (s.order ++ [id]).drop (s.order.length + 1 - s.cap) := by
  have hnot : id ∉ s.order := h.mem_set.not.mp hid
  have hnodup : (s.order ++ [id]).Nodup := by
    rw [List.nodup_append_comm, List.singleton_append]
    exact List.nodup_cons.mpr ⟨hnot, h.nodup⟩
  have hset : Insert.insert id s.set = (s.order ++ [id]).toFinset := by
    rw [h.set_eq]
    ext x
    simp only [Finset.mem_insert, List.mem_toFinset, List.mem_append, List.mem_singleton, or_comm]
  have hinsert : s.insert id = (true, { s with
      set := (evict s.cap (Insert.insert id s.set) (s.order ++ [id])).1
      order := (evict s.cap (Insert.insert id s.set) (s.order ++ [id])).2 }) := by
    rw [SeenSet.insert, if_neg hid]
  have hlen := h.length_le
  by_cases hroom : s.order.length + 1 ≤ s.cap
  · have hevict := evict_of_le (Insert.insert id s.set)
      (show (s.order ++ [id]).length ≤ s.cap by rw [List.length_append, List.length_singleton]; omega)
    have hzero : s.order.length + 1 - s.cap = 0 := by omega
    rw [hevict] at hinsert
    refine ⟨_, hinsert, ⟨h.pos, hnodup, hset, ?_⟩, rfl, ?_⟩
    · rw [List.length_append, List.length_singleton]
      exact hroom
    · rw [hzero, List.drop_zero]
  · have hone : s.order.length + 1 - s.cap = 1 := by omega
    obtain ⟨old, rest, hcons⟩ : ∃ old rest, s.order ++ [id] = old :: rest :=
      List.exists_cons_of_ne_nil (by simp)
    have hrest : rest.length = s.cap := by
      have := congrArg List.length hcons
      rw [List.length_append, List.length_singleton, List.length_cons] at this
      omega
    rw [hcons, evict_succ _ hrest] at hinsert
    rw [hcons] at hnodup hset
    obtain ⟨hold, hnodup⟩ := List.nodup_cons.mp hnodup
    refine ⟨_, hinsert, ⟨h.pos, hnodup, ?_, hrest.le⟩, rfl, ?_⟩
    · ext x
      rw [hset]
      simp only [List.toFinset_cons, Finset.mem_erase, Finset.mem_insert, List.mem_toFinset]
      constructor
      · rintro ⟨hne, hx⟩
        exact hx.resolve_left hne
      · intro hx
        exact ⟨fun heq => hold (heq ▸ hx), Or.inr hx⟩
    · rw [hone, hcons, List.drop_one, List.tail_cons]

/-- A recorded window moves with the set. -/
theorem Wf.insert_window {recorded : List Str} (h : s.Wf)
    (horder : s.order = window s.cap recorded) (hid : id ∉ s.set) :
    ∃ s', s.insert id = (true, s') ∧ s'.Wf ∧ s'.cap = s.cap ∧
      s'.order = window s.cap (recorded ++ [id]) := by
  obtain ⟨s', hinsert, hwf, hcap, horder'⟩ := h.insert_of_notMem hid
  refine ⟨s', hinsert, hwf, hcap, ?_⟩
  rw [horder', window_append_singleton h.pos, ← horder]

/-- Recording an id keeps the set well formed. -/
theorem Wf.insert (h : s.Wf) (id : Str) : (s.insert id).2.Wf := by
  by_cases hid : id ∈ s.set
  · rw [insert_of_mem hid]
    exact h
  · obtain ⟨s', hinsert, hwf, _⟩ := h.insert_of_notMem hid
    rw [hinsert]
    exact hwf

/-- The id recorded last is there. -/
theorem Wf.mem_insert_self (h : s.Wf) (id : Str) : id ∈ (s.insert id).2.set := by
  by_cases hid : id ∈ s.set
  · rw [insert_of_mem hid]
    exact hid
  · obtain ⟨s', hinsert, hwf, _, horder⟩ := h.insert_of_notMem hid
    have hpos := h.pos
    rw [hinsert]
    dsimp only
    rw [hwf.mem_set, horder, List.drop_append_of_le_length (by omega)]
    simp

section Calls

variable {ids : List Str}

/-- The set after these calls of `insert`, with the ids for which it returned `true`, oldest
first. -/
def insertAll (s : SeenSet) (ids : List Str) : SeenSet × List Str :=
  ids.foldl (fun p id => ((p.1.insert id).2, if (p.1.insert id).1 then p.2 ++ [id] else p.2)) (s, [])

/-- One more call of `insert` acts on what the others have left. -/
theorem insertAll_append_singleton (s : SeenSet) (ids : List Str) (id : Str) :
    s.insertAll (ids ++ [id]) =
      let p := s.insertAll ids
      ((p.1.insert id).2, if (p.1.insert id).1 then p.2 ++ [id] else p.2) := by
  unfold insertAll
  rw [List.foldl_append]
  rfl

/-- After every call the set is well formed, and its queue is the window. -/
theorem insertAll_new (cap : ℕ) (ids : List Str) :
    let p := (new cap).insertAll ids
    p.1.Wf ∧ p.1.cap = max cap 1 ∧ p.1.order = window (max cap 1) p.2 := by
  induction ids using List.reverseRecOn with
  | nil => exact ⟨wf_new cap, rfl, List.drop_nil.symm⟩
  | append_singleton ids id ih =>
    rw [insertAll_append_singleton]
    dsimp only at ih ⊢
    obtain ⟨hwf, hcap, horder⟩ := ih
    by_cases hid : id ∈ ((new cap).insertAll ids).1.set
    · -- A duplicate changes nothing, also not the place of the id in the queue.
      rw [insert_of_mem hid]
      exact ⟨hwf, hcap, horder⟩
    · rw [← hcap] at horder
      obtain ⟨s', hinsert, hwf', hcap', horder'⟩ := hwf.insert_window horder hid
      rw [hinsert]
      refine ⟨hwf', hcap'.trans hcap, ?_⟩
      dsimp only
      rw [horder', hcap, if_pos rfl]

/-- **The seen-set is a sliding window.** After any calls of `insert` on a new set, the next one
returns `false` exactly for the last ids for which it has returned `true`, as many as the
capacity and at least one; the lookup set and the queue hold the same ids, each once, and no
more than these. -/
theorem seen_set_is_sliding_window (cap : ℕ) (ids : List Str) :
    let s := ((new cap).insertAll ids).1
    (∀ id, (s.insert id).1 = false ↔ id ∈ window (max cap 1) ((new cap).insertAll ids).2) ∧
      (∀ id, id ∈ s.set ↔ id ∈ s.order) ∧ s.order.Nodup ∧ s.order.length ≤ max cap 1 := by
  obtain ⟨hwf, hcap, horder⟩ := insertAll_new cap ids
  refine ⟨fun id => ?_, fun id => hwf.mem_set, hwf.nodup, ?_⟩
  · rw [← horder, ← hwf.mem_set]
    by_cases hid : id ∈ ((new cap).insertAll ids).1.set
    · rw [insert_of_mem hid]
      exact iff_of_true rfl hid
    · obtain ⟨s', hinsert, _⟩ := hwf.insert_of_notMem hid
      rw [hinsert]
      exact iff_of_false (by simp) hid
  · rw [← hcap]
    exact hwf.length_le

/-- An id comes back as new when it was evicted, and a duplicate does not keep it longer. -/
example : ((new 2).insertAll ["a".toList, "b".toList, "a".toList, "c".toList, "a".toList]).2 =
    ["a".toList, "b".toList, "c".toList, "a".toList] := by decide

end Calls

end SeenSet

end MacroBus
