import Mathlib.Data.List.Nodup
import Mathlib.Logic.Function.Basic
import Mathlib.Logic.Relation
import Mathlib.Order.Basic

/-!
# Flooding over channels in order

A node accepts every message that is new to it and passes it on to all others, save the one
it came from. All that is passed from one node to another is read in order. Then no node
accepts a message before one that the publisher had accepted when it published: flooding
keeps the order of cause and effect, over any topology and any number of paths.
-/

namespace Flood

variable {ι M : Type*}

/-- The state of a flood. -/
structure State (ι M : Type*) where
  /-- What each node has accepted, oldest first, with the node it came from, if any. -/
  log : ι → List (M × Option ι)
  /-- How much of what the first node passes on to the second the second has read. -/
  read : ι → ι → ℕ

namespace State

/-- Nothing is published yet. -/
def empty : State ι M := ⟨fun _ => [], fun _ _ => 0⟩

/-- The messages a node has accepted. -/
def accepted (s : State ι M) (i : ι) : List M := (s.log i).map Prod.fst

variable [DecidableEq ι]

/-- What the node `i` passes on to `j`: all it has accepted, but what came from there. -/
def onward (s : State ι M) (i j : ι) : List M :=
  ((s.log i).filter fun p => p.2 ≠ some j).map Prod.fst

/-- What the node `j` reads next of the node `i`, if anything. -/
def next (s : State ι M) (i j : ι) : Option M := (s.onward i j)[s.read i j]?

/-- The node `i` accepts one more message. -/
def extend (s : State ι M) (i : ι) (m : M) (src : Option ι) : State ι M :=
  { s with log := Function.update s.log i (s.log i ++ [(m, src)]) }

/-- The node `j` has read one more message of the node `i`. -/
def bump (s : State ι M) (i j : ι) : State ι M :=
  { s with read := Function.update s.read i (Function.update (s.read i) j (s.read i j + 1)) }

end State

/-- A step of a flood. -/
inductive Step [DecidableEq ι] (s : State ι M) : State ι M → Prop
  /-- A node publishes a message that is new everywhere. -/
  | publish (i : ι) (m : M) (hnew : ∀ k, m ∉ s.accepted k) : Step s (s.extend i m none)
  /-- A node reads a message that it has accepted already. -/
  | skip (i j : ι) (m : M) (hnext : s.next i j = some m) (hold : m ∈ s.accepted j) :
      Step s (s.bump i j)
  /-- A node reads a message that is new to it. -/
  | accept (i j : ι) (m : M) (hnext : s.next i j = some m) (hnew : m ∉ s.accepted j) :
      Step s ((s.extend j m (some i)).bump i j)

/-- The states a flood reaches. -/
def Reached [DecidableEq ι] (s : State ι M) : Prop := Relation.ReflTransGen Step .empty s

section Lists

variable {α : Type*} {a b c : α} {l l' : List α}

/-- In a list without repetition, what stands somewhere before an element is in front of it. -/
theorem mem_of_pair_sublist (hnodup : (l ++ b :: l').Nodup) (h : [a, b].Sublist (l ++ b :: l')) :
    a ∈ l := by
  have hlast : b ∉ l' := (List.nodup_cons.mp (List.nodup_append'.mp hnodup).2.1).1
  obtain ⟨front, back, heq, hfront, hback⟩ := List.sublist_append_iff.mp h
  cases front with
  | nil =>
    rw [List.nil_append] at heq
    rw [← heq] at hback
    have hmem : b ∈ l' := by
      rcases List.sublist_cons_iff.mp hback with hrest | ⟨rest, heq', hrest⟩
      · exact hrest.subset (by simp)
      · obtain ⟨_, rfl⟩ := List.cons.inj heq'
        exact hrest.subset (by simp)
    exact absurd hmem hlast
  | cons c front =>
    obtain ⟨rfl, _⟩ := List.cons.inj heq
    exact hfront.subset (by simp)

/-- In a list without repetition, two elements stand in one order only. -/
theorem not_pair_swapped (hnodup : l.Nodup) (h : [a, b].Sublist l) : ¬[b, a].Sublist l := by
  intro hswap
  obtain ⟨front, back, rfl⟩ := List.append_of_mem (hswap.subset (show b ∈ [b, a] by simp))
  obtain ⟨before, between, rfl⟩ := List.append_of_mem (mem_of_pair_sublist hnodup h)
  rw [List.append_assoc, List.cons_append] at hnodup hswap
  have hfirst := mem_of_pair_sublist hnodup hswap
  exact (List.nodup_append'.mp hnodup).2.2 hfirst (by simp)

/-- A pair in a list stands before its end, or its second part is the end. -/
theorem pair_sublist_concat (h : [a, b].Sublist (l ++ [c])) : [a, b].Sublist l ∨ b = c := by
  obtain ⟨front, back, heq, hfront, hback⟩ := List.sublist_append_iff.mp h
  rcases List.sublist_singleton.mp hback with rfl | rfl
  · rw [List.append_nil] at heq
    exact Or.inl (heq ▸ hfront)
  · have hlast := congrArg List.getLast? heq
    simp only [List.getLast?_append, List.getLast?_singleton] at hlast
    exact Or.inr (by simpa using hlast)

end Lists

section Logs

variable [DecidableEq ι] (s : State ι M) {i j k : ι} {m m' : M} {src src' : Option ι}

omit [DecidableEq ι] in
/-- What is in the log was accepted. -/
theorem mem_accepted (h : (m, src) ∈ s.log i) : m ∈ s.accepted i := List.mem_map.mpr ⟨_, h, rfl⟩

@[simp] theorem bump_log (i j : ι) : (s.bump i j).log = s.log := rfl

@[simp] theorem bump_accepted (i j : ι) : (s.bump i j).accepted = s.accepted := rfl

@[simp] theorem bump_onward (i j : ι) : (s.bump i j).onward = s.onward := rfl

@[simp] theorem extend_read (k : ι) (m : M) (src : Option ι) :
    (s.extend k m src).read = s.read := rfl

/-- One more is read. -/
theorem bump_read (i j a b : ι) :
    (s.bump i j).read a b = if a = i ∧ b = j then s.read i j + 1 else s.read a b := by
  unfold State.bump
  dsimp only
  by_cases ha : a = i
  · subst ha
    rw [Function.update_self, Function.update_apply]
    simp
  · rw [Function.update_of_ne ha, if_neg fun h => ha h.1]

/-- One more is in the log. -/
theorem extend_log (k : ι) (m : M) (src : Option ι) (i : ι) :
    (s.extend k m src).log i = s.log i ++ if i = k then [(m, src)] else [] := by
  unfold State.extend
  dsimp only
  rw [Function.update_apply]
  by_cases hi : i = k
  · rw [if_pos hi, if_pos hi, hi]
  · rw [if_neg hi, if_neg hi, List.append_nil]

/-- One more is accepted. -/
theorem extend_accepted (k : ι) (m : M) (src : Option ι) (i : ι) :
    (s.extend k m src).accepted i = s.accepted i ++ if i = k then [m] else [] := by
  unfold State.accepted
  rw [extend_log, List.map_append]
  split <;> rfl

/-- At most one more is passed on. -/
theorem extend_onward (k : ι) (m : M) (src : Option ι) (i j : ι) :
    (s.extend k m src).onward i j =
      s.onward i j ++ if i = k ∧ src ≠ some j then [m] else [] := by
  unfold State.onward
  rw [extend_log, List.filter_append, List.map_append]
  by_cases hi : i = k
  · by_cases hsrc : src = some j <;> simp [hi, hsrc]
  · simp [hi]

/-- What is passed on was accepted, and came from elsewhere. -/
theorem mem_onward : m ∈ s.onward i j ↔ ∃ src, (m, src) ∈ s.log i ∧ src ≠ some j := by
  unfold State.onward
  simp only [List.mem_map, List.mem_filter, decide_eq_true_eq, Prod.exists, exists_and_right,
    exists_eq_right]

/-- Where a pair of log entries stands after one more. -/
theorem pair_extend {m₁ m₂ : M}
    (h : [(m₁, src'), (m₂, none)].Sublist ((s.extend k m src).log i)) :
    [(m₁, src'), (m₂, none)].Sublist (s.log i) ∨ i = k ∧ m₂ = m ∧ src = none := by
  rw [extend_log] at h
  by_cases hi : i = k
  · rw [if_pos hi] at h
    rcases pair_sublist_concat h with hold | hlast
    · exact Or.inl hold
    · obtain ⟨hm, hsrc⟩ := Prod.mk.inj hlast
      exact Or.inr ⟨hi, hm, hsrc.symm⟩
  · rw [if_neg hi, List.append_nil] at h
    exact Or.inl h

end Logs

/-- What holds in every state a flood reaches. -/
structure Invariant [DecidableEq ι] (s : State ι M) : Prop where
  /-- Nothing is accepted twice. -/
  once : ∀ i, (s.accepted i).Nodup
  /-- The node a message came from has accepted it. -/
  back : ∀ i j m, (m, some j) ∈ s.log i → m ∈ s.accepted j
  /-- No more is read than was passed on. -/
  within : ∀ i j, s.read i j ≤ (s.onward i j).length
  /-- What was read is accepted. -/
  seen : ∀ i j, ∀ m ∈ (s.onward i j).take (s.read i j), m ∈ s.accepted j
  /-- What the publisher of a message had accepted is accepted before it everywhere. -/
  causal : ∀ i m₁ src m₂, [(m₁, src), (m₂, none)].Sublist (s.log i) →
    ∀ k, m₂ ∈ s.accepted k → [m₁, m₂].Sublist (s.accepted k)

namespace Invariant

variable [DecidableEq ι] {s : State ι M} {i j k : ι} {m : M} {src : Option ι}

/-- All of it holds at the start. -/
theorem empty : Invariant (State.empty : State ι M) where
  once _ := List.nodup_nil
  back _ _ _ h := by cases h
  within _ _ := Nat.le_refl 0
  seen _ _ _ h := by cases h
  causal _ _ _ _ h := by cases h

/-- **What comes first is passed on first.** Whoever reads the second of two messages from a
node that accepted the first before has accepted the first. -/
theorem first_of_pair (h : Invariant s) {m₁ m₂ : M} (hnext : s.next i j = some m₂)
    (hnew : m₂ ∉ s.accepted j) (hpair : [m₁, m₂].Sublist (s.accepted i)) : m₁ ∈ s.accepted j := by
  obtain ⟨pair, hlog, heq⟩ := List.sublist_map_iff.mp hpair
  obtain ⟨⟨_, src₁⟩, ⟨_, src₂⟩, rfl⟩ : ∃ p q, pair = [p, q] := by
    rcases pair with _ | ⟨p, _ | ⟨q, _ | _⟩⟩ <;> simp at heq
    exact ⟨p, q, rfl⟩
  simp only [List.map_cons, List.map_nil, List.cons.injEq, and_true] at heq
  obtain ⟨rfl, rfl⟩ := heq
  by_cases hsrc₁ : src₁ = some j
  · -- The first message came from there.
    exact h.back i j m₁ (hsrc₁ ▸ hlog.subset (by simp))
  · have hsrc₂ : src₂ ≠ some j := by
      rintro rfl
      exact hnew (h.back i j m₂ (hlog.subset (by simp)))
    have honward : [m₁, m₂].Sublist (s.onward i j) := by
      have hfilter := (hlog.filter fun p => decide (p.2 ≠ some j)).map Prod.fst
      simp only [List.filter_cons, ne_eq, hsrc₁, hsrc₂, not_false_eq_true, decide_true, if_true,
        List.filter_nil, List.map_cons, List.map_nil] at hfilter
      exact hfilter
    -- What is read next was not read before.
    have hsplit : s.onward i j = (s.onward i j).take (s.read i j) ++
        m₂ :: (s.onward i j).drop (s.read i j + 1) := by
      obtain ⟨hlt, hget⟩ := List.getElem?_eq_some_iff.mp hnext
      rw [← hget, List.getElem_cons_drop, List.take_append_drop]
    have hnodup : (s.onward i j).Nodup := (List.filter_sublist.map Prod.fst).nodup (h.once i)
    rw [hsplit] at honward hnodup
    exact h.seen i j m₁ (mem_of_pair_sublist hnodup honward)

/-- Reading what is accepted keeps the invariant. -/
theorem bump (h : Invariant s) (hnext : s.next i j = some m) (hold : m ∈ s.accepted j) :
    Invariant (s.bump i j) where
  once := h.once
  back := h.back
  within a b := by
    rw [bump_read, bump_onward]
    split
    · next heq =>
      obtain ⟨rfl, rfl⟩ := heq
      exact (List.getElem?_eq_some_iff.mp hnext).1
    · exact h.within a b
  seen a b m' hmem := by
    rw [bump_read, bump_onward] at hmem
    rw [bump_accepted]
    split at hmem
    · next heq =>
      obtain ⟨rfl, rfl⟩ := heq
      rw [List.take_add_one, ← State.next, hnext, Option.toList_some, List.mem_append] at hmem
      rcases hmem with hmem | hmem
      · exact h.seen a b m' hmem
      · exact List.mem_singleton.mp hmem ▸ hold
    · exact h.seen a b m' hmem
  causal := h.causal

/-- A node keeps the invariant when it accepts a message that is new to it, if it has all
that any publisher of the message had. -/
theorem extend (h : Invariant s) (hnew : m ∉ s.accepted k)
    (hsrc : ∀ j, src = some j → m ∈ s.accepted j)
    (hnone : src = none → ∀ i, m ∉ s.accepted i)
    (hfirst : ∀ i m₁ src₁, [(m₁, src₁), (m, none)].Sublist (s.log i) → m₁ ∈ s.accepted k) :
    Invariant (s.extend k m src) where
  once i := by
    rw [extend_accepted]
    split
    · next hi =>
      rw [List.nodup_append_comm, List.singleton_append]
      exact List.nodup_cons.mpr ⟨hi ▸ hnew, h.once i⟩
    · rw [List.append_nil]
      exact h.once i
  back i j m' hmem := by
    rw [extend_log, List.mem_append] at hmem
    rw [extend_accepted]
    refine List.mem_append_left _ ?_
    rcases hmem with hold | hlast
    · exact h.back i j m' hold
    · split at hlast
      · obtain ⟨rfl, rfl⟩ := Prod.mk.inj (List.mem_singleton.mp hlast)
        exact hsrc j rfl
      · cases hlast
  within i j := by
    have hle := h.within i j
    rw [extend_read, extend_onward, List.length_append]
    omega
  seen i j m' hmem := by
    rw [extend_read, extend_onward, List.take_append_of_le_length (h.within i j)] at hmem
    rw [extend_accepted]
    exact List.mem_append_left _ (h.seen i j m' hmem)
  causal i m₁ src₁ m₂ hpair k' hk' := by
    rcases pair_extend s hpair with hold | ⟨rfl, rfl, rfl⟩
    · rw [extend_accepted] at hk' ⊢
      by_cases hbefore : m₂ ∈ s.accepted k'
      · exact (h.causal i m₁ src₁ m₂ hold k' hbefore).trans (List.sublist_append_left _ _)
      · -- The message is accepted now.
        have hlast := (List.mem_append.mp hk').resolve_left hbefore
        split at hlast
        · next hk =>
          obtain rfl := List.mem_singleton.mp hlast
          subst hk
          rw [if_pos rfl]
          exact (List.singleton_sublist.mpr (hfirst i m₁ src₁ hold)).append (List.Sublist.refl _)
        · cases hlast
    · -- The message is published now, and nobody else has it.
      rw [extend_accepted] at hk'
      have hlast := (List.mem_append.mp hk').resolve_left (hnone rfl k')
      split at hlast
      · next hk =>
        subst hk
        exact hpair.map Prod.fst
      · cases hlast

/-- **Every step keeps the order of cause and effect.** -/
theorem step (h : Invariant s) {s' : State ι M} (hstep : Step s s') : Invariant s' := by
  cases hstep with
  | publish i m hnew =>
    refine h.extend (hnew i) (by simp) (fun _ => hnew) ?_
    intro k m₁ src₁ hpair
    have hmem : (m, none) ∈ s.log k := hpair.subset (by simp)
    exact absurd (mem_accepted s hmem) (hnew k)
  | skip i j m hnext hold => exact h.bump hnext hold
  | accept i j m hnext hnew =>
    have hsource : m ∈ s.accepted i := by
      obtain ⟨src, hlog, _⟩ := (mem_onward s).mp (List.mem_of_getElem? hnext)
      exact mem_accepted s hlog
    have hextend : Invariant (s.extend j m (some i)) := by
      refine h.extend hnew (fun k hk => Option.some.inj hk ▸ hsource) (by simp) ?_
      intro k m₁ src₁ hpair
      exact h.first_of_pair hnext hnew (h.causal k m₁ src₁ m hpair i hsource)
    refine hextend.bump (m := m) ?_ ?_
    · unfold State.next at hnext ⊢
      rw [extend_read, extend_onward,
        List.getElem?_append_left (List.getElem?_eq_some_iff.mp hnext).1]
      exact hnext
    · rw [extend_accepted, if_pos rfl]
      exact List.mem_append_right _ (List.mem_singleton_self m)

end Invariant

variable [DecidableEq ι] {s : State ι M}

/-- The invariant holds in every state a flood reaches. -/
theorem Reached.invariant (h : Reached s) : Invariant s := by
  induction h with
  | refl => exact Invariant.empty
  | tail _ hstep ih => exact ih.step hstep

/-- **Flooding keeps the order of cause and effect.** What a node had accepted when it
published a message is accepted before it by every node that accepts the message. -/
theorem Reached.causal (h : Reached s) {i k : ι} {m₁ m₂ : M} {src : Option ι}
    (hpair : [(m₁, src), (m₂, none)].Sublist (s.log i)) (hk : m₂ ∈ s.accepted k) :
    [m₁, m₂].Sublist (s.accepted k) := h.invariant.causal i m₁ src m₂ hpair k hk

end Flood
