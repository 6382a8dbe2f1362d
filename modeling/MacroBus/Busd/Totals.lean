import Mathlib.Algebra.BigOperators.Group.Finset.Basic
import Mathlib.Algebra.Order.BigOperators.Group.Finset
import MacroBus.Busd.Frames

/-!
# Totals over a cluster

A measure of a cluster adds up what its daemons, its pending calls and its links weigh. Each
way to change the cluster changes one of these.
-/

namespace MacroBus

/-- Two sums that differ in one place. -/
theorem sum_add_of_eq_off {κ : Type*} [Fintype κ] [DecidableEq κ] {f g : κ → ℕ} (k : κ)
    (hoff : ∀ x, x ≠ k → g x = f x) : ∑ x, g x + f k = ∑ x, f x + g k := by
  have hrest : ∑ x ∈ Finset.univ.erase k, g x = ∑ x ∈ Finset.univ.erase k, f x :=
    Finset.sum_congr rfl fun x hx => hoff x (Finset.ne_of_mem_erase hx)
  rw [← Finset.add_sum_erase _ g (Finset.mem_univ k),
    ← Finset.add_sum_erase _ f (Finset.mem_univ k), hrest]
  omega

/-- One element less in a sum over a list. -/
theorem sum_map_eraseIdx {α : Type*} (f : α → ℕ) {as : List α} {k : ℕ} {a : α}
    (h : as[k]? = some a) : ((as.eraseIdx k).map f).sum + f a = (as.map f).sum := by
  obtain ⟨hk, rfl⟩ := List.getElem?_eq_some_iff.mp h
  have hperm := ((List.getElem_cons_eraseIdx_perm hk).map f).sum_eq
  rw [← hperm, List.map_cons, List.sum_cons]
  omega

/-- What the parts of a cluster weigh. -/
structure Scale (ι : Type) where
  /-- A daemon. -/
  hub : ι → Hub → ℕ
  /-- A call of a daemon that is to broadcast. -/
  task : ι → Task ι → ℕ
  /-- A link. -/
  link : ι → ι → Link → ℕ

namespace Scale

variable {ι : Type} [Fintype ι] (w : Scale ι) (s : Net ι)

/-- What all daemons weigh. -/
def hubs : ℕ := ∑ i, w.hub i (s.hub i)

/-- What all calls weigh. -/
def tasks : ℕ := ∑ i, ((s.tasks i).map (w.task i)).sum

/-- What all links weigh. -/
def links : ℕ := ∑ i, ∑ j, w.link i j (s.link i j)

/-- What the cluster weighs. -/
def total : ℕ := w.hubs s + w.tasks s + w.links s

variable {w} {s}

variable [DecidableEq ι]

/-- Another hub changes the total by what it weighs. -/
theorem total_setHub (i : ι) (h : Hub) :
    w.total (s.setHub i h) + w.hub i (s.hub i) = w.total s + w.hub i h := by
  have hhubs := sum_add_of_eq_off (f := fun x => w.hub x (s.hub x))
    (g := fun x => w.hub x ((s.setHub i h).hub x)) i fun x hx => by
      rw [Net.setHub_hub, if_neg hx]
  rw [Net.setHub_hub_self] at hhubs
  have htasks : w.tasks (s.setHub i h) = w.tasks s := rfl
  have hlinks : w.links (s.setHub i h) = w.links s := rfl
  unfold total
  rw [htasks, hlinks]
  unfold hubs
  omega

/-- Another link changes the total by what it weighs. -/
theorem total_setLink (i j : ι) (l : Link) :
    w.total (s.setLink i j l) + w.link i j (s.link i j) = w.total s + w.link i j l := by
  have hrow := sum_add_of_eq_off (f := fun y => w.link i y (s.link i y))
    (g := fun y => w.link i y ((s.setLink i j l).link i y)) j fun y hy => by
      rw [Net.setLink_link, if_neg fun h => hy h.2]
  have hall := sum_add_of_eq_off (f := fun x => ∑ y, w.link x y (s.link x y))
    (g := fun x => ∑ y, w.link x y ((s.setLink i j l).link x y)) i fun x hx => by
      simp only [Net.setLink_link, hx, false_and, if_false]
  rw [Net.setLink_link_self] at hrow
  have hhubs : w.hubs (s.setLink i j l) = w.hubs s := rfl
  have htasks : w.tasks (s.setLink i j l) = w.tasks s := rfl
  unfold total
  rw [hhubs, htasks]
  unfold links
  omega

/-- Other calls change the total by what they weigh. -/
theorem total_setTasks (i : ι) (ts : List (Task ι)) :
    w.total (s.setTasks i ts) + ((s.tasks i).map (w.task i)).sum =
      w.total s + (ts.map (w.task i)).sum := by
  have hcalls := sum_add_of_eq_off (f := fun x => ((s.tasks x).map (w.task x)).sum)
    (g := fun x => (((s.setTasks i ts).tasks x).map (w.task x)).sum) i fun x hx => by
      rw [Net.setTasks_tasks, if_neg hx]
  rw [Net.setTasks_tasks, if_pos rfl] at hcalls
  have hhubs : w.hubs (s.setTasks i ts) = w.hubs s := rfl
  have hlinks : w.links (s.setTasks i ts) = w.links s := rfl
  unfold total
  rw [hhubs, hlinks]
  unfold tasks
  omega

/-- One more call adds what it weighs. -/
theorem total_addTask (i : ι) (t : Task ι) :
    w.total (s.addTask i t) = w.total s + w.task i t := by
  have hset := total_setTasks (w := w) (s := s) i (s.tasks i ++ [t])
  rw [List.map_append, List.sum_append, List.map_singleton, List.sum_singleton] at hset
  unfold Net.addTask
  omega

/-- A call that is done is taken off. -/
theorem total_eraseTask {i : ι} {k : ℕ} {t : Task ι} (h : (s.tasks i)[k]? = some t) :
    w.total (s.setTasks i ((s.tasks i).eraseIdx k)) + w.task i t = w.total s := by
  have hset := total_setTasks (w := w) (s := s) i ((s.tasks i).eraseIdx k)
  have herase := sum_map_eraseIdx (w.task i) h
  omega

/-- A call goes on as another. -/
theorem total_setTask {i : ι} {k : ℕ} {t : Task ι} (t' : Task ι) (h : (s.tasks i)[k]? = some t) :
    w.total (s.setTasks i ((s.tasks i).set k t')) + w.task i t = w.total s + w.task i t' := by
  have hset := total_setTasks (w := w) (s := s) i ((s.tasks i).set k t')
  have herase := sum_map_eraseIdx (w.task i) h
  obtain ⟨hlt, _⟩ := List.getElem?_eq_some_iff.mp h
  have hperm := ((List.set_perm_cons_eraseIdx hlt t').map (w.task i)).sum_eq
  rw [List.map_cons, List.sum_cons] at hperm
  omega

/-- A broadcast adds what the offers add to the links. -/
theorem total_broadcast_le (C : Cluster ι) (i : ι) (frame : OutFrame) (exclude : Option ι)
    (more : ι → ℕ) (hmore : ∀ j, some j ≠ exclude →
      w.link i j ((s.link i j).offer frame) ≤ w.link i j (s.link i j) + more j) :
    w.total (C.broadcast s i frame exclude).1 ≤
      w.total s + ∑ j with some j ≠ exclude, more j := by
  have hlink : ∀ y, w.link i y ((C.broadcast s i frame exclude).1.link i y) ≤
      w.link i y (s.link i y) + if some y ≠ exclude then more y else 0 := by
    intro y
    rw [Cluster.broadcast_link]
    by_cases hy : some y ≠ exclude
    · rw [if_pos ⟨rfl, hy⟩, if_pos hy]
      exact hmore y hy
    · rw [if_neg fun h => hy h.2]
      exact Nat.le_add_right _ _
  have hrow : ∑ y, w.link i y ((C.broadcast s i frame exclude).1.link i y) ≤
      ∑ y, w.link i y (s.link i y) + ∑ j with some j ≠ exclude, more j := by
    rw [Finset.sum_filter, ← Finset.sum_add_distrib]
    exact Finset.sum_le_sum fun y _ => hlink y
  have hall := sum_add_of_eq_off (f := fun x => ∑ y, w.link x y (s.link x y))
    (g := fun x => ∑ y, w.link x y ((C.broadcast s i frame exclude).1.link x y)) i fun x hx => by
      simp only [Cluster.broadcast_link, hx, false_and, if_false]
  have hhubs : w.hubs (C.broadcast s i frame exclude).1 = w.hubs s := rfl
  have htasks : w.tasks (C.broadcast s i frame exclude).1 = w.tasks s := rfl
  unfold total
  rw [hhubs, htasks]
  unfold links
  omega

end Scale

end MacroBus
