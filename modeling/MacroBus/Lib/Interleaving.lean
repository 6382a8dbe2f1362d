import Mathlib.Data.List.Basic
import Mathlib.Logic.Function.Basic
import MacroBus.Lib.Transition

/-!
# Interleavings

A family of systems that take their steps one at a time, in any order. What a run of the
family does to one member is a run of that member, whatever the others do.
-/

namespace Transition

variable {ι : Type*} [DecidableEq ι] {σ : Type*} {α : Type*} {ε : Type*}

/-- One member of the family takes a step; the others stay where they are. -/
def interleaved (step : ι → σ → α → Option (σ × List ε)) (s : ι → σ) (a : ι × α) :
    Option ((ι → σ) × List (ι × ε)) :=
  (step a.1 (s a.1) a.2).map fun r => (Function.update s a.1 r.1, r.2.map (Prod.mk a.1))

/-- The events of one member. -/
def component (i : ι) (past : List (ι × ε)) : List ε :=
  past.filterMap fun e => if e.1 = i then some e.2 else none

section Components

variable {i : ι} {past es : List (ι × ε)}

/-- The events of a member add up. -/
theorem component_append (i : ι) (past es : List (ι × ε)) :
    component i (past ++ es) = component i past ++ component i es := List.filterMap_append

/-- All events of one member are its own. -/
theorem component_map_self (i : ι) (es : List ε) : component i (es.map (Prod.mk i)) = es := by
  simp [component, List.filterMap_map]

/-- The events of one member are no other's. -/
theorem component_map_of_ne {j : ι} (hne : j ≠ i) (es : List ε) :
    component i (es.map (Prod.mk j)) = [] := by
  simp [component, List.filterMap_map, hne]

/-- Whatever selects events of a member selects them from its own. -/
theorem filterMap_component {β : Type*} (f : ε → Option β) (i : ι) (past : List (ι × ε)) :
    component i (past.filterMap fun e => (f e.2).map (Prod.mk e.1)) =
      (component i past).filterMap f := by
  unfold component
  rw [List.filterMap_filterMap, List.filterMap_filterMap]
  refine List.filterMap_congr fun e _ => ?_
  by_cases hi : e.1 = i
  · cases hf : f e.2 <;> simp [hi, hf]
  · cases f e.2 <;> simp [hi]

end Components

section Runs

variable {step : ι → σ → α → Option (σ × List ε)} {start s : ι → σ} {past : List (ι × ε)}

/-- **A run of the family is one of each member.** -/
theorem Run.component (h : Run (interleaved step) anyStep start s past) (i : ι) :
    Run (step i) anyStep (start i) (s i) (Transition.component i past) := by
  induction h with
  | init => exact .init
  | @step s s' past es a _ _ hs ih =>
    obtain ⟨⟨t, done⟩, hstep, heq⟩ := Option.map_eq_some_iff.mp hs
    obtain ⟨rfl, rfl⟩ := Prod.mk.inj heq
    rw [component_append]
    by_cases hi : a.1 = i
    · subst hi
      rw [Function.update_self, component_map_self]
      exact .step ih trivial hstep
    · rw [Function.update_of_ne (Ne.symm hi), component_map_of_ne hi, List.append_nil]
      exact ih

end Runs

section Values

variable {β : Type*} {f : ι × ε → β} {past : List (ι × ε)}

/-- Values that are distinct among the events of each member, and distinct for different
members, are distinct. -/
theorem nodup_of_components
    (hown : ∀ i, ((component i past).map fun e => f (i, e)).Nodup)
    (hother : ∀ x ∈ past, ∀ y ∈ past, f x = f y → x.1 = y.1) : (past.map f).Nodup := by
  induction past with
  | nil => exact List.nodup_nil
  | cons x past ih =>
    have hsplit : ∀ i, component i (x :: past) = component i [x] ++ component i past :=
      fun i => component_append i [x] past
    have hrest : (past.map f).Nodup := by
      refine ih (fun i => ?_) fun y hy z hz => hother y (.tail x hy) z (.tail x hz)
      have hall := hown i
      rw [hsplit, List.map_append] at hall
      exact hall.of_append_right
    rw [List.map_cons, List.nodup_cons]
    refine ⟨fun hmem => ?_, hrest⟩
    obtain ⟨y, hy, heq⟩ := List.mem_map.mp hmem
    have hsame : y.1 = x.1 := hother y (.tail x hy) x List.mem_cons_self heq
    have hall := hown x.1
    have hself : component x.1 [x] = [x.2] := component_map_self x.1 [x.2]
    rw [hsplit, hself, List.map_append, List.map_singleton, List.singleton_append,
      List.nodup_cons] at hall
    have hvalue : f (x.1, y.2) = f x := by rw [← hsame, ← heq]
    exact hall.1 (List.mem_map.mpr ⟨y.2, List.mem_filterMap.mpr ⟨y, hy, if_pos hsame⟩, hvalue⟩)

end Values

end Transition
