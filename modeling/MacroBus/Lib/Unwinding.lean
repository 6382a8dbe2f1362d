import MacroBus.Lib.Transition

/-!
# Unwinding

Two runs of a system are compared by what goes in. A step either has an input or is silent.
If a relation of states survives silent steps on either side and pairs of steps with the
same input, then runs with the same inputs end in related states, and their steps with an
input pair up.
-/

namespace Transition

variable {σ : Type*} {α : Type*} {ε : Type*} {ι : Type*}

/-- The system whose runs record each action together with its events. -/
def recorded (step : σ → α → Option (σ × List ε)) (s : σ) (a : α) :
    Option (σ × List (α × List ε)) :=
  (step s a).map fun r => (r.1, [(a, r.2)])

/-- The events of a recorded run. -/
def events (trace : List (α × List ε)) : List ε := trace.flatMap Prod.snd

section Recorded

variable {step : σ → α → Option (σ × List ε)} {start s : σ} {trace : List (α × List ε)}

/-- A step of a recorded run. -/
theorem recorded_eq_some_iff {s' : σ} {a : α} :
    recorded step s a = some (s', trace) ↔ ∃ es, step s a = some (s', es) ∧ trace = [(a, es)] := by
  unfold recorded
  rw [Option.map_eq_some_iff]
  constructor
  · rintro ⟨⟨t, es⟩, hstep, heq⟩
    obtain ⟨rfl, rfl⟩ := Prod.mk.inj heq
    exact ⟨es, hstep, rfl⟩
  · rintro ⟨es, hstep, rfl⟩
    exact ⟨(s', es), hstep, rfl⟩

end Recorded

section Unwinding

variable (step : σ → α → Option (σ × List ε)) (input : α × List ε → Option ι)
  (quiet : α × List ε → Prop) (same : α × List ε → α × List ε → Prop)

/-- A relation of states that runs with the same inputs preserve, with what is known of
silent steps and of steps with the same input. -/
structure Unwinds (R : σ → σ → Prop) : Prop where
  /-- It does not matter which run comes first. -/
  symm : ∀ s t, R s t → R t s
  /-- A silent step changes nothing that counts. -/
  silent : ∀ s t s' a es, R s t → step s a = some (s', es) → input (a, es) = none →
    R s' t ∧ quiet (a, es)
  /-- Steps with the same input do the same. -/
  agree : ∀ s t s' t' a b es es', R s t → step s a = some (s', es) → step t b = some (t', es') →
    input (a, es) = input (b, es') → input (a, es) ≠ none → R s' t' ∧ same (a, es) (b, es')

/-- The steps of a run that have an input. -/
def visible (trace : List (α × List ε)) : List (α × List ε) :=
  trace.filter fun r => (input r).isSome

variable {step} {input} {quiet} {same} {R : σ → σ → Prop}

/-- Adding a silent step. -/
theorem visible_append_none {trace : List (α × List ε)} {r : α × List ε} (hr : input r = none) :
    visible input (trace ++ [r]) = visible input trace := by
  unfold visible
  rw [List.filter_append, List.filter_cons_of_neg (by simp [hr]), List.filter_nil, List.append_nil]

/-- Adding a step with an input. -/
theorem visible_append_some {trace : List (α × List ε)} {r : α × List ε} (hr : input r ≠ none) :
    visible input (trace ++ [r]) = visible input trace ++ [r] := by
  unfold visible
  rw [List.filter_append, List.filter_cons_of_pos (by simpa [Option.isSome_iff_ne_none] using hr),
    List.filter_nil]

/-- What comes out of a run comes out of its steps with an input, if the others are quiet. -/
theorem flatMap_visible {ω : Type*} {output : α × List ε → List ω} {trace : List (α × List ε)}
    (hquiet : ∀ r ∈ trace, input r = none → output r = []) :
    (visible input trace).flatMap output = trace.flatMap output := by
  unfold visible
  induction trace with
  | nil => rfl
  | cons r trace ih =>
    have htail := ih fun r' hr' => hquiet r' (List.mem_cons_of_mem r hr')
    cases hr : input r with
    | none =>
      rw [List.filter_cons_of_neg (by simp [hr]), htail, List.flatMap_cons,
        hquiet r List.mem_cons_self hr, List.nil_append]
    | some i => rw [List.filter_cons_of_pos (by simp [hr]), List.flatMap_cons, List.flatMap_cons, htail]

/-- Steps that pair up put out the same. -/
theorem flatMap_eq_of_forall₂ {ω : Type*} {output : α × List ε → List ω}
    {steps steps' : List (α × List ε)}
    (hpairs : List.Forall₂ (fun r r' => output r = output r') steps steps') :
    steps.flatMap output = steps'.flatMap output := by
  induction hpairs with
  | nil => rfl
  | cons hhead _ ih => rw [List.flatMap_cons, List.flatMap_cons, hhead, ih]

/-- The silent steps of a run are quiet, wherever a related state can go. -/
theorem Unwinds.quiet_of_run (hR : Unwinds step input quiet same R) {s₀ s : σ}
    {trace : List (α × List ε)} (hstart : R s₀ s₀)
    (hrun : Run (recorded step) anyStep s₀ s trace) :
    R s s ∧ ∀ r ∈ trace, input r = none → quiet r := by
  induction hrun with
  | init => exact ⟨hstart, fun r hr => by cases hr⟩
  | @step s₁ s₂ past es a _ _ hs ih =>
    obtain ⟨es, hstep, rfl⟩ := recorded_eq_some_iff.mp hs
    obtain ⟨hrel, hpast⟩ := ih
    have hlast : R s₂ s₂ ∧ (input (a, es) = none → quiet (a, es)) := by
      cases hinput : input (a, es) with
      | none =>
        obtain ⟨hleft, hquiet⟩ := hR.silent _ _ _ _ _ hrel hstep hinput
        have hright := (hR.silent _ _ _ _ _ (hR.symm _ _ hleft) hstep hinput).1
        exact ⟨hright, fun _ => hquiet⟩
      | some i =>
        have hboth := (hR.agree _ _ _ _ _ _ _ _ hrel hstep hstep rfl (by simp [hinput])).1
        exact ⟨hboth, fun hnone => by cases hnone⟩
    refine ⟨hlast.1, fun r hr => ?_⟩
    rcases List.mem_append.mp hr with hr | hr
    · exact hpast r hr
    · obtain rfl := List.mem_singleton.mp hr
      exact hlast.2

/-- A run without inputs stays related to where it started. -/
theorem Unwinds.run_silent (hR : Unwinds step input quiet same R) {s t t' : σ}
    {trace : List (α × List ε)} (hrun : Run (recorded step) anyStep t t' trace)
    (hst : R s t) (hnone : trace.filterMap input = []) :
    R s t' ∧ visible input trace = [] := by
  induction hrun with
  | init => exact ⟨hst, rfl⟩
  | step _ _ hs ih =>
    obtain ⟨es, hstep, rfl⟩ := recorded_eq_some_iff.mp hs
    rw [List.filterMap_append, List.append_eq_nil_iff] at hnone
    obtain ⟨hbefore, hout⟩ := ih hnone.1
    have hinput := List.filterMap_eq_nil_iff.mp hnone.2 _ List.mem_cons_self
    have hafter := (hR.silent _ _ _ _ _ (hR.symm _ _ hbefore) hstep hinput).1
    rw [visible_append_none hinput]
    exact ⟨hR.symm _ _ hafter, hout⟩

/-- **Runs with the same inputs end in related states, and their steps with an input pair
up.** -/
theorem Unwinds.run (hR : Unwinds step input quiet same R) {s₀ t₀ s t : σ}
    {trace trace' : List (α × List ε)} (hstart : R s₀ t₀)
    (hrun : Run (recorded step) anyStep s₀ s trace)
    (hrun' : Run (recorded step) anyStep t₀ t trace')
    (hsame : trace.filterMap input = trace'.filterMap input) :
    R s t ∧ List.Forall₂ same (visible input trace) (visible input trace') := by
  induction hrun generalizing t trace' with
  | init =>
    obtain ⟨hrel, hout⟩ := hR.run_silent hrun' hstart hsame.symm
    rw [hout]
    exact ⟨hrel, List.Forall₂.nil⟩
  | @step s₁ s₂ past es a hbefore _ hs ih =>
    obtain ⟨es, hstep, rfl⟩ := recorded_eq_some_iff.mp hs
    cases hinput : input (a, es) with
    | none =>
      rw [List.filterMap_append, List.filterMap_cons_none hinput, List.filterMap_nil,
        List.append_nil] at hsame
      obtain ⟨hrel, hout⟩ := ih hrun' hsame
      have hafter := (hR.silent _ _ _ _ _ hrel hstep hinput).1
      rw [visible_append_none hinput]
      exact ⟨hafter, hout⟩
    | some i =>
      rw [List.filterMap_append, List.filterMap_cons_some hinput, List.filterMap_nil] at hsame
      have hsome : input (a, es) ≠ none := by simp [hinput]
      -- The second run has made the step with this input some silent steps ago.
      induction hrun' with
      | init => simp at hsame
      | @step t₁ t₂ past' es' b hbefore' _ hs' ih' =>
        obtain ⟨es', hstep', rfl⟩ := recorded_eq_some_iff.mp hs'
        cases hinput' : input (b, es') with
        | none =>
          rw [List.filterMap_append, List.filterMap_cons_none hinput', List.filterMap_nil,
            List.append_nil] at hsame
          obtain ⟨hrel, hout⟩ := ih' hsame
          have hafter := (hR.silent _ _ _ _ _ (hR.symm _ _ hrel) hstep' hinput').1
          rw [visible_append_none hinput']
          exact ⟨hR.symm _ _ hafter, hout⟩
        | some i' =>
          rw [List.filterMap_append, List.filterMap_cons_some hinput', List.filterMap_nil] at hsame
          obtain ⟨hpast, hlast⟩ := List.append_inj' hsame rfl
          obtain ⟨hrel, hout⟩ := ih hbefore' hpast
          have heq : input (a, es) = input (b, es') := by
            rw [hinput, hinput', List.singleton_inj.mp hlast]
          obtain ⟨hafter, hpair⟩ := hR.agree _ _ _ _ _ _ _ _ hrel hstep hstep' heq hsome
          rw [visible_append_some hsome, visible_append_some (heq ▸ hsome)]
          exact ⟨hafter, List.rel_append hout (List.Forall₂.cons hpair List.Forall₂.nil)⟩

end Unwinding

end Transition
