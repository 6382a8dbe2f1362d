import MacroBus.Lib.Transition

/-!
# Simulations of transition systems

A detailed system refines an abstract one if each of its steps is matched by at most one step of
the abstract system, which shows the events that the detailed step shows. Runs are then matched
by runs, and what holds of every abstract history holds of what is seen of a detailed one.
-/

namespace Transition

variable {σ : Type*} {α : Type*} {ε : Type*} {τ : Type*} {β : Type*} {δ : Type*}

/-- At most one guarded step, which shows exactly these events. -/
inductive AtMostOne (step : τ → β → Option (τ × List δ)) (ok : τ → List δ → β → Prop) (t : τ)
    (past : List δ) : τ → List δ → Prop
  /-- Nothing happens. -/
  | stay : AtMostOne step ok t past t []
  /-- One step is taken. -/
  | one {t' : τ} {es : List δ} (b : β) (hok : ok t past b) (hstep : step t b = some (t', es)) :
      AtMostOne step ok t past t' es

section Simulations

variable {step : σ → α → Option (σ × List ε)} {ok : σ → List ε → α → Prop} {start s : σ}
  {step' : τ → β → Option (τ × List δ)} {ok' : τ → List δ → β → Prop} {start' t : τ}
  {past : List ε} {past' : List δ}

/-- Nothing has happened, or one step. -/
theorem AtMostOne.eq_or_step {t' : τ} {es : List δ} (h : AtMostOne step' ok' t past' t' es) :
    t' = t ∧ es = [] ∨ ∃ b, ok' t past' b ∧ step' t b = some (t', es) := by
  cases h with
  | stay => exact Or.inl ⟨rfl, rfl⟩
  | one b hb hstep => exact Or.inr ⟨b, hb, hstep⟩

/-- A guarded step passes every weaker guard. -/
theorem AtMostOne.weaken {ok : τ → List δ → β → Prop} {t' : τ} {es : List δ}
    (h : AtMostOne step' ok' t past' t' es) (hok : ∀ b, ok' t past' b → ok t past' b) :
    AtMostOne step' ok t past' t' es := by
  cases h with
  | stay => exact .stay
  | one b hb hstep => exact .one b (hok b hb) hstep

/-- A run goes on with at most one step. -/
theorem Run.atMostOne {t' : τ} {es : List δ} (h : Run step' ok' start' t past')
    (hnext : AtMostOne step' ok' t past' t' es) : Run step' ok' start' t' (past' ++ es) := by
  cases hnext with
  | stay => rwa [List.append_nil]
  | one b hok hstep => exact .step h hok hstep

/-- **Runs are matched by runs**: where a relation holds at the start, and every step from related
states is matched so that it holds again, every run is matched by one that shows what is seen of
its history. -/
theorem Run.simulated (view : ε → Option δ) {R : σ → List ε → τ → Prop} (hinit : R start [] start')
    (hmatch : ∀ s past a s' es t, Run step ok start s past →
      Run step' ok' start' t (past.filterMap view) → R s past t → ok s past a →
      step s a = some (s', es) →
      ∃ t', AtMostOne step' ok' t (past.filterMap view) t' (es.filterMap view) ∧
        R s' (past ++ es) t')
    (h : Run step ok start s past) :
    ∃ t, Run step' ok' start' t (past.filterMap view) ∧ R s past t := by
  induction h with
  | init => exact ⟨start', .init, hinit⟩
  | step hrun hok hs ih =>
    obtain ⟨t, hrun', hR⟩ := ih
    obtain ⟨t', hnext, hR'⟩ := hmatch _ _ _ _ _ t hrun hrun' hR hok hs
    refine ⟨t', ?_, hR'⟩
    rw [List.filterMap_append]
    exact hrun'.atMostOne hnext

end Simulations

end Transition
