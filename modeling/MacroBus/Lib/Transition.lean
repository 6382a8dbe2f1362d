import Mathlib.Data.Finset.Range
import Mathlib.Data.Finset.Card
import Mathlib.Tactic.TypeStar

/-!
# Runs of a labelled transition system

A system is given by a partial step function: an action either is disabled, or
leads to one next state and emits a list of events. A run keeps the state it has
reached together with the events emitted so far, so a property may speak about the
past without ghost fields in the state. Every step of a run passes a guard, which
is how assumptions on the environment are stated.
-/

namespace Transition

variable {σ : Type*} {α : Type*} {ε : Type*}

/-- The states reachable from `start`, each with the events emitted on the way, by
steps that all pass the guard `ok`. -/
inductive Run (step : σ → α → Option (σ × List ε)) (ok : σ → List ε → α → Prop) (start : σ) :
    σ → List ε → Prop
  | init : Run step ok start start []
  | step {s s' : σ} {past es : List ε} {a : α} : Run step ok start s past → ok s past a →
      step s a = some (s', es) → Run step ok start s' (past ++ es)

/-- The guard that admits every step. -/
def anyStep : σ → List ε → α → Prop := fun _ _ _ => True

section Invariants

variable {step : σ → α → Option (σ × List ε)} {ok : σ → List ε → α → Prop} {start : σ}

/-- A property of the state and the past that holds at the start and is kept by every
guarded step holds in every state reached. -/
theorem Run.invariant {I : σ → List ε → Prop} (hinit : I start [])
    (hstep : ∀ s past a s' es, I s past → ok s past a → step s a = some (s', es) →
      I s' (past ++ es))
    {s : σ} {past : List ε} (h : Run step ok start s past) : I s past := by
  induction h with
  | init => exact hinit
  | step _ hok hs ih => exact hstep _ _ _ _ _ ih hok hs

/-- As `Run.invariant`, where the step may also use that its state was reached. -/
theorem Run.invariant_of_reached {I : σ → List ε → Prop} (hinit : I start [])
    (hstep : ∀ s past a s' es, Run step ok start s past → I s past → ok s past a →
      step s a = some (s', es) → I s' (past ++ es))
    {s : σ} {past : List ε} (h : Run step ok start s past) : I s past := by
  induction h with
  | init => exact hinit
  | step hrun hok hs ih => exact hstep _ _ _ _ _ hrun ih hok hs

/-- As `Run.invariant`, under an assumption on the history that holds of every part of it. -/
theorem Run.invariant_of_history {H : List ε → Prop} {I : σ → List ε → Prop}
    (hparts : ∀ past es, H (past ++ es) → H past) (hinit : I start [])
    (hstep : ∀ s past a s' es, I s past → ok s past a → step s a = some (s', es) →
      H (past ++ es) → I s' (past ++ es))
    {s : σ} {past : List ε} (h : Run step ok start s past) (hpast : H past) : I s past := by
  induction h with
  | init => exact hinit
  | step _ hok hs ih =>
    have hbefore := ih (hparts _ _ hpast)
    exact hstep _ _ _ _ _ hbefore hok hs hpast

/-- A run under a guard is one under every guard that is met along the run. -/
theorem Run.of_reached {ok' : σ → List ε → α → Prop}
    (hok : ∀ s past a, Run step ok start s past → ok s past a → ok' s past a)
    {s : σ} {past : List ε} (h : Run step ok start s past) : Run step ok' start s past := by
  induction h with
  | init => exact .init
  | step hrun ha hs ih => exact .step ih (hok _ _ _ hrun ha) hs

/-- A run under a guard is a run under every weaker guard. -/
theorem Run.weaken {ok' : σ → List ε → α → Prop} (hok : ∀ s past a, ok s past a → ok' s past a)
    {s : σ} {past : List ε} (h : Run step ok start s past) : Run step ok' start s past :=
  h.of_reached fun s past a _ => hok s past a

/-- What has happened in a run happened in a step of it. -/
theorem Run.exists_step {s : σ} {past : List ε} {e : ε} (h : Run step ok start s past)
    (he : e ∈ past) :
    ∃ t before a t' es after, Run step ok start t before ∧ ok t before a ∧
      step t a = some (t', es) ∧ past = before ++ (es ++ after) ∧ e ∈ es := by
  induction h with
  | init => cases he
  | @step t t' past es a hrun hok hs ih =>
    rcases List.mem_append.mp he with hold | hnew
    · obtain ⟨u, before, b, u', es', after, hrun', hok', hs', rfl, hmem⟩ := ih hold
      exact ⟨u, before, b, u', es', after ++ es, hrun', hok', hs', by simp, hmem⟩
    · exact ⟨t, past, a, t', es, [], hrun, hok, hs, by rw [List.append_nil], hnew⟩

/-- What every step keeps unless it does something else is kept by a run, or was kept up to a step
that does it. -/
theorem Run.kept_or_exists_step {P : σ → Prop} {D : σ → α → σ → List ε → Prop}
    (hkeep : ∀ s a s' es, P s → step s a = some (s', es) → P s' ∨ D s a s' es)
    {s : σ} {past : List ε} (h : Run step ok start s past) (hstart : P start) :
    P s ∨ ∃ t before a t' es after, Run step ok start t before ∧ P t ∧
      step t a = some (t', es) ∧ D t a t' es ∧ past = before ++ (es ++ after) := by
  induction h with
  | init => exact Or.inl hstart
  | @step t t' past es a hrun hok hs ih =>
    rcases ih with hkept | ⟨u, before, b, u', es', after, hrun', hkept, hs', hdone, rfl⟩
    · rcases hkeep _ _ _ _ hkept hs with hkept' | hdone
      · exact Or.inl hkept'
      · exact Or.inr ⟨t, past, a, t', es, [], hrun, hkept, hs, hdone, by rw [List.append_nil]⟩
    · exact Or.inr ⟨u, before, b, u', es', after ++ es, hrun', hkept, hs', hdone, by simp⟩

/-- A run goes on from where another one has led, under a guard that does not look further back. -/
theorem Run.append {s s' : σ} {past past' : List ε} (h : Run step ok start s past)
    (hok : ∀ t later a, ok t later a → ok t (past ++ later) a)
    (h' : Run step ok s s' past') : Run step ok start s' (past ++ past') := by
  induction h' with
  | init => rwa [List.append_nil]
  | step _ ha hs ih =>
    rw [← List.append_assoc]
    exact .step ih (hok _ _ _ ha) hs

/-- A run goes on from where another one has led. -/
theorem Run.trans {ok' : σ → List ε → α → Prop} {s s' : σ} {past past' : List ε}
    (h : Run step anyStep start s past) (h' : Run step ok' s s' past') :
    Run step anyStep start s' (past ++ past') := by
  induction h' with
  | init => rwa [List.append_nil]
  | step _ _ hs ih =>
    rw [← List.append_assoc]
    exact .step ih trivial hs

end Invariants

section Executions

variable (step : σ → α → Option (σ × List ε)) (ok : σ → List ε → α → Bool)

/-- Perform a list of actions, checking the guard before each; `none` where one is
disabled or refused. -/
def exec : σ → List ε → List α → Option (σ × List ε)
  | s, past, [] => some (s, past)
  | s, past, a :: as =>
    if ok s past a then
      match step s a with
      | none => none
      | some (s', es) => exec s' (past ++ es) as
    else none

variable {step} {ok}

/-- An execution extends the run it starts from. -/
theorem Run.exec {start s s' : σ} {past past' : List ε} {as : List α}
    (h : Run step (fun s past a => ok s past a = true) start s past)
    (he : exec step ok s past as = some (s', past')) :
    Run step (fun s past a => ok s past a = true) start s' past' := by
  induction as generalizing s past with
  | nil =>
    simp only [Transition.exec, Option.some.injEq, Prod.mk.injEq] at he
    obtain ⟨rfl, rfl⟩ := he
    exact h
  | cons a as ih =>
    simp only [Transition.exec] at he
    split at he
    · next hok =>
      cases hs : step s a with
      | none => simp [hs] at he
      | some p =>
        obtain ⟨t, es⟩ := p
        simp only [hs] at he
        exact ih (.step h hok hs) he
    · cases he

/-- An execution of actions that every guard admits extends a run. -/
theorem Run.exec_of_forall {ok : σ → List ε → α → Prop} {start s s' : σ} {past past' : List ε}
    {as : List α} (hok : ∀ a ∈ as, ∀ s past, ok s past a) (h : Run step ok start s past)
    (he : Transition.exec step (fun _ _ _ => true) s past as = some (s', past')) :
    Run step ok start s' past' := by
  induction as generalizing s past with
  | nil =>
    simp only [Transition.exec, Option.some.injEq, Prod.mk.injEq] at he
    obtain ⟨rfl, rfl⟩ := he
    exact h
  | cons a as ih =>
    simp only [Transition.exec, if_true] at he
    cases hs : step s a with
    | none => simp [hs] at he
    | some p =>
      obtain ⟨t, es⟩ := p
      simp only [hs] at he
      exact ih (fun b hb => hok b (List.mem_cons_of_mem _ hb))
        (.step h (hok a List.mem_cons_self _ _) hs) he

/-- **A symmetry of the steps is one of the executions**: where renaming the state and the
action of a step renames what it leads to, it does so for a list of actions. -/
theorem exec_map {f : σ → σ} {g : α → α} {k : ε → ε}
    (hstep : ∀ s a, step (f s) (g a) = (step s a).map fun p => (f p.1, p.2.map k))
    (s : σ) (past : List ε) (as : List α) :
    exec step (fun _ _ _ => true) (f s) (past.map k) (as.map g) =
      (exec step (fun _ _ _ => true) s past as).map fun p => (f p.1, p.2.map k) := by
  induction as generalizing s past with
  | nil => rfl
  | cons a as ih =>
    rw [List.map_cons, Transition.exec, Transition.exec, hstep]
    cases hs : step s a with
    | none => rfl
    | some p =>
      simp only [Option.map_some, if_true]
      rw [← List.map_append]
      exact ih p.1 (past ++ p.2)

variable (step) (ok)

/-- The run an execution from the start performs. -/
theorem run_of_exec (start : σ) (as : List α) {s : σ} {past : List ε}
    (he : exec step ok start [] as = some (s, past)) :
    Run step (fun s past a => ok s past a = true) start s past :=
  Run.exec .init he

/-- A property that an execution is seen to end with, as one of a run. -/
theorem exists_run (start : σ) (as : List α) {P : σ → List ε → Prop}
    [∀ s past, Decidable (P s past)]
    (he : (exec step ok start [] as).any (fun p => decide (P p.1 p.2)) = true) :
    ∃ s past, Run step (fun s past a => ok s past a = true) start s past ∧ P s past := by
  obtain ⟨⟨s, past⟩, hexec, hP⟩ := (Option.any_eq_true _ _).mp he
  exact ⟨s, past, run_of_exec step ok start as hexec, of_decide_eq_true hP⟩

variable {step}

/-- **What leads back can be repeated for ever**: actions that lead from a state to itself
give an endless behaviour. -/
theorem exists_endless {allowed : σ → α → Bool} {start : σ} {as : List α} {past es : List ε}
    (hne : as ≠ []) (hloop : exec step (fun s _ a => allowed s a) start past as = some (start, es)) :
    ∃ (s : ℕ → σ) (a : ℕ → α), s 0 = start ∧
      ∀ k, allowed (s k) (a k) = true ∧ ∃ es, step (s k) (a k) = some (s (k + 1), es) := by
  -- Somewhere in the loop, with these actions still to come.
  let Within : σ × List α → Prop := fun p => p.2 ≠ [] ∧
    ∃ past es, exec step (fun s _ a => allowed s a) p.1 past p.2 = some (start, es)
  have hnext : ∀ p : Subtype Within, ∃ (a : α) (q : Subtype Within),
      allowed p.1.1 a = true ∧ ∃ es, step p.1.1 a = some (q.1.1, es) := by
    rintro ⟨⟨t, rest⟩, hrest, past', es', hexec⟩
    cases rest with
    | nil => exact absurd rfl hrest
    | cons a rest =>
      simp only [Transition.exec] at hexec
      split at hexec
      · next hallowed =>
        cases hs : step t a with
        | none => simp [hs] at hexec
        | some p =>
          obtain ⟨u, new⟩ := p
          simp only [hs] at hexec
          cases rest with
          | nil =>
            simp only [Transition.exec, Option.some.injEq, Prod.mk.injEq] at hexec
            obtain ⟨rfl, _⟩ := hexec
            exact ⟨a, ⟨(u, as), hne, past, es, hloop⟩, hallowed, new, hs⟩
          | cons b rest =>
            exact ⟨a, ⟨(u, b :: rest), List.cons_ne_nil b rest, _, _, hexec⟩, hallowed, new, hs⟩
      · cases hexec
  choose action next hallowed hstep using hnext
  let first : Subtype Within := ⟨(start, as), hne, past, es, hloop⟩
  refine ⟨fun k => (next^[k] first).1.1, fun k => action (next^[k] first), rfl, fun k => ?_⟩
  refine ⟨hallowed _, ?_⟩
  dsimp only
  rw [Function.iterate_succ_apply']
  exact hstep _

end Executions

section Histories

/-- In the history, `e` happened, and then exactly `later`. -/
def Then (past : List ε) (e : ε) (later : List ε) : Prop := ∃ before, past = before ++ e :: later

/-- Nothing happened in an empty history. -/
theorem not_then_nil (e : ε) (later : List ε) : ¬Then [] e later := by
  rintro ⟨before, h⟩
  simp at h

/-- What happened then is what had happened, followed by the rest, or a part of the rest. -/
theorem then_append_iff {past es : List ε} {e : ε} {later : List ε} :
    Then (past ++ es) e later ↔
      (∃ mid, Then past e mid ∧ later = mid ++ es) ∨ Then es e later := by
  constructor
  · rintro ⟨before, h⟩
    rcases List.append_eq_append_iff.mp h with ⟨mid, rfl, hes⟩ | ⟨mid, rfl, hlater⟩
    · exact Or.inr ⟨mid, hes⟩
    · cases mid with
      | nil => exact Or.inr ⟨[], by simpa using hlater.symm⟩
      | cons a mid =>
        obtain ⟨rfl, rfl⟩ := List.cons.inj hlater
        exact Or.inl ⟨mid, ⟨before, rfl⟩, rfl⟩
  · rintro (⟨mid, ⟨before, rfl⟩, rfl⟩ | ⟨before, rfl⟩)
    · exact ⟨before, by simp⟩
    · exact ⟨past ++ before, by simp⟩

/-- What happened is in the history. -/
theorem Then.mem {past : List ε} {e : ε} {later : List ε} (h : Then past e later) : e ∈ past := by
  obtain ⟨before, rfl⟩ := h
  simp

/-- In a history of one event. -/
theorem then_singleton_iff {e e' : ε} {later : List ε} :
    Then [e'] e later ↔ e = e' ∧ later = [] := by
  constructor
  · rintro ⟨before, h⟩
    cases before with
    | nil =>
      obtain ⟨rfl, rfl⟩ := List.cons.inj h
      exact ⟨rfl, rfl⟩
    | cons a before => simp at h
  · rintro ⟨rfl, rfl⟩
    exact ⟨[], rfl⟩

/-- What happened after something later happened after it. -/
theorem Then.trans {past : List ε} {e e' : ε} {later later' : List ε} (h : Then past e later)
    (h' : Then later e' later') : Then past e' later' := by
  obtain ⟨before, rfl⟩ := h
  obtain ⟨mid, rfl⟩ := h'
  exact ⟨before ++ e :: mid, by simp⟩

/-- Of two things that happened, one happened first. -/
theorem Then.trichotomy {past : List ε} {e e' : ε} {later later' : List ε}
    (h : Then past e later) (h' : Then past e' later') :
    Then later e' later' ∨ Then later' e later ∨ e = e' ∧ later = later' := by
  obtain ⟨before, rfl⟩ := h
  obtain ⟨before', heq⟩ := h'
  rcases List.append_eq_append_iff.mp heq with ⟨mid, _, hmid⟩ | ⟨mid, _, hmid⟩
  · cases mid with
    | nil => exact Or.inr (Or.inr (by simpa using hmid))
    | cons a mid => exact Or.inl ⟨mid, (List.cons.inj hmid).2⟩
  · cases mid with
    | nil => exact Or.inr (Or.inr (by simpa [eq_comm] using hmid))
    | cons a mid => exact Or.inr (Or.inl ⟨mid, (List.cons.inj hmid).2⟩)

end Histories

section Termination

variable {step : σ → α → Option (σ × List ε)}

/-- The first `n` steps of a behaviour. -/
def Upto (step : σ → α → Option (σ × List ε)) (s : ℕ → σ) (a : ℕ → α) (n : ℕ) : Prop :=
  ∀ k < n, ∃ es, step (s k) (a k) = some (s (k + 1), es)

/-- **A measure bounds marked steps**: where it never grows and every marked step lowers it,
a behaviour makes at most as many marked steps as the measure of its first state. -/
theorem card_marked_le (μ : σ → ℕ) (ok : σ → α → Prop) (marked : σ → α → Bool) {I : σ → Prop}
    {s : ℕ → σ} {a : ℕ → α} {n : ℕ} (hrun : Upto step s a n) (h0 : I (s 0))
    (hok : ∀ k < n, ok (s k) (a k))
    (hkeep : ∀ t b u es, I t → ok t b → step t b = some (u, es) → I u)
    (hle : ∀ t b u es, I t → ok t b → step t b = some (u, es) →
      μ u + (marked t b).toNat ≤ μ t) :
    ((Finset.range n).filter fun k => marked (s k) (a k)).card ≤ μ (s 0) := by
  have hall : ∀ m ≤ n, I (s m) ∧
      ((Finset.range m).filter fun k => marked (s k) (a k)).card + μ (s m) ≤ μ (s 0) := by
    intro m
    induction m with
    | zero => exact fun _ => ⟨h0, by simp⟩
    | succ m ih =>
      intro hm
      obtain ⟨hI, hcard⟩ := ih (Nat.le_of_succ_le hm)
      obtain ⟨es, hs⟩ := hrun m hm
      refine ⟨hkeep _ _ _ _ hI (hok m hm) hs, ?_⟩
      have hstep := hle _ _ _ _ hI (hok m hm) hs
      rw [Finset.range_add_one, Finset.filter_insert]
      cases hmarked : marked (s m) (a m) with
      | false =>
        rw [if_neg (by simp)]
        rw [hmarked, Bool.toNat_false] at hstep
        omega
      | true =>
        rw [if_pos rfl, Finset.card_insert_of_notMem (by simp)]
        rw [hmarked, Bool.toNat_true] at hstep
        omega
  have hend := (hall n le_rfl).2
  omega

end Termination

end Transition
