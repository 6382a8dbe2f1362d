import Mathlib.Data.List.Basic
import Mathlib.Data.List.Induction
import Mathlib.Data.List.TakeWhile

/-!
# Cutting a sequence at its first separator

A line reader takes everything up to the first separator out of its buffer and
leaves what follows it. Growing the buffer at its end changes neither the line
taken nor where it ends, which is what makes reading incremental.
-/

namespace Lines

variable {α : Type*} [DecidableEq α]

/-- What stands before and after the first `sep`; `none` where there is none. -/
def cut (sep : α) : List α → Option (List α × List α)
  | [] => none
  | a :: l => if a = sep then some ([], l) else (cut sep l).map fun p => (a :: p.1, p.2)

/-- Without a separator there is nothing to cut. -/
theorem cut_eq_none_iff {sep : α} {l : List α} : cut sep l = none ↔ sep ∉ l := by
  induction l with
  | nil => simp [cut]
  | cons a l ih =>
    by_cases h : a = sep
    · simp [cut, h]
    · simp [cut, h, ih, Ne.symm h]

/-- A cut takes a separator-free line and leaves what follows its separator. -/
theorem cut_eq_some_iff {sep : α} {l line rest : List α} :
    cut sep l = some (line, rest) ↔ l = line ++ sep :: rest ∧ sep ∉ line := by
  induction l generalizing line with
  | nil => simp [cut]
  | cons a l ih =>
    by_cases h : a = sep
    · subst h
      cases line with
      | nil => simp [cut, eq_comm]
      | cons b line =>
        simp only [cut, if_true, Option.some.injEq, Prod.mk.injEq, reduceCtorEq, false_and,
          List.cons_append, List.cons.injEq, List.mem_cons, not_or, false_iff, not_and]
        rintro ⟨rfl, _⟩ hne
        exact absurd rfl hne
    · cases line with
      | nil => simp [cut, h]
      | cons b line =>
        simp only [cut, if_neg h, Option.map_eq_some_iff, Prod.exists, Prod.mk.injEq,
          List.cons.injEq, List.cons_append, List.mem_cons, not_or]
        constructor
        · rintro ⟨x, y, hxy, ⟨rfl, rfl⟩, rfl⟩
          obtain ⟨hl, hnot⟩ := ih.mp hxy
          exact ⟨⟨rfl, hl⟩, Ne.symm h, hnot⟩
        · rintro ⟨⟨rfl, hl⟩, _, hnot⟩
          exact ⟨line, rest, ih.mpr ⟨hl, hnot⟩, ⟨rfl, rfl⟩, rfl⟩

/-- Cutting right behind a separator-free line. -/
@[simp] theorem cut_append_cons {sep : α} {line : List α} (h : sep ∉ line) (rest : List α) :
    cut sep (line ++ sep :: rest) = some (line, rest) :=
  cut_eq_some_iff.mpr ⟨rfl, h⟩

/-- More input behind a complete line only lengthens what is left. -/
theorem cut_append {sep : α} {l line rest : List α} (h : cut sep l = some (line, rest))
    (more : List α) : cut sep (l ++ more) = some (line, rest ++ more) := by
  obtain ⟨rfl, hnot⟩ := cut_eq_some_iff.mp h
  simp [hnot]

/-- What a cut leaves is shorter than what it was given. -/
theorem length_lt_of_cut {sep : α} {l line rest : List α} (h : cut sep l = some (line, rest)) :
    rest.length < l.length := by
  obtain ⟨rfl, _⟩ := cut_eq_some_iff.mp h
  simp only [List.length_append, List.length_cons]
  omega

/-- Complete lines, each followed by its separator. -/
def join (sep : α) (lines : List (List α)) : List α := lines.flatMap fun line => line ++ [sep]

omit [DecidableEq α] in
@[simp] theorem join_nil (sep : α) : join sep [] = [] := rfl

omit [DecidableEq α] in
@[simp] theorem join_cons (sep : α) (line : List α) (lines : List (List α)) :
    join sep (line :: lines) = line ++ sep :: join sep lines := by
  simp [join]

omit [DecidableEq α] in
@[simp] theorem join_append (sep : α) (lines more : List (List α)) :
    join sep (lines ++ more) = join sep lines ++ join sep more := by
  simp [join]

/-- What stands behind the last separator. -/
def unfinished (sep : α) (l : List α) : List α := (l.reverse.takeWhile (· ≠ sep)).reverse

/-- Behind complete lines, what is unfinished is what has no separator. -/
theorem unfinished_join_append {sep : α} (lines : List (List α)) {tail : List α}
    (h : sep ∉ tail) : unfinished sep (join sep lines ++ tail) = tail := by
  have hall : ∀ a ∈ tail.reverse, (decide (a ≠ sep)) = true := by
    intro a ha
    simp only [ne_eq, decide_not, Bool.not_eq_eq_eq_not, Bool.not_true, decide_eq_false_iff_not]
    rintro rfl
    exact h (List.mem_reverse.mp ha)
  cases lines using List.reverseRecOn with
  | nil =>
    rw [join_nil, List.nil_append, unfinished,
      List.takeWhile_eq_self_iff.mpr hall, List.reverse_reverse]
  | append_singleton lines line =>
    rw [unfinished, join_append, join_cons, join_nil, List.reverse_append, List.reverse_append,
      List.reverse_append, List.reverse_singleton, List.append_assoc, List.singleton_append,
      List.takeWhile_append_of_pos hall, List.takeWhile_cons_of_neg (by simp), List.append_nil,
      List.reverse_reverse]

/-- Nothing in front of a separator is behind the last one. -/
theorem unfinished_append_cons (sep : α) (line rest : List α) :
    unfinished sep (line ++ sep :: rest) = unfinished sep rest := by
  have hstop : ∀ l l' : List α, (l ++ sep :: l').takeWhile (fun a => decide (a ≠ sep)) =
      l.takeWhile fun a => decide (a ≠ sep) := by
    intro l l'
    induction l with
    | nil => simp
    | cons a l ih => rw [List.cons_append, List.takeWhile_cons, List.takeWhile_cons, ih]
  rw [unfinished, List.reverse_append, List.reverse_cons, List.append_assoc,
    List.singleton_append, hstop, unfinished]

/-- Without a separator everything is unfinished. -/
theorem unfinished_eq_self {sep : α} {l : List α} (h : sep ∉ l) : unfinished sep l = l := by
  simpa using unfinished_join_append [] h

/-- Of two ways to split complete lines off a sequence, one goes on where the other stops. -/
theorem prefix_or_prefix {sep : α} {lines lines' : List (List α)} {rest rest' : List α}
    (hlines : ∀ line ∈ lines, sep ∉ line) (hlines' : ∀ line ∈ lines', sep ∉ line)
    (h : join sep lines ++ rest = join sep lines' ++ rest') :
    (∃ more, lines' = lines ++ more ∧ rest = join sep more ++ rest') ∨
      ∃ more, lines = lines' ++ more ∧ rest' = join sep more ++ rest := by
  induction lines generalizing lines' with
  | nil => exact Or.inl ⟨lines', rfl, by simpa using h⟩
  | cons line lines ih =>
    cases lines' with
    | nil => exact Or.inr ⟨line :: lines, rfl, by simpa using h.symm⟩
    | cons line' lines' =>
      have hcut := cut_append_cons (hlines line (by simp)) (join sep lines ++ rest)
      rw [join_cons, join_cons, List.append_assoc, List.append_assoc, List.cons_append,
        List.cons_append] at h
      rw [h, cut_append_cons (hlines' line' (by simp))] at hcut
      obtain ⟨rfl, hrest⟩ := Prod.mk.inj (Option.some.inj hcut)
      rcases ih (fun l hl => hlines l (by simp [hl])) (fun l hl => hlines' l (by simp [hl]))
        hrest.symm with ⟨more, rfl, hmore⟩ | ⟨more, rfl, hmore⟩
      · exact Or.inl ⟨more, rfl, hmore⟩
      · exact Or.inr ⟨more, rfl, hmore⟩

/-- Nothing is unfinished: the sequence is empty or ends with a separator. -/
def Closed (sep : α) (l : List α) : Prop := l = [] ∨ ∃ l', l = l' ++ [sep]

omit [DecidableEq α] in
/-- What is left behind a line of a closed sequence is closed. -/
theorem Closed.rest {sep : α} {line rest : List α} (h : Closed sep (line ++ sep :: rest)) :
    Closed sep rest := by
  rcases h with h | ⟨l', h⟩
  · simp at h
  · cases rest using List.reverseRecOn with
    | nil => exact Or.inl rfl
    | append_singleton rest a =>
      rw [← List.cons_append, ← List.append_assoc] at h
      obtain ⟨_, ha⟩ := List.append_inj' h rfl
      exact Or.inr ⟨rest, by rw [List.singleton_inj.mp ha]⟩

/-- A closed sequence is empty or has a first line. -/
theorem Closed.eq_nil_or {sep : α} {l : List α} (h : Closed sep l) :
    l = [] ∨ ∃ line rest, l = line ++ sep :: rest ∧ sep ∉ line ∧ Closed sep rest := by
  cases hcut : cut sep l with
  | none =>
    have hnot := cut_eq_none_iff.mp hcut
    rcases h with h | ⟨l', rfl⟩
    · exact Or.inl h
    · exact absurd (by simp) hnot
  | some p =>
    obtain ⟨hl, hnot⟩ := cut_eq_some_iff.mp hcut
    exact Or.inr ⟨p.1, p.2, hl, hnot, (hl ▸ h).rest⟩

/-- The complete lines of a sequence. -/
def whole (sep : α) : List α → List (List α)
  | [] => []
  | a :: l =>
    if a = sep then [] :: whole sep l
    else
      match whole sep l with
      | [] => []
      | line :: lines => (a :: line) :: lines

/-- A line in front of the others. -/
theorem whole_append_cons {sep : α} {line : List α} (h : sep ∉ line) (rest : List α) :
    whole sep (line ++ sep :: rest) = line :: whole sep rest := by
  induction line with
  | nil => simp [whole]
  | cons a line ih =>
    obtain ⟨hne, hnot⟩ := not_or.mp (List.mem_cons.not.mp h)
    simp only [List.cons_append, whole, if_neg (Ne.symm hne), ih hnot]

/-- Without a separator there is no complete line. -/
theorem whole_eq_nil {sep : α} {l : List α} (h : sep ∉ l) : whole sep l = [] := by
  induction l with
  | nil => rfl
  | cons a l ih =>
    obtain ⟨hne, hnot⟩ := not_or.mp (List.mem_cons.not.mp h)
    simp only [whole, if_neg (Ne.symm hne), ih hnot]

/-- A sequence is its complete lines and what is unfinished. -/
theorem join_whole_append_unfinished (sep : α) (l : List α) :
    join sep (whole sep l) ++ unfinished sep l = l := by
  induction hn : l.length using Nat.strong_induction_on generalizing l with
  | _ n ih =>
    cases hcut : cut sep l with
    | none =>
      have hnot := cut_eq_none_iff.mp hcut
      rw [whole_eq_nil hnot, unfinished_eq_self hnot, join_nil, List.nil_append]
    | some p =>
      have hlt := length_lt_of_cut hcut
      obtain ⟨rfl, hnot⟩ := cut_eq_some_iff.mp hcut
      rw [whole_append_cons hnot, unfinished_append_cons, join_cons, List.append_assoc,
        List.cons_append, ih _ (hn ▸ hlt) p.2 rfl]

/-- No separator stands inside a complete line. -/
theorem not_mem_of_mem_whole {sep : α} {l line : List α} (h : line ∈ whole sep l) :
    sep ∉ line := by
  induction hn : l.length using Nat.strong_induction_on generalizing l with
  | _ n ih =>
    cases hcut : cut sep l with
    | none =>
      rw [whole_eq_nil (cut_eq_none_iff.mp hcut)] at h
      cases h
    | some p =>
      have hlt := length_lt_of_cut hcut
      obtain ⟨rfl, hnot⟩ := cut_eq_some_iff.mp hcut
      rw [whole_append_cons hnot] at h
      rcases List.mem_cons.mp h with rfl | h
      · exact hnot
      · exact ih _ (hn ▸ hlt) h rfl

/-- The complete lines of joined lines. -/
theorem whole_join {sep : α} {lines : List (List α)} (h : ∀ line ∈ lines, sep ∉ line) :
    whole sep (join sep lines) = lines := by
  induction lines with
  | nil => rfl
  | cons line lines ih =>
    rw [join_cons, whole_append_cons (h line (by simp)), ih fun l hl => h l (by simp [hl])]

end Lines
