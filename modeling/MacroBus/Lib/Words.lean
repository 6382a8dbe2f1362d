import Mathlib.Data.List.DropRight
import Mathlib.Tactic.TypeStar

/-!
# Words between separators

The words of a list are its maximal nonempty parts without a separator. Separators at
either end, or many in a row, do not matter.
-/

namespace Words

variable {α : Type*} [DecidableEq α] {a : α} {xs ys w : List α}

/-- The words of a list, with the separator `a`. -/
def words (a : α) (xs : List α) : List (List α) := (xs.splitOn a).filter fun w => !w.isEmpty

/-- There are no words in nothing. -/
@[simp] theorem words_nil : words a ([] : List α) = [] := by
  simp [words]

/-- A separator ends a word and starts another. -/
theorem words_append_cons (xs ys : List α) : words a (xs ++ a :: ys) = words a xs ++ words a ys := by
  unfold words
  rw [List.splitOn_append_cons_self, List.filter_append]

/-- A separator in front does not matter. -/
@[simp] theorem words_cons_self (xs : List α) : words a (a :: xs) = words a xs := by
  have happend := words_append_cons (a := a) [] xs
  rwa [words_nil, List.nil_append, List.nil_append] at happend

/-- A separator at the end does not matter. -/
@[simp] theorem words_concat_self (xs : List α) : words a (xs ++ [a]) = words a xs := by
  rw [words_append_cons, words_nil, List.append_nil]

/-- A single word. -/
theorem words_eq_singleton (hmem : a ∉ xs) (hne : xs ≠ []) : words a xs = [xs] := by
  unfold words
  rw [List.splitOn_eq_singleton hmem]
  cases xs with
  | nil => exact absurd rfl hne
  | cons x xs => rfl

/-- What stands between separators is a part without a separator. -/
theorem mem_splitOn (h : w ∈ xs.splitOn a) : a ∉ w ∧ w <:+: xs := by
  induction hn : xs.length using Nat.strong_induction_on generalizing xs with
  | _ n ih =>
    by_cases hmem : a ∈ xs
    · obtain ⟨before, after, rfl, hbefore⟩ := List.eq_append_cons_of_mem hmem
      have hlt : after.length < n := by
        rw [← hn, List.length_append, List.length_cons]
        omega
      rw [List.splitOn_append_cons_self, List.splitOn_eq_singleton hbefore] at h
      rcases List.mem_append.mp h with h | h
      · obtain rfl := List.mem_singleton.mp h
        exact ⟨hbefore, (List.prefix_append _ _).isInfix⟩
      · obtain ⟨hno, hpart⟩ := ih _ hlt h rfl
        refine ⟨hno, hpart.trans ?_⟩
        exact ((List.suffix_cons a after).trans (List.suffix_append before _)).isInfix
    · rw [List.splitOn_eq_singleton hmem] at h
      obtain rfl := List.mem_singleton.mp h
      exact ⟨hmem, List.infix_refl _⟩

/-- **Words are parts**: nonempty ones without a separator. -/
theorem mem_words (h : w ∈ words a xs) : w ≠ [] ∧ a ∉ w ∧ w <:+: xs := by
  obtain ⟨hsplit, hne⟩ := List.mem_filter.mp h
  refine ⟨?_, mem_splitOn hsplit⟩
  rintro rfl
  cases hne

omit [DecidableEq α] in
/-- What is in joined words. -/
theorem mem_intercalate {x : α} {ws : List (List α)} (h : x ∈ [a].intercalate ws) :
    x = a ∨ ∃ w ∈ ws, x ∈ w := by
  induction ws with
  | nil => simp at h
  | cons w ws ih =>
    cases ws with
    | nil =>
      rw [List.intercalate_singleton] at h
      exact Or.inr ⟨w, List.mem_singleton_self w, h⟩
    | cons w' ws =>
      rw [List.intercalate_cons_cons] at h
      rcases List.mem_append.mp h with h | h
      · rcases List.mem_append.mp h with h | h
        · exact Or.inr ⟨w, List.mem_cons_self, h⟩
        · exact Or.inl (List.mem_singleton.mp h)
      · rcases ih h with heq | ⟨v, hv, hx⟩
        · exact Or.inl heq
        · exact Or.inr ⟨v, List.mem_cons_of_mem w hv, hx⟩

/-- Joining words and taking them apart again. -/
theorem words_intercalate {ws : List (List α)} (hws : ∀ w ∈ ws, w ≠ [] ∧ a ∉ w) :
    words a ([a].intercalate ws) = ws := by
  by_cases hne : ws = []
  · rw [hne]
    exact words_nil
  · unfold words
    rw [List.splitOn_intercalate a (fun w hw => (hws w hw).2) hne]
    refine List.filter_eq_self.mpr fun w hw => ?_
    have hw := (hws w hw).1
    cases w with
    | nil => exact absurd rfl hw
    | cons x w => rfl

section Trimming

/-- Separators in front do not matter. -/
@[simp] theorem words_dropWhile (a : α) (xs : List α) :
    words a (xs.dropWhile fun x => decide (x = a)) = words a xs := by
  induction xs with
  | nil => rfl
  | cons x xs ih =>
    by_cases hx : x = a
    · subst hx
      rw [List.dropWhile_cons_of_pos (by simp), ih, words_cons_self]
    · rw [List.dropWhile_cons_of_neg (by simpa using hx)]

/-- Separators at the end do not matter. -/
@[simp] theorem words_rdropWhile (a : α) (xs : List α) :
    words a (xs.rdropWhile fun x => decide (x = a)) = words a xs := by
  induction xs using List.reverseRecOn with
  | nil => rw [List.rdropWhile_nil]
  | append_singleton xs x ih =>
    by_cases hx : x = a
    · subst hx
      rw [List.rdropWhile_concat_pos _ _ _ (by simp), ih, words_concat_self]
    · rw [List.rdropWhile_concat_neg _ _ _ (by simpa using hx)]

/-- **The first word** of a list that does not start with a separator, and the others. -/
theorem words_eq_cons (hne : xs ≠ []) (hhead : ∀ ys, xs ≠ a :: ys) :
    words a xs = xs.takeWhile (fun x => decide (x ≠ a)) ::
      words a ((xs.dropWhile fun x => decide (x ≠ a)).drop 1) := by
  by_cases hmem : a ∈ xs
  · obtain ⟨before, after, rfl, hbefore⟩ := List.eq_append_cons_of_mem hmem
    have hall : ∀ x ∈ before, decide (x ≠ a) = true := fun x hx =>
      decide_eq_true fun heq => hbefore (heq ▸ hx)
    have hne' : before ≠ [] := by
      rintro rfl
      exact hhead after rfl
    rw [words_append_cons, words_eq_singleton hbefore hne',
      List.takeWhile_append_of_pos hall, List.dropWhile_append_of_pos hall,
      List.takeWhile_cons_of_neg (by simp), List.dropWhile_cons_of_neg (by simp),
      List.append_nil]
    rfl
  · have hall : ∀ x ∈ xs, decide (x ≠ a) = true := fun x hx =>
      decide_eq_true fun heq => hmem (heq ▸ hx)
    rw [words_eq_singleton hmem hne, List.takeWhile_eq_self_iff.mpr hall,
      List.dropWhile_eq_nil_iff.mpr hall, List.drop_nil, words_nil]

/-- The head of what is left when separators are dropped is no separator. -/
theorem dropWhile_ne_cons (a : α) (xs ys : List α) :
    (xs.dropWhile fun x => decide (x = a)) ≠ a :: ys := by
  intro heq
  have hhead := List.head_dropWhile_not (fun x => decide (x = a)) (l := xs) (by rw [heq]; simp)
  simp [heq] at hhead

/-- There are no words where there are only separators. -/
theorem words_eq_nil_iff : words a xs = [] ↔ ∀ x ∈ xs, x = a := by
  rw [← words_dropWhile]
  constructor
  · intro hnil
    by_cases hdrop : (xs.dropWhile fun x => decide (x = a)) = []
    · intro x hx
      exact of_decide_eq_true (List.dropWhile_eq_nil_iff.mp hdrop x hx)
    · rw [words_eq_cons hdrop (dropWhile_ne_cons a xs)] at hnil
      cases hnil
  · intro hall
    rw [List.dropWhile_eq_nil_iff.mpr fun x hx => decide_eq_true (hall x hx), words_nil]

/-- **A list that neither starts nor ends with a separator** is its only word, or has several. -/
theorem words_tight (hne : xs ≠ []) (hhead : ∀ ys, xs ≠ a :: ys) (hlast : ∀ ys, xs ≠ ys ++ [a]) :
    a ∉ xs ∧ words a xs = [xs] ∨ a ∈ xs ∧ ∃ w w' ws, words a xs = w :: w' :: ws := by
  by_cases hmem : a ∈ xs
  · refine Or.inr ⟨hmem, ?_⟩
    obtain ⟨before, after, rfl, hbefore⟩ := List.eq_append_cons_of_mem hmem
    have hne' : before ≠ [] := by
      rintro rfl
      exact hhead after rfl
    have hafter : words a after ≠ [] := by
      intro hnil
      rcases List.eq_nil_or_concat' after with rfl | ⟨zs, z, rfl⟩
      · exact hlast before rfl
      · have hz : z = a := words_eq_nil_iff.mp hnil z (by simp)
        exact hlast (before ++ a :: zs) (by rw [hz, List.append_assoc, List.cons_append])
    obtain ⟨w, ws, hws⟩ := List.exists_cons_of_ne_nil hafter
    rw [words_append_cons, words_eq_singleton hbefore hne', hws]
    exact ⟨before, w, ws, rfl⟩
  · exact Or.inl ⟨hmem, words_eq_singleton hmem hne⟩

end Trimming

end Words
