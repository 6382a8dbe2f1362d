import MacroBus.Lib.Lines
import MacroBus.Busd.Registry

/-!
# Message ids

An id is the name of its daemon, a hyphen and a sequence number in hexadecimal. The
hyphen is the last one, whatever the name looks like, so an id determines both.
-/

namespace MacroBus

/-- The digits of a hexadecimal number are distinct characters, none of them a hyphen. -/
theorem digitChar_facts : ∀ a < 16, Nat.digitChar a ≠ '-' ∧
    ∀ b < 16, Nat.digitChar a = Nat.digitChar b → a = b := by decide

/-- A hexadecimal number consists of digits. -/
theorem exists_of_mem_lowerHex {c : Char} {n : ℕ} (h : c ∈ lowerHex n) :
    ∃ d < 16, c = Nat.digitChar d := by
  unfold lowerHex at h
  induction n using Nat.strong_induction_on with
  | _ n ih =>
    rw [Nat.toDigits_eq_if (by decide)] at h
    split at h
    · next hlt => exact ⟨n, hlt, List.mem_singleton.mp h⟩
    · next hge =>
      have hsmaller : n / 16 < n := Nat.div_lt_self (by omega) (by decide)
      rcases List.mem_append.mp h with h | h
      · exact ih _ hsmaller h
      · exact ⟨n % 16, Nat.mod_lt n (by decide), List.mem_singleton.mp h⟩

/-- A hexadecimal number has no hyphen. -/
theorem hyphen_not_mem_lowerHex (n : ℕ) : '-' ∉ lowerHex n := by
  intro h
  obtain ⟨d, hd, heq⟩ := exists_of_mem_lowerHex h
  exact (digitChar_facts d hd).1 heq.symm

/-- A hexadecimal number is determined by its digits. -/
theorem lowerHex_injective : Function.Injective lowerHex := by
  intro m
  unfold lowerHex
  induction m using Nat.strong_induction_on with
  | _ m ih =>
    intro n heq
    rw [Nat.toDigits_eq_if (by decide), Nat.toDigits_eq_if (n := n) (by decide)] at heq
    have hpos : ∀ k, 0 < (Nat.toDigits 16 k).length := fun k => Nat.length_toDigits_pos
    split at heq
    · next hm =>
      split at heq
      · next hn => exact (digitChar_facts m hm).2 n hn (List.singleton_inj.mp heq)
      · have hlen := congrArg List.length heq
        have := hpos (n / 16)
        rw [List.length_append, List.length_singleton, List.length_singleton] at hlen
        omega
    · next hm =>
      split at heq
      · have hlen := congrArg List.length heq
        have := hpos (m / 16)
        rw [List.length_append, List.length_singleton, List.length_singleton] at hlen
        omega
      · have hsmaller : m / 16 < m := Nat.div_lt_self (by omega) (by decide)
        obtain ⟨hinit, hlast⟩ := List.append_inj' heq rfl
        have hdiv : m / 16 = n / 16 := ih _ hsmaller hinit
        have hmod : m % 16 = n % 16 :=
          (digitChar_facts _ (Nat.mod_lt m (by decide))).2 _ (Nat.mod_lt n (by decide))
            (List.singleton_inj.mp hlast)
        omega

/-- **An id determines its daemon and its number.** -/
theorem messageId_inj {name name' : Str} {n n' : ℕ}
    (h : name ++ '-' :: lowerHex n = name' ++ '-' :: lowerHex n') : name = name' ∧ n = n' := by
  have hrev := congrArg List.reverse h
  simp only [List.reverse_append, List.reverse_cons, List.append_assoc,
    List.singleton_append] at hrev
  have hnot : ∀ n, '-' ∉ (lowerHex n).reverse := fun n hmem =>
    hyphen_not_mem_lowerHex n (List.mem_reverse.mp hmem)
  have hcut := Lines.cut_append_cons (hnot n) name.reverse
  rw [hrev, Lines.cut_append_cons (hnot n')] at hcut
  obtain ⟨hhex, hname⟩ := Prod.mk.inj (Option.some.inj hcut.symm)
  exact ⟨List.reverse_injective hname, lowerHex_injective (List.reverse_injective hhex)⟩

end MacroBus
