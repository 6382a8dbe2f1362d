import MacroBus.Lib.Utf8

/-!
# How much lossy decoding grows octets

Octets that are UTF-8 are encoded again as they were. An ill-formed piece of one, two or
three octets becomes a replacement character, which has three, so what lossy decoding adds
is counted by these pieces.
-/

namespace Utf8

/-- What is added where one character is read: three octets for a piece of fewer. -/
def headGrowth (head : Char × ℕ) : ℕ := if head.1 = replacement then 2 - head.2 else 0

/-- What is added behind the first `skip` octets. -/
def growthSkipping : ℕ → List UInt8 → ℕ
  | _, [] => 0
  | skip + 1, _ :: rest => growthSkipping skip rest
  | 0, a :: rest =>
    headGrowth (decodeHead a rest) + growthSkipping (decodeHead a rest).2 rest

/-- How many octets are added by decoding and encoding again. -/
def growth (octets : List UInt8) : ℕ := growthSkipping 0 octets

/-- The size of a character from its code point. -/
theorem utf8Size_ofNat {n size : ℕ} (hvalid : n < 0xD800 ∨ (0xDFFF < n ∧ n < 0x110000))
    (hsize : n < 0x80 ∧ size = 1 ∨ 0x80 ≤ n ∧ n < 0x800 ∧ size = 2 ∨
      0x800 ≤ n ∧ n < 0x10000 ∧ size = 3 ∨ 0x10000 ≤ n ∧ size = 4) :
    (Char.ofNat n).utf8Size = size := by
  have hval : (Char.ofNat n).val.toNat = n := toNat_ofNat_of_valid hvalid
  rcases hsize with ⟨h, rfl⟩ | ⟨h, h', rfl⟩ | ⟨h, h', rfl⟩ | ⟨h, rfl⟩
  · rw [Char.utf8Size_eq_one_iff, UInt32.le_iff_toNat_le, hval]
    exact Nat.le_of_lt_succ h
  · rw [Char.utf8Size_eq_two_iff, UInt32.le_iff_toNat_le, UInt32.lt_iff_toNat_lt, hval]
    exact ⟨h, Nat.le_of_lt_succ h'⟩
  · rw [Char.utf8Size_eq_three_iff, UInt32.le_iff_toNat_le, UInt32.lt_iff_toNat_lt, hval]
    exact ⟨h, Nat.le_of_lt_succ h'⟩
  · rw [Char.utf8Size_eq_four_iff, UInt32.lt_iff_toNat_lt, hval]
    exact h

/-- A character of the size of its octets adds nothing. -/
theorem size_of_whole {c : Char} {skip : ℕ} (h : c.utf8Size = skip + 1) :
    c.utf8Size = skip + 1 + headGrowth (c, skip) := by
  unfold headGrowth
  split
  · next hc =>
    dsimp only at hc
    subst hc
    have hthree : replacement.utf8Size = 3 := by decide
    omega
  · exact h

/-- **One character**: it has the octets it was read from, and what is added. -/
theorem decodeHead_size (a : UInt8) (rest : List UInt8) :
    (decodeHead a rest).2 ≤ rest.length ∧
      (decodeHead a rest).1.utf8Size =
        (decodeHead a rest).2 + 1 + headGrowth (decodeHead a rest) := by
  have hrep : ∀ skip ≤ 2, replacement.utf8Size = skip + 1 + headGrowth (replacement, skip) := by
    decide
  have ha := a.toNat_lt
  unfold decodeHead
  split
  · next h1 => exact ⟨Nat.zero_le _, size_of_whole (utf8Size_ofNat (by omega) (by omega))⟩
  split
  · next h2 =>
    split
    · next b rest =>
      split
      · next hb =>
        simp only [isTail, Bool.and_eq_true, decide_eq_true_eq] at hb
        exact ⟨by simp, size_of_whole (utf8Size_ofNat (by omega) (by omega))⟩
      · exact ⟨Nat.zero_le _, hrep 0 (by omega)⟩
    · exact ⟨Nat.zero_le _, hrep 0 (by omega)⟩
  split
  · next h3 =>
    split
    · next b rest =>
      split
      · next hb =>
        split
        · next c rest =>
          split
          · next hc =>
            refine ⟨by simp, size_of_whole ?_⟩
            simp only [isSecondOf3, isTail] at hb hc
            split at hb <;> [skip; split at hb] <;>
              (simp only [Bool.and_eq_true, decide_eq_true_eq] at hb hc
               exact utf8Size_ofNat (by omega) (by omega))
          · exact ⟨by simp, hrep 1 (by omega)⟩
        · exact ⟨by simp, hrep 1 (by omega)⟩
      · exact ⟨Nat.zero_le _, hrep 0 (by omega)⟩
    · exact ⟨Nat.zero_le _, hrep 0 (by omega)⟩
  split
  · next h4 =>
    split
    · next b rest =>
      split
      · next hb =>
        split
        · next c rest =>
          split
          · next hc =>
            split
            · next d rest =>
              split
              · next hd =>
                refine ⟨by simp, size_of_whole ?_⟩
                simp only [isSecondOf4, isTail] at hb hc hd
                split at hb <;> [skip; split at hb] <;>
                  (simp only [Bool.and_eq_true, decide_eq_true_eq] at hb hc hd
                   exact utf8Size_ofNat (by omega) (by omega))
              · exact ⟨by simp, hrep 2 (by omega)⟩
            · exact ⟨by simp, hrep 2 (by omega)⟩
          · exact ⟨by simp, hrep 1 (by omega)⟩
        · exact ⟨by simp, hrep 1 (by omega)⟩
      · exact ⟨Nat.zero_le _, hrep 0 (by omega)⟩
    · exact ⟨Nat.zero_le _, hrep 0 (by omega)⟩
  · exact ⟨Nat.zero_le _, hrep 0 (by omega)⟩

/-- **Decoded octets encode to as many, and what is added.** -/
theorem length_encode_decodeLossy (octets : List UInt8) :
    (encode (decodeLossy octets)).length = octets.length + growth octets := by
  have hskip : ∀ (l : List UInt8) (skip : ℕ), skip ≤ l.length →
      (encode (decodeSkipping skip l)).length + skip = l.length + growthSkipping skip l := by
    intro l
    induction l with
    | nil =>
      intro skip hle
      rw [List.length_nil] at hle
      obtain rfl : skip = 0 := by omega
      rfl
    | cons a l ih =>
      intro skip hle
      cases skip with
      | succ skip =>
        rw [List.length_cons] at hle
        have hrest := ih skip (by omega)
        rw [decodeSkipping, growthSkipping, List.length_cons]
        omega
      | zero =>
        obtain ⟨hle', hsize⟩ := decodeHead_size a l
        have hrest := ih _ hle'
        rw [decodeSkipping, growthSkipping, encode_cons, List.length_append, List.length_cons,
          String.length_utf8EncodeChar]
        omega
  exact hskip octets 0 (Nat.zero_le _)

/-- Octets of no character at all are replaced one by one. -/
theorem growth_replicate {a : UInt8} (ha : 0xF5 ≤ a.toNat) (n : ℕ) :
    growth (List.replicate n a) = 2 * n := by
  have hhead : ∀ rest, decodeHead a rest = (replacement, 0) := by
    intro rest
    unfold decodeHead
    rw [if_neg (by omega), if_neg (by omega), if_neg (by omega), if_neg (by omega)]
  have hgrowth : headGrowth (replacement, 0) = 2 := by decide
  unfold growth
  induction n with
  | zero => rfl
  | succ n ih =>
    rw [List.replicate_succ, growthSkipping, hhead, hgrowth, ih]
    omega

end Utf8
