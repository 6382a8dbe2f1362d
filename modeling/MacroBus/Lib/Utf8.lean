import Mathlib.Data.List.Basic
import Mathlib.Data.Char

/-!
# Lossy UTF-8 decoding

`encode` is the UTF-8 encoding of a character sequence. `decodeLossy` reads any
octets at all: every maximal ill-formed prefix of a character becomes one
replacement character U+FFFD, the rest is decoded. The two facts used later are
that decoding inverts encoding and that an ASCII character is read from its own
octet only.
-/

namespace Utf8

/-- The octets of a character sequence. -/
def encode (s : List Char) : List UInt8 := s.flatMap String.utf8EncodeChar

@[simp] theorem encode_nil : encode [] = [] := rfl

@[simp] theorem encode_cons (c : Char) (s : List Char) :
    encode (c :: s) = String.utf8EncodeChar c ++ encode s := by
  simp [encode]

@[simp] theorem encode_append (s t : List Char) : encode (s ++ t) = encode s ++ encode t := by
  simp [encode]

/-- The replacement character, which stands for octets that are not UTF-8. -/
def replacement : Char := '\uFFFD'

/-- A continuation octet, `10xxxxxx`. -/
def isTail (b : UInt8) : Bool := 0x80 ≤ b.toNat && b.toNat ≤ 0xBF

/-- The octets that may follow the first octet `a` of a three-octet character. -/
def isSecondOf3 (a b : UInt8) : Bool :=
  if a.toNat = 0xE0 then 0xA0 ≤ b.toNat && b.toNat ≤ 0xBF
  else if a.toNat = 0xED then 0x80 ≤ b.toNat && b.toNat ≤ 0x9F
  else isTail b

/-- The octets that may follow the first octet `a` of a four-octet character. -/
def isSecondOf4 (a b : UInt8) : Bool :=
  if a.toNat = 0xF0 then 0x90 ≤ b.toNat && b.toNat ≤ 0xBF
  else if a.toNat = 0xF4 then 0x80 ≤ b.toNat && b.toNat ≤ 0x8F
  else isTail b

/-- Read one character whose first octet is `a`: the character and the number of
octets it takes from `rest`. Ill-formed octets give the replacement character and
take the longest prefix that some character starts with. -/
def decodeHead (a : UInt8) (rest : List UInt8) : Char × ℕ :=
  if a.toNat < 0x80 then (Char.ofNat a.toNat, 0)
  else if 0xC2 ≤ a.toNat ∧ a.toNat ≤ 0xDF then
    match rest with
    | b :: _ => if isTail b then (Char.ofNat (a.toNat % 32 * 64 + b.toNat % 64), 1)
        else (replacement, 0)
    | [] => (replacement, 0)
  else if 0xE0 ≤ a.toNat ∧ a.toNat ≤ 0xEF then
    match rest with
    | b :: rest =>
      if isSecondOf3 a b then
        match rest with
        | c :: _ =>
          if isTail c then
            (Char.ofNat (a.toNat % 16 * 4096 + b.toNat % 64 * 64 + c.toNat % 64), 2)
          else (replacement, 1)
        | [] => (replacement, 1)
      else (replacement, 0)
    | [] => (replacement, 0)
  else if 0xF0 ≤ a.toNat ∧ a.toNat ≤ 0xF4 then
    match rest with
    | b :: rest =>
      if isSecondOf4 a b then
        match rest with
        | c :: rest =>
          if isTail c then
            match rest with
            | d :: _ =>
              if isTail d then
                (Char.ofNat (a.toNat % 8 * 262144 + b.toNat % 64 * 4096 + c.toNat % 64 * 64 +
                  d.toNat % 64), 3)
              else (replacement, 2)
            | [] => (replacement, 2)
          else (replacement, 1)
        | [] => (replacement, 1)
      else (replacement, 0)
    | [] => (replacement, 0)
  else (replacement, 0)

/-- Decode after skipping the first `skip` octets, which belong to a character
already read. -/
def decodeSkipping : ℕ → List UInt8 → List Char
  | _, [] => []
  | skip + 1, _ :: rest => decodeSkipping skip rest
  | 0, a :: rest => (decodeHead a rest).1 :: decodeSkipping (decodeHead a rest).2 rest

/-- Decode octets, replacing what is not UTF-8. -/
def decodeLossy (octets : List UInt8) : List Char := decodeSkipping 0 octets

@[simp] theorem decodeLossy_nil : decodeLossy [] = [] := rfl

@[simp] theorem decodeSkipping_append (l m : List UInt8) :
    decodeSkipping l.length (l ++ m) = decodeSkipping 0 m := by
  induction l with
  | nil => rfl
  | cons a l ih => simpa [decodeSkipping] using ih

/-- The octet of a number below 256, as a number. -/
theorem toNat_octet {n : ℕ} (h : n < 256) : (UInt8.ofNat n).toNat = n := by
  simp [Nat.mod_eq_of_lt h]

/-- A character is the one with its own code point. -/
private theorem ofNat_val_toNat (c : Char) : Char.ofNat c.val.toNat = c := Char.ofNat_toNat c

/-- The code points of characters leave out the surrogates and end at U+10FFFF. -/
private theorem val_range (c : Char) :
    c.val.toNat < 0xD800 ∨ (0xDFFF < c.val.toNat ∧ c.val.toNat < 0x110000) := c.valid

/-- Reading an encoded character gives the character back and takes exactly its
remaining octets. -/
theorem exists_decodeHead_encodeChar (c : Char) (rest : List UInt8) :
    ∃ a tail, String.utf8EncodeChar c = a :: tail ∧
      decodeHead a (tail ++ rest) = (c, tail.length) := by
  have hr := val_range c
  have hback := ofNat_val_toNat c
  generalize hv : c.val.toNat = v at hr hback
  unfold String.utf8EncodeChar
  simp only [hv]
  by_cases h1 : v ≤ 127
  · refine ⟨UInt8.ofNat v, [], by simp [h1], ?_⟩
    have ha := toNat_octet (n := v) (by omega)
    simp [decodeHead, ha, show v < 128 by omega, hback]
  by_cases h2 : v ≤ 2047
  · refine ⟨_, [UInt8.ofNat (v % 64 + 128)], by simp only [h1, h2, if_true, if_false]; rfl, ?_⟩
    have ha := toNat_octet (n := v / 64 % 32 + 192) (by omega)
    have hb := toNat_octet (n := v % 64 + 128) (by omega)
    have hvalue : (v / 64 % 32 + 192) % 32 * 64 + (v % 64 + 128) % 64 = v := by omega
    simp only [decodeHead, List.cons_append, List.nil_append, isTail, ha, hb]
    rw [if_neg (by omega), if_pos (by omega), if_pos (by simp; omega), hvalue, hback]
    rfl
  by_cases h3 : v ≤ 65535
  · refine ⟨_, [UInt8.ofNat (v / 64 % 64 + 128), UInt8.ofNat (v % 64 + 128)],
      by simp only [h1, h2, h3, if_true, if_false]; rfl, ?_⟩
    have ha := toNat_octet (n := v / 4096 % 16 + 224) (by omega)
    have hb := toNat_octet (n := v / 64 % 64 + 128) (by omega)
    have hc := toNat_octet (n := v % 64 + 128) (by omega)
    have hvalue : (v / 4096 % 16 + 224) % 16 * 4096 + (v / 64 % 64 + 128) % 64 * 64 +
        (v % 64 + 128) % 64 = v := by omega
    have hsecond : isSecondOf3 (UInt8.ofNat (v / 4096 % 16 + 224))
        (UInt8.ofNat (v / 64 % 64 + 128)) = true := by
      simp only [isSecondOf3, isTail, ha, hb]
      split
      · simp; omega
      split
      · simp; omega
      · simp; omega
    simp only [decodeHead, List.cons_append, List.nil_append, hsecond, isTail, ha, hc]
    rw [if_neg (by omega), if_neg (by omega), if_pos (by omega), if_pos trivial,
      if_pos (by simp; omega), hb, hvalue, hback]
    rfl
  · refine ⟨_, [UInt8.ofNat (v / 4096 % 64 + 128), UInt8.ofNat (v / 64 % 64 + 128),
      UInt8.ofNat (v % 64 + 128)], by simp only [h1, h2, h3, if_false]; rfl, ?_⟩
    have ha := toNat_octet (n := v / 262144 % 8 + 240) (by omega)
    have hb := toNat_octet (n := v / 4096 % 64 + 128) (by omega)
    have hc := toNat_octet (n := v / 64 % 64 + 128) (by omega)
    have hd := toNat_octet (n := v % 64 + 128) (by omega)
    have hvalue : (v / 262144 % 8 + 240) % 8 * 262144 + (v / 4096 % 64 + 128) % 64 * 4096 +
        (v / 64 % 64 + 128) % 64 * 64 + (v % 64 + 128) % 64 = v := by omega
    have hsecond : isSecondOf4 (UInt8.ofNat (v / 262144 % 8 + 240))
        (UInt8.ofNat (v / 4096 % 64 + 128)) = true := by
      simp only [isSecondOf4, isTail, ha, hb]
      split
      · simp; omega
      split
      · simp; omega
      · simp; omega
    simp only [decodeHead, List.cons_append, List.nil_append, hsecond, isTail, ha, hc, hd]
    rw [if_neg (by omega), if_neg (by omega), if_neg (by omega), if_pos (by omega),
      if_pos trivial, if_pos (by simp; omega), if_pos (by simp; omega), hb, hvalue, hback]
    rfl

/-- Decoding inverts encoding, whatever octets follow. -/
theorem decodeSkipping_encode_append (s : List Char) (rest : List UInt8) :
    decodeSkipping 0 (encode s ++ rest) = s ++ decodeSkipping 0 rest := by
  induction s with
  | nil => rfl
  | cons c s ih =>
    obtain ⟨a, tail, henc, hhead⟩ := exists_decodeHead_encodeChar c (encode s ++ rest)
    rw [encode_cons, henc, List.append_assoc, List.cons_append, decodeSkipping, hhead,
      decodeSkipping_append, ih, List.cons_append]

/-- Decoding inverts encoding. -/
@[simp] theorem decodeLossy_encode (s : List Char) : decodeLossy (encode s) = s := by
  simpa [decodeLossy, decodeSkipping] using decodeSkipping_encode_append s []

/-- No character beyond ASCII has an ASCII octet in its encoding. -/
theorem mem_encodeChar_ascii {c : Char} {b : UInt8} (hb : b.toNat < 0x80)
    (h : b ∈ String.utf8EncodeChar c) : String.utf8EncodeChar c = [b] ∧ c.val.toNat = b.toNat := by
  have hr := val_range c
  unfold String.utf8EncodeChar at h ⊢
  generalize c.val.toNat = v at *
  simp only at h ⊢
  split at h
  · next h1 =>
    simp only [List.mem_singleton] at h
    subst h
    rw [if_pos h1, toNat_octet (by omega)]
    exact ⟨rfl, rfl⟩
  · exfalso
    split at h
    · simp only [List.mem_cons, List.not_mem_nil, or_false] at h
      rcases h with rfl | rfl <;> (rw [toNat_octet (by omega)] at hb; omega)
    split at h
    · simp only [List.mem_cons, List.not_mem_nil, or_false] at h
      rcases h with rfl | rfl | rfl <;> (rw [toNat_octet (by omega)] at hb; omega)
    · simp only [List.mem_cons, List.not_mem_nil, or_false] at h
      rcases h with rfl | rfl | rfl | rfl <;> (rw [toNat_octet (by omega)] at hb; omega)

/-- An ASCII character is sent as its octet. -/
theorem encodeChar_ascii {c : Char} (hc : c.toNat < 0x80) :
    String.utf8EncodeChar c = [UInt8.ofNat c.toNat] := by
  have hle : c.val.toNat ≤ 127 := Nat.le_of_lt_succ hc
  unfold String.utf8EncodeChar
  simp only [if_pos hle]
  rfl

/-- ASCII text is sent as one octet for each character. -/
theorem encode_ascii {s : List Char} (hs : ∀ c ∈ s, c.toNat < 0x80) :
    encode s = s.map fun c => UInt8.ofNat c.toNat := by
  induction s with
  | nil => rfl
  | cons c s ih =>
    rw [encode_cons, encodeChar_ascii (hs c List.mem_cons_self),
      ih fun d hd => hs d (List.mem_cons_of_mem _ hd)]
    rfl

/-- An ASCII octet is read as the character with its value, by itself. -/
theorem decodeHead_of_lt {a : UInt8} (h : a.toNat < 0x80) (rest : List UInt8) :
    decodeHead a rest = (Char.ofNat a.toNat, 0) := by
  simp [decodeHead, h]

/-- A valid code point is the one of its character. -/
theorem toNat_ofNat_of_valid {n : ℕ} (h : n < 0xD800 ∨ (0xDFFF < n ∧ n < 0x110000)) :
    (Char.ofNat n).toNat = n := by
  have hv : n.isValidChar := h
  rw [Char.ofNat, dif_pos hv]
  rfl

/-- What is read from any other octet is not ASCII: overlong forms are refused, so
no character hides an ASCII one. -/
theorem decodeHead_of_le {a : UInt8} (h : 0x80 ≤ a.toNat) (rest : List UInt8) :
    0x80 ≤ (decodeHead a rest).1.toNat := by
  have hrep : 0x80 ≤ replacement.toNat := by decide
  unfold decodeHead
  rw [if_neg (by omega)]
  split
  · next h2 =>
    split
    · next b _ =>
      split
      · next hb =>
        simp only [isTail, Bool.and_eq_true, decide_eq_true_eq] at hb
        dsimp only
        rw [toNat_ofNat_of_valid (by omega)]
        omega
      · exact hrep
    · exact hrep
  split
  · next h3 =>
    split
    · next b rest =>
      split
      · next hb =>
        split
        · next c _ =>
          split
          · next hc =>
            dsimp only
            simp only [isSecondOf3, isTail] at hb hc
            split at hb <;> [skip; split at hb] <;>
              (simp only [Bool.and_eq_true, decide_eq_true_eq] at hb hc
               rw [toNat_ofNat_of_valid (by omega)]
               omega)
          · exact hrep
        · exact hrep
      · exact hrep
    · exact hrep
  split
  · next h4 =>
    split
    · next b rest =>
      split
      · next hb =>
        split
        · next c rest =>
          split
          · next hc =>
            split
            · next d _ =>
              split
              · next hd =>
                dsimp only
                simp only [isSecondOf4, isTail] at hb hc hd
                split at hb <;> [skip; split at hb] <;>
                  (simp only [Bool.and_eq_true, decide_eq_true_eq] at hb hc hd
                   rw [toNat_ofNat_of_valid (by omega)]
                   omega)
              · exact hrep
            · exact hrep
          · exact hrep
        · exact hrep
      · exact hrep
    · exact hrep
  · exact hrep

/-- The octets that belong to a character after its first are not ASCII. -/
theorem decodeHead_tail (a : UInt8) (rest : List UInt8) :
    ∀ b ∈ rest.take (decodeHead a rest).2, 0x80 ≤ b.toNat := by
  have htail : ∀ {b : UInt8}, isTail b = true → 0x80 ≤ b.toNat := by
    intro b hb
    simp only [isTail, Bool.and_eq_true, decide_eq_true_eq] at hb
    exact hb.1
  have hsecond3 : ∀ {b : UInt8}, isSecondOf3 a b = true → 0x80 ≤ b.toNat := by
    intro b hb
    simp only [isSecondOf3, isTail] at hb
    split at hb <;> [skip; split at hb] <;>
      (simp only [Bool.and_eq_true, decide_eq_true_eq] at hb; omega)
  have hsecond4 : ∀ {b : UInt8}, isSecondOf4 a b = true → 0x80 ≤ b.toNat := by
    intro b hb
    simp only [isSecondOf4, isTail] at hb
    split at hb <;> [skip; split at hb] <;>
      (simp only [Bool.and_eq_true, decide_eq_true_eq] at hb; omega)
  unfold decodeHead
  split
  · simp
  split
  · split
    · split
      · next hb => simpa using htail hb
      · simp
    · simp
  split
  · split
    · split
      · next hb =>
        split
        · split
          · next hc => simpa using ⟨hsecond3 hb, htail hc⟩
          · simpa using hsecond3 hb
        · simpa using hsecond3 hb
      · simp
    · simp
  split
  · split
    · split
      · next hb =>
        split
        · split
          · next hc =>
            split
            · split
              · next hd => simpa using ⟨hsecond4 hb, htail hc, htail hd⟩
              · simpa using ⟨hsecond4 hb, htail hc⟩
            · simpa using ⟨hsecond4 hb, htail hc⟩
          · simpa using hsecond4 hb
        · simpa using hsecond4 hb
      · simp
    · simp
  · simp

/-- **An ASCII character is read as often as its octet occurs.** -/
theorem count_decodeLossy {c : Char} (hc : c.toNat < 0x80) (octets : List UInt8) :
    (decodeLossy octets).count c = octets.count (UInt8.ofNat c.toNat) := by
  have hval : (UInt8.ofNat c.toNat).toNat = c.toNat := toNat_octet (by omega)
  have hskip : ∀ (l : List UInt8) (skip : ℕ), (∀ b ∈ l.take skip, 0x80 ≤ b.toNat) →
      (decodeSkipping skip l).count c = l.count (UInt8.ofNat c.toNat) := by
    intro l
    induction l with
    | nil =>
      intro skip _
      simp [decodeSkipping]
    | cons a l ih =>
      intro skip hbig
      cases skip with
      | succ skip =>
        have ha := hbig a (by simp)
        have hne : a ≠ UInt8.ofNat c.toNat := by
          rintro rfl
          omega
        rw [decodeSkipping, ih skip fun b hb => hbig b (by simp [hb]), List.count_cons_of_ne hne]
      | zero =>
        rw [decodeSkipping, List.count_cons, List.count_cons, ih _ (decodeHead_tail a l)]
        congr 1
        by_cases ha : a.toNat < 0x80
        · rw [decodeHead_of_lt ha]
          have hiff : Char.ofNat a.toNat = c ↔ a = UInt8.ofNat c.toNat := by
            constructor
            · rintro rfl
              rw [toNat_ofNat_of_valid (by omega), UInt8.ofNat_toNat]
            · rintro rfl
              rw [hval, Char.ofNat_toNat]
          simp [hiff]
        · have hhead := decodeHead_of_le (by omega : 0x80 ≤ a.toNat) l
          have hne : (decodeHead a l).1 ≠ c := by
            rintro rfl
            omega
          have hne' : a ≠ UInt8.ofNat c.toNat := by
            rintro rfl
            omega
          simp [hne, hne']
  exact hskip octets 0 (by simp)

/-- An ASCII octet in front is read as its character. -/
theorem decodeLossy_cons {a : UInt8} (ha : a.toNat < 0x80) (octets : List UInt8) :
    decodeLossy (a :: octets) = Char.ofNat a.toNat :: decodeLossy octets := by
  simp only [decodeLossy, decodeSkipping, decodeHead_of_lt ha]

/-- An ASCII character at the front is read from its own octet. -/
theorem decodeLossy_eq_cons {c : Char} (hc : c.toNat < 0x80) {octets : List UInt8}
    {s : List Char} (h : decodeLossy octets = c :: s) :
    ∃ a rest, octets = a :: rest ∧ a.toNat = c.toNat ∧ decodeLossy rest = s := by
  cases octets with
  | nil => cases h
  | cons a rest =>
    simp only [decodeLossy, decodeSkipping, List.cons.injEq] at h
    obtain ⟨hhead, htail⟩ := h
    by_cases ha : a.toNat < 0x80
    · rw [decodeHead_of_lt ha] at hhead htail
      refine ⟨a, rest, rfl, ?_, htail⟩
      rw [← hhead]
      exact (toNat_ofNat_of_valid (by omega)).symm
    · have := decodeHead_of_le (by omega : 0x80 ≤ a.toNat) rest
      rw [hhead] at this
      omega

/-- Nothing but no octets decodes to nothing. -/
theorem decodeLossy_eq_nil {octets : List UInt8} (h : decodeLossy octets = []) : octets = [] := by
  cases octets with
  | nil => rfl
  | cons a rest => cases h

/-- A single ASCII character is read from exactly its octet. -/
theorem decodeLossy_eq_singleton_iff {c : Char} (hc : c.toNat < 0x80) (octets : List UInt8) :
    decodeLossy octets = [c] ↔ octets = [UInt8.ofNat c.toNat] := by
  constructor
  · intro h
    obtain ⟨a, rest, rfl, ha, hrest⟩ := decodeLossy_eq_cons hc h
    rw [decodeLossy_eq_nil hrest, ← ha, UInt8.ofNat_toNat]
  · rintro rfl
    have ha : (UInt8.ofNat c.toNat).toNat = c.toNat := toNat_octet (by omega)
    simp only [decodeLossy, decodeSkipping, decodeHead_of_lt (ha ▸ hc), ha, Char.ofNat_toNat]

end Utf8
