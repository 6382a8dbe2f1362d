import Mathlib.Algebra.GroupWithZero.Nat
import Mathlib.Data.List.DropRight
import MacroBus.Lib.Utf8

/-!
# Text and octets

The Rust strings of the source are sequences of Unicode scalar values, here lists
of characters; what travels on a stream is their UTF-8 encoding. The string
operations of the standard library that the source calls are collected here under
their own names.
-/

namespace MacroBus

/-- A Rust string. -/
abbrev Str := List Char

/-- Octets, as they are read from and written to a stream. -/
abbrev Bytes := List UInt8

/-- `\n` -/
def LF : UInt8 := 10

/-- `\r` -/
def CR : UInt8 := 13

/-- `str::as_bytes` -/
abbrev Str.asBytes (s : Str) : Bytes := Utf8.encode s

/-- `String::from_utf8_lossy` -/
abbrev fromUtf8Lossy (octets : Bytes) : Str := Utf8.decodeLossy octets

/-- `str::len`, which counts octets. -/
def Str.len (s : Str) : ℕ := (Str.asBytes s).length

/-- An unsigned integer displayed in decimal. -/
def decimal (n : ℕ) : Str := Nat.toDigits 10 n

/-- An unsigned integer formatted with `{:x}`. -/
def lowerHex (n : ℕ) : Str := Nat.toDigits 16 n

/-- `str::split` at a character. -/
def Str.split (sep : Char) (s : Str) : List Str := List.splitOn sep s

/-- The first part of `str::splitn(2, sep)`. -/
def Str.splitFirst (sep : Char) (s : Str) : Str := s.takeWhile (· ≠ sep)

/-- The second part of `str::splitn(2, sep)`, empty where there is none. -/
def Str.splitSecond (sep : Char) (s : Str) : Str := (s.dropWhile (· ≠ sep)).drop 1

/-- A string cut behind its first `n` octets; `none` where these end inside a character, or
there are fewer. -/
def Str.splitAtOctet : ℕ → Str → Option (Str × Str)
  | 0, s => some ([], s)
  | _ + 1, [] => none
  | n + 1, c :: s =>
    if c.utf8Size ≤ n + 1 then
      (Str.splitAtOctet (n + 1 - c.utf8Size) s).map fun p => (c :: p.1, p.2)
    else none

/-- `str::strip_prefix` -/
def Str.stripPrefix (start s : Str) : Option Str :=
  if start.isPrefixOf s then some (s.drop start.length) else none

/-- `str::trim_matches` -/
def Str.trimMatches (p : Char → Bool) (s : Str) : Str := (s.dropWhile p).rdropWhile p

/-- `str::trim_start_matches` -/
def Str.trimStartMatches (p : Char → Bool) (s : Str) : Str := s.dropWhile p

/-- `char::is_whitespace`: the Unicode property `White_Space`. -/
def isWhitespace (c : Char) : Bool :=
  (0x9 ≤ c.toNat && c.toNat ≤ 0xD) || c.toNat = 0x20 || c.toNat = 0x85 || c.toNat = 0xA0 ||
    c.toNat = 0x1680 || (0x2000 ≤ c.toNat && c.toNat ≤ 0x200A) || c.toNat = 0x2028 ||
    c.toNat = 0x2029 || c.toNat = 0x202F || c.toNat = 0x205F || c.toNat = 0x3000

/-- `str::trim` -/
def Str.trim (s : Str) : Str := Str.trimMatches isWhitespace s

/-- `str::to_ascii_uppercase` -/
def Str.toAsciiUppercase (s : Str) : Str := s.map Char.toUpper

/-- `str::eq_ignore_ascii_case` -/
def Str.eqIgnoreAsciiCase (s t : Str) : Bool := s.map Char.toLower = t.map Char.toLower

/-- `char::is_ascii_graphic`: the visible ASCII characters. -/
def isAsciiGraphic (c : Char) : Bool := 0x21 ≤ c.toNat && c.toNat ≤ 0x7E

/-- Decimal digits read as a number below `bound`. -/
def parseDigits (bound : ℕ) (s : Str) : Option ℕ :=
  if s ≠ [] ∧ s.all Char.isDigit ∧ Nat.ofDigitChars 10 s 0 < bound then
    some (Nat.ofDigitChars 10 s 0)
  else none

/-- `str::parse` to an unsigned integer type with `bound` values. One leading `+` is
allowed. -/
def parseUnsigned (bound : ℕ) : Str → Option ℕ
  | '+' :: digits => parseDigits bound digits
  | s => parseDigits bound s

/-- The values of `u16`. -/
def u16Values : ℕ := 2 ^ 16

/-- The values of `u64`, and of `usize` on the supported targets. -/
def u64Values : ℕ := 2 ^ 64

/-- What is asked of all characters of a string is decided by going through the string, not
through all characters there are. -/
instance (priority := high) Str.decidableForallMem (s : Str) (p : Char → Prop) [DecidablePred p] :
    Decidable (∀ c ∈ s, p c) := List.decidableBAll p s

/-- A string counts what its parts count. -/
@[simp] theorem Str.len_append (s t : Str) : Str.len (s ++ t) = Str.len s + Str.len t := by
  simp [Str.len]

/-- A character counts its octets. -/
theorem Str.len_cons (c : Char) (s : Str) : Str.len (c :: s) = c.utf8Size + Str.len s := by
  simp [Str.len]

/-- Cutting behind a part takes the part. -/
theorem Str.splitAtOctet_append (s t : Str) :
    Str.splitAtOctet (Str.len s) (s ++ t) = some (s, t) := by
  induction s with
  | nil => cases t <;> rfl
  | cons c s ih =>
    have hpos := c.utf8Size_pos
    obtain ⟨n, hn⟩ : ∃ n, Str.len (c :: s) = n + 1 := Nat.exists_eq_add_one.mpr (by
      rw [Str.len_cons]
      omega)
    rw [hn, List.cons_append, Str.splitAtOctet]
    rw [Str.len_cons] at hn
    rw [if_pos (by omega), show n + 1 - c.utf8Size = Str.len s by omega, ih]
    rfl

/-- Cutting at an octet takes nothing away. -/
theorem Str.append_of_splitAtOctet {n : ℕ} {s t u : Str} (h : Str.splitAtOctet n s = some (t, u)) :
    t ++ u = s := by
  induction s generalizing n t u with
  | nil =>
    cases n with
    | zero =>
      obtain ⟨rfl, rfl⟩ := Prod.mk.inj (Option.some.inj h)
      rfl
    | succ n => cases h
  | cons c s ih =>
    cases n with
    | zero =>
      obtain ⟨rfl, rfl⟩ := Prod.mk.inj (Option.some.inj h)
      rfl
    | succ n =>
      rw [Str.splitAtOctet] at h
      split at h
      · obtain ⟨⟨t', u'⟩, hcut, heq⟩ := Option.map_eq_some_iff.mp h
        obtain ⟨rfl, rfl⟩ := Prod.mk.inj heq
        rw [List.cons_append, ih hcut]
      · cases h

/-- The first part has so many octets. -/
theorem Str.len_of_splitAtOctet {n : ℕ} {s t u : Str} (h : Str.splitAtOctet n s = some (t, u)) :
    t.len = n := by
  induction s generalizing n t u with
  | nil =>
    cases n with
    | zero =>
      obtain ⟨rfl, rfl⟩ := Prod.mk.inj (Option.some.inj h)
      rfl
    | succ n => cases h
  | cons c s ih =>
    cases n with
    | zero =>
      obtain ⟨rfl, rfl⟩ := Prod.mk.inj (Option.some.inj h)
      rfl
    | succ n =>
      rw [Str.splitAtOctet] at h
      split at h
      · next hsize =>
        obtain ⟨⟨t', u'⟩, hcut, heq⟩ := Option.map_eq_some_iff.mp h
        obtain ⟨rfl, rfl⟩ := Prod.mk.inj heq
        rw [Str.len_cons, ih hcut]
        omega
      · cases h

section Split

variable {sep : Char} {s : Str}

/-- The first part ends at the first separator. -/
theorem Str.split_append_cons (h : sep ∉ s) (t : Str) :
    Str.split sep (s ++ sep :: t) = s :: Str.split sep t :=
  List.splitOn_append_cons_self_of_not_mem h t

/-- Without a separator there is one part. -/
theorem Str.split_eq_singleton (h : sep ∉ s) : Str.split sep s = [s] :=
  List.splitOn_eq_singleton h

/-- What stands in front of the first separator. -/
theorem Str.splitFirst_append_cons (h : sep ∉ s) (t : Str) :
    Str.splitFirst sep (s ++ sep :: t) = s := by
  have hall : ∀ c ∈ s, (decide (c ≠ sep)) = true := by
    intro c hc
    rw [decide_eq_true_eq]
    rintro rfl
    exact h hc
  rw [Str.splitFirst, List.takeWhile_append_of_pos hall, List.takeWhile_cons_of_neg (by simp),
    List.append_nil]

/-- What stands behind it. -/
theorem Str.splitSecond_append_cons (h : sep ∉ s) (t : Str) :
    Str.splitSecond sep (s ++ sep :: t) = t := by
  have hall : ∀ c ∈ s, (decide (c ≠ sep)) = true := by
    intro c hc
    rw [decide_eq_true_eq]
    rintro rfl
    exact h hc
  rw [Str.splitSecond, List.dropWhile_append_of_pos hall, List.dropWhile_cons_of_neg (by simp),
    List.drop_one, List.tail_cons]

/-- A string has one part more than there are separators in it. -/
theorem Str.split_length (sep : Char) (s : Str) : (Str.split sep s).length = s.count sep + 1 := by
  induction hn : s.length using Nat.strong_induction_on generalizing s with
  | _ n ih =>
    by_cases hsep : sep ∈ s
    · obtain ⟨before, after, rfl, hbefore⟩ := List.eq_append_cons_of_mem hsep
      have hlt : after.length < n := by
        rw [← hn, List.length_append, List.length_cons]
        omega
      rw [Str.split_append_cons hbefore, List.length_cons, ih _ hlt after rfl, List.count_append,
        List.count_eq_zero_of_not_mem hbefore, List.count_cons_self, Nat.zero_add]
    · rw [Str.split_eq_singleton hsep, List.count_eq_zero_of_not_mem hsep]
      rfl

/-- Behind the first separator there is one separator less. -/
theorem Str.count_splitSecond (sep : Char) (s : Str) :
    (Str.splitSecond sep s).count sep = s.count sep - 1 := by
  by_cases hsep : sep ∈ s
  · obtain ⟨before, after, rfl, hbefore⟩ := List.eq_append_cons_of_mem hsep
    rw [Str.splitSecond_append_cons hbefore, List.count_append,
      List.count_eq_zero_of_not_mem hbefore, List.count_cons_self]
    omega
  · have hall : ∀ c ∈ s, (decide (c ≠ sep)) = true := by
      intro c hc
      rw [decide_eq_true_eq]
      rintro rfl
      exact hsep hc
    rw [Str.splitSecond, List.dropWhile_eq_nil_iff.mpr hall, List.drop_nil,
      List.count_eq_zero_of_not_mem hsep]
    rfl

/-- What stands in front of the first separator has none. -/
theorem Str.notMem_splitFirst (sep : Char) (s : Str) : sep ∉ Str.splitFirst sep s := by
  intro hmem
  have hne := List.mem_takeWhile_imp hmem
  simp at hne

end Split

/-- A displayed number is its digits. -/
theorem isDigit_of_mem_decimal {n : ℕ} {c : Char} (h : c ∈ decimal n) : c.isDigit = true :=
  Nat.isDigit_of_mem_toDigits (by decide) (by decide) h

/-- The digits of a number are neither spaces nor newlines. -/
theorem notMem_decimal {c : Char} (hc : c.isDigit = false) (n : ℕ) : c ∉ decimal n := by
  intro hmem
  rw [isDigit_of_mem_decimal hmem] at hc
  cases hc

/-- A digit is ASCII. -/
theorem toNat_lt_of_isDigit {c : Char} (h : c.isDigit = true) : c.toNat < 0x80 := by
  have hle : c.toNat ≤ '9'.toNat := by
    simp only [Char.isDigit, Bool.and_eq_true, decide_eq_true_eq] at h
    exact h.2
  exact lt_of_le_of_lt hle (by decide)

/-- The digits of a number are ASCII. -/
theorem toNat_lt_of_mem_decimal {n : ℕ} {c : Char} (h : c ∈ decimal n) : c.toNat < 0x80 :=
  toNat_lt_of_isDigit (isDigit_of_mem_decimal h)

/-- ASCII text has as many octets as characters. -/
theorem Str.len_ascii {s : Str} (h : ∀ c ∈ s, c.toNat < 0x80) : Str.len s = s.length := by
  rw [Str.len, Str.asBytes, Utf8.encode_ascii h, List.length_map]

/-- Digits are parsed to the number they display. -/
theorem parseUnsigned_digits {bound : ℕ} {s : Str} (hne : s ≠ [])
    (hall : ∀ c ∈ s, c.isDigit = true) (hlt : Nat.ofDigitChars 10 s 0 < bound) :
    parseUnsigned bound s = some (Nat.ofDigitChars 10 s 0) := by
  have hdigits : parseDigits bound s = some (Nat.ofDigitChars 10 s 0) := by
    rw [parseDigits, if_pos ⟨hne, List.all_eq_true.mpr hall, hlt⟩]
  unfold parseUnsigned
  split
  · next digits =>
    have hplus := hall '+' List.mem_cons_self
    exact absurd hplus (by decide)
  · exact hdigits

/-- Displaying a number and parsing it back. -/
theorem parseUnsigned_decimal {bound n : ℕ} (h : n < bound) :
    parseUnsigned bound (decimal n) = some n := by
  have hvalue : Nat.ofDigitChars 10 (decimal n) 0 = n := Nat.ofDigitChars_ten_toDigits
  have hparse := parseUnsigned_digits (s := decimal n) Nat.toDigits_ne_nil
    (fun c hc => isDigit_of_mem_decimal hc) (by rwa [hvalue])
  rwa [hvalue] at hparse

/-- What is parsed is digits, perhaps behind a plus sign. -/
theorem digits_of_parseUnsigned {bound n : ℕ} {s : Str} (h : parseUnsigned bound s = some n) :
    (∀ c ∈ s, c.isDigit = true) ∨ ∃ digits, s = '+' :: digits ∧ digits ≠ [] ∧
      ∀ c ∈ digits, c.isDigit = true := by
  have hdigits : ∀ {digits : Str}, parseDigits bound digits = some n →
      digits ≠ [] ∧ ∀ c ∈ digits, c.isDigit = true := by
    intro digits hparse
    unfold parseDigits at hparse
    split at hparse
    · next hall => exact ⟨hall.1, List.all_eq_true.mp hall.2.1⟩
    · cases hparse
  unfold parseUnsigned at h
  split at h
  · next digits =>
    obtain ⟨hne, hall⟩ := hdigits h
    exact Or.inr ⟨digits, rfl, hne, hall⟩
  · exact Or.inl (hdigits h).2

/-- A part of the digits displays no greater number. -/
theorem ofDigitChars_take_le (s : Str) (n : ℕ) :
    Nat.ofDigitChars 10 (s.take n) 0 ≤ Nat.ofDigitChars 10 s 0 := by
  have hgrow : ∀ (t : Str) (init : ℕ), init ≤ Nat.ofDigitChars 10 t init := by
    intro t
    induction t with
    | nil => exact fun init => le_of_eq Nat.ofDigitChars_nil.symm
    | cons c t ih =>
      intro init
      rw [Nat.ofDigitChars_cons]
      exact le_trans (by omega) (ih _)
  conv_rhs => rw [← List.take_append_drop n s, Nat.ofDigitChars_append]
  exact hgrow _ _

end MacroBus
