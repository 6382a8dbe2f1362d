import MacroBus.Busd.FrameStream
import MacroBus.Busd.SeenSet

/-!
# A link that is cut

Where a stream ends inside a frame, the reader takes the octets behind the last newline
for a line. This file finds the places at which the rest of a frame then reads as a
complete one, and shows that nothing else is ever applied of an unfinished frame.
-/

namespace MacroBus

/-- The line of a registration up to the digits of its timestamp. -/
def rregHeader (typeName : Str) (reg : TypeReg) : Str :=
  "RREG".toList ++ ' ' :: (typeName ++ ' ' :: (reg.key ++ ' ' :: (reg.originDaemon ++ [' '])))

/-- The lines that are taken for a body of which only `n` octets arrive: at the dot of the
terminator, or at the first dot of a stuffed line. -/
def misreadBody : List Str → ℕ → Option (List Str)
  | [], n => if n = 1 ∨ n = 2 then some [] else none
  | line :: lines, n =>
    if n < (wireLine (frame.stuffLine line)).length then
      if n = 1 ∧ line.head? = some '.' then some [] else none
    else
      (misreadBody lines (n - (wireLine (frame.stuffLine line)).length)).map fun got => line :: got

/-- The frame that is read where only `n` octets of a frame arrive: a message with a part of
its body, or a registration with a part of the digits of its timestamp. -/
def misread : OutFrame → ℕ → Option OutFrame
  | .feed msg, n =>
    (misreadBody msg.body (n - (wireLine msg.feedHeader).length)).map fun got =>
      .feed { msg with body := got }
  | .rreg typeName reg, n =>
    let digits := (decimal reg.ts).take (n - (Str.asBytes (rregHeader typeName reg)).length)
    if digits = [] then none
    else some (.rreg typeName { reg with ts := Nat.ofDigitChars 10 digits 0 })

/-- The frames of which the first `n` octets of their stream hold everything. -/
def received : List OutFrame → ℕ → List OutFrame
  | [], _ => []
  | f :: frames, n =>
    if (Str.asBytes f.serialize).length ≤ n then
      f :: received frames (n - (Str.asBytes f.serialize).length)
    else []

/-- The frame that is read where the stream is cut behind `n` octets, if the cut makes one. -/
def misreadAt : List OutFrame → ℕ → Option OutFrame
  | [], _ => none
  | f :: frames, n =>
    if (Str.asBytes f.serialize).length ≤ n then
      misreadAt frames (n - (Str.asBytes f.serialize).length)
    else misread f n

/-- Nothing is misread where no octet of a body arrives. -/
@[simp] theorem misreadBody_zero (lines : List Str) : misreadBody lines 0 = none := by
  cases lines with
  | nil => rfl
  | cons line lines =>
    have hpos : 0 < (wireLine (frame.stuffLine line)).length := by
      rw [wireLine_eq, List.length_append]
      simp
    rw [misreadBody, if_pos hpos, if_neg (by simp)]

namespace federation

variable {limits : Limits} {br : Reader}

/-- A line reads as a dot with or without its carriage return. -/
theorem stripCr_eq_dot_iff {raw : Bytes} : stripCr raw = DOT ↔ raw = DOT ∨ raw = DOT ++ [CR] := by
  unfold stripCr
  split
  · next hlast =>
    obtain ⟨before, rfl⟩ := List.getLast?_eq_some_iff.mp hlast
    rw [List.dropLast_concat]
    constructor
    · rintro rfl
      exact Or.inr rfl
    · rintro (h | h)
      · cases before with
        | nil => exact absurd h (by decide)
        | cons a before => simp [DOT] at h
      · exact (List.append_inj' h rfl).1
  · next hlast =>
    constructor
    · exact Or.inl
    · rintro (h | rfl)
      · exact h
      · exact absurd (by decide) hlast

/-- **A body line that is cut reads as the terminator** between the dots of a stuffed line. -/
theorem cut_line_is_dot {line : Str} {n : ℕ}
    (hn : n < (wireLine (frame.stuffLine line)).length) :
    fromUtf8Lossy (stripCr ((wireLine (frame.stuffLine line)).take n)) = frame.TERMINATOR ↔
      n = 1 ∧ line.head? = some '.' := by
  rw [fromUtf8Lossy_eq_terminator_iff, stripCr_eq_dot_iff]
  cases line with
  | nil =>
    have hwire : wireLine (frame.stuffLine []) = [CR, LF] := by decide
    rw [hwire] at hn ⊢
    have hcases : n = 0 ∨ n = 1 := by
      simp only [List.length_cons, List.length_nil] at hn
      omega
    rcases hcases with rfl | rfl
    · simp [DOT]
    · simp [DOT, CR]
  | cons c line =>
    obtain ⟨a, tail, henc, _⟩ := Utf8.exists_decodeHead_encodeChar c []
    by_cases hc : c = '.'
    · subst hc
      have hwire : wireLine (frame.stuffLine ('.' :: line)) =
          46 :: 46 :: (Str.asBytes line ++ [CR] ++ [LF]) := by
        rw [wireLine_eq]
        rfl
      rw [hwire]
      rcases n with _ | _ | n
      · simp [DOT]
      · simp [DOT]
      · simp [DOT, CR]
    · have hstuff : frame.stuffLine (c :: line) = c :: line := by
        unfold frame.stuffLine
        split
        · next heq => exact absurd (List.cons.inj heq).1 hc
        · rfl
      have hfirst : a ≠ 46 := by
        rintro rfl
        have hmem : (46 : UInt8) ∈ String.utf8EncodeChar c := by rw [henc]; simp
        obtain ⟨_, hval⟩ := Utf8.mem_encodeChar_ascii (by decide) hmem
        exact hc (Char.ext (UInt32.toNat_inj.mp hval))
      have hwire : wireLine (frame.stuffLine (c :: line)) =
          a :: (tail ++ (Str.asBytes line ++ [CR] ++ [LF])) := by
        rw [hstuff, wireLine_eq, Str.asBytes, Utf8.encode_cons, henc]
        simp
      rw [hwire]
      cases n with
      | zero => simp [DOT]
      | succ n => simp [DOT, hfirst, hc]

/-- **What is read of a body that is cut.** -/
theorem readBodyFrom_cut (limits : Limits) {lines : List Str} {n : ℕ} (acc : BodyAcc)
    (h : br.remaining = (Str.asBytes (frame.encodeBody lines)).take n)
    (hn : n < (Str.asBytes (frame.encodeBody lines)).length)
    (hlines : ∀ line ∈ lines, '\n' ∉ line) :
    ∃ br', readBodyFrom limits acc br =
        ((misreadBody lines n).map fun got =>
          ((got.map frame.stuffLine).foldl (BodyAcc.push limits) acc).result, br') ∧
      br'.remaining = [] := by
  induction lines generalizing n acc br with
  | nil =>
    have hwire : Str.asBytes (frame.encodeBody []) = [46, CR, LF] := by decide
    rw [hwire] at h hn
    have hcases : n = 0 ∨ n = 1 ∨ n = 2 := by
      simp only [List.length_cons, List.length_nil] at hn
      omega
    rcases hcases with rfl | rfl | rfl
    · obtain ⟨br', hread, hrest⟩ := readLine_eof h
      exact ⟨br', readBodyFrom_none hread, hrest⟩
    · obtain ⟨br', hread, hrest⟩ := readLine_last (show LF ∉ br.remaining by rw [h]; decide) (by rw [h]; decide)
      rw [h] at hread
      exact ⟨br', by rw [readBodyFrom_some hread, if_pos (by decide)]; rfl, hrest⟩
    · obtain ⟨br', hread, hrest⟩ := readLine_last (show LF ∉ br.remaining by rw [h]; decide) (by rw [h]; decide)
      rw [h] at hread
      exact ⟨br', by rw [readBodyFrom_some hread, if_pos (by decide)]; rfl, hrest⟩
  | cons line lines ih =>
    have hnewline := newline_notMem_stuffLine (hlines line List.mem_cons_self)
    have hsplit : Str.asBytes (frame.encodeBody (line :: lines)) =
        wireLine (frame.stuffLine line) ++ Str.asBytes (frame.encodeBody lines) := by
      rw [asBytes_encodeBody, asBytes_encodeLines_cons, asBytes_encodeBody, List.append_assoc]
    rw [hsplit] at h hn
    by_cases hw : n < (wireLine (frame.stuffLine line)).length
    · rw [misreadBody, if_pos hw]
      rw [List.take_append_of_le_length hw.le] at h
      have hline : LF ∉ br.remaining := by
        rw [h, wireLine_eq] at *
        rw [List.length_append, List.length_singleton] at hw
        rw [List.take_append_of_le_length (by omega)]
        exact fun hmem => LF_notMem_wire hnewline (List.mem_of_mem_take hmem)
      cases n with
      | zero =>
        rw [List.take_zero] at h
        obtain ⟨br', hread, hrest⟩ := readLine_eof h
        exact ⟨br', by rw [readBodyFrom_none hread, if_neg (by simp)]; rfl, hrest⟩
      | succ n =>
        have hne : br.remaining ≠ [] := by
          rw [h]
          intro hnil
          have hlength := congrArg List.length hnil
          rw [List.length_take, List.length_nil] at hlength
          omega
        obtain ⟨br', hread, hrest⟩ := readLine_last hline hne
        rw [h] at hread
        have hdot := cut_line_is_dot hw
        by_cases hcut : n + 1 = 1 ∧ line.head? = some '.'
        · refine ⟨br', ?_, hrest⟩
          rw [readBodyFrom_some hread, if_pos (hdot.mpr hcut), if_pos hcut]
          rfl
        · obtain ⟨br'', hread', hrest'⟩ := readLine_eof hrest
          refine ⟨br'', ?_, hrest'⟩
          rw [readBodyFrom_some hread, if_neg (hdot.not.mpr hcut), readBodyFrom_none hread',
            if_neg hcut]
          rfl
    · rw [not_lt] at hw
      rw [List.take_append, List.take_of_length_le hw] at h
      obtain ⟨br₁, hread, hrest⟩ := readLine_wireLine h hnewline
      rw [List.length_append] at hn
      obtain ⟨br', hbody, hrest'⟩ := ih (acc.push limits (frame.stuffLine line)) hrest (by omega)
        fun l hl => hlines l (List.mem_cons_of_mem _ hl)
      refine ⟨br', ?_, hrest'⟩
      rw [readBodyFrom_some hread, if_neg (frame.stuffLine_ne_terminator line), hbody, misreadBody,
        if_neg (by omega), Option.map_map]
      rfl

/-- What stands behind the last newline makes a call only where it reads as a registration. -/
theorem readLoop_unfinished (limits : Limits) (h : LF ∉ br.remaining) :
    (readLoop limits br).1 =
      if Str.splitFirst ' ' (fromUtf8Lossy (stripCr br.remaining)) = "RREG".toList then
        (rregCall (Str.splitSecond ' ' (fromUtf8Lossy (stripCr br.remaining)))).toList
      else [] := by
  by_cases hne : br.remaining = []
  · obtain ⟨br', hread, _⟩ := readLine_eof hne
    rw [readLoop_none hread, hne, if_neg (by decide)]
  · obtain ⟨br', hread, hrest⟩ := readLine_last h hne
    obtain ⟨br'', hread', hrest'⟩ := readLine_eof hrest
    by_cases hrreg : Str.splitFirst ' ' (fromUtf8Lossy (stripCr br.remaining)) = "RREG".toList
    · rw [readLoop_rreg hread hrreg, if_pos hrreg, readLoop_none hread', List.append_nil]
    · rw [if_neg hrreg]
      by_cases hfeed : Str.splitFirst ' ' (fromUtf8Lossy (stripCr br.remaining)) = "FEED".toList
      · have hbody : readBody limits br' = (none, br'') := readBodyFrom_none hread'
        rw [readLoop_midBody hread hfeed hbody]
      · rw [readLoop_skip hread hfeed hrreg, readLoop_none hread']

/-- Octets that do not end with a carriage return. -/
theorem stripCr_eq_self {raw : Bytes} (h : CR ∉ raw) : stripCr raw = raw :=
  if_neg fun hlast => h (List.mem_of_getLast? hlast)

/-- The first octet stays where it is no carriage return. -/
theorem stripCr_cons {a : UInt8} (ha : a ≠ CR) (raw : Bytes) :
    stripCr (a :: raw) = a :: stripCr raw := by
  cases raw with
  | nil => exact stripCr_eq_self (by simpa using ha.symm)
  | cons b raw =>
    unfold stripCr
    rw [List.getLast?_cons_cons]
    split
    · rfl
    · rfl

/-- **A message that is cut** inside its header makes no call. -/
theorem readLoop_cut_feedHeader (limits : Limits) {msg : Message} {n : ℕ}
    (hmsg : (OutFrame.feed msg).Sendable)
    (h : br.remaining = (wireLine msg.feedHeader).take n)
    (hn : n < (wireLine msg.feedHeader).length) : (readLoop limits br).1 = [] := by
  have hwire := wireLine_eq msg.feedHeader
  rw [hwire, List.length_append, List.length_singleton] at hn
  rw [hwire, List.take_append_of_le_length (by omega)] at h
  have hline : LF ∉ br.remaining := by
    rw [h]
    exact fun hmem => LF_notMem_wire (newline_notMem_feedHeader hmsg) (List.mem_of_mem_take hmem)
  rw [readLoop_unfinished limits hline, if_neg]
  -- The first character is not the one of a registration.
  have hfirst : Str.asBytes msg.feedHeader ++ [CR] = 70 :: (Str.asBytes ("EED".toList ++ ' ' ::
      (msg.typeName ++ ' ' :: (msg.msgId ++ ' ' :: msg.origin))) ++ [CR]) := by
    rw [feedHeader_eq]
    rfl
  rw [h, hfirst]
  cases n with
  | zero =>
    rw [List.take_zero]
    decide
  | succ n =>
    rw [List.take_succ_cons, stripCr_cons (show (70 : UInt8) ≠ CR by decide), fromUtf8Lossy,
      Utf8.decodeLossy_cons (show (70 : UInt8).toNat < 0x80 by decide)]
    exact fun heq => absurd (List.cons.inj heq).1 (by decide)

/-- The line of a registration without its digits, and they. -/
theorem rregHeader_append (typeName digits : Str) (reg : TypeReg) :
    rregHeader typeName reg ++ digits = "RREG".toList ++ ' ' ::
      (typeName ++ ' ' :: (reg.key ++ ' ' :: (reg.originDaemon ++ ' ' :: digits))) := by
  unfold rregHeader
  simp only [List.append_assoc, List.cons_append, List.nil_append]

/-- Fewer than four fields are no registration. -/
theorem rregCall_of_count {rest : Str} (h : rest.count ' ' < 3) : rregCall rest = none := by
  have hlast : (Str.split ' ' rest)[3]? = none := by
    rw [List.getElem?_eq_none_iff, Str.split_length]
    omega
  unfold rregCall
  simp only [hlast, Option.bind_none]

/-- A registration that is cut in front of its digits has no fourth field. -/
theorem count_cut_rregHeader {typeName : Str} {reg : TypeReg} {n : ℕ}
    (h : (OutFrame.rreg typeName reg).Sendable)
    (hn : n < (Str.asBytes (rregHeader typeName reg)).length) :
    (fromUtf8Lossy (stripCr ((Str.asBytes (rregHeader typeName reg)).take n))).count ' ' ≤ 3 := by
  obtain ⟨htype, hkey, horigin, _⟩ := h
  have hfields : ("RREG".toList ++ ' ' :: (typeName ++ ' ' :: (reg.key ++ ' ' ::
      reg.originDaemon))).count ' ' = 3 := by
    simp [List.count_append, List.count_eq_zero_of_not_mem htype.space,
      List.count_eq_zero_of_not_mem hkey.space, List.count_eq_zero_of_not_mem horigin.space]
  have hsplit : Str.asBytes (rregHeader typeName reg) = Str.asBytes ("RREG".toList ++ ' ' ::
      (typeName ++ ' ' :: (reg.key ++ ' ' :: reg.originDaemon))) ++ [32] := by
    rw [show ([32] : Bytes) = Str.asBytes [' '] by decide, ← asBytes_append, rregHeader]
    simp only [List.append_assoc, List.cons_append]
  have hoctets := Utf8.count_decodeLossy (c := ' ') (by decide) (Str.asBytes ("RREG".toList ++
    ' ' :: (typeName ++ ' ' :: (reg.key ++ ' ' :: reg.originDaemon))))
  rw [Utf8.decodeLossy_encode, hfields] at hoctets
  rw [hsplit, List.length_append, List.length_singleton] at hn
  rw [fromUtf8Lossy, Utf8.count_decodeLossy (by decide), hsplit,
    List.take_append_of_le_length (by omega)]
  calc (stripCr _).count _ ≤ (List.take n _).count _ := (stripCr_sublist _).count_le _
    _ ≤ _ := (List.take_sublist n _).count_le _
    _ = 3 := hoctets.symm

/-- The octets of digits, cut. -/
theorem take_asBytes_decimal (ts k : ℕ) :
    (Str.asBytes (decimal ts)).take k = Str.asBytes ((decimal ts).take k) := by
  rw [Str.asBytes, Utf8.encode_ascii fun c hc => toNat_lt_of_mem_decimal hc, Str.asBytes,
    Utf8.encode_ascii fun c hc => toNat_lt_of_mem_decimal (List.mem_of_mem_take hc), List.map_take]

/-- What is left of a registration that is cut behind its header. -/
theorem stripCr_cut_rreg {typeName : Str} {reg : TypeReg} {k : ℕ}
    (h : (OutFrame.rreg typeName reg).Sendable) (hk : k ≤ (Str.asBytes (decimal reg.ts)).length + 1) :
    stripCr (Str.asBytes (rregHeader typeName reg) ++
        (Str.asBytes (decimal reg.ts) ++ [CR]).take k) =
      Str.asBytes (rregHeader typeName reg ++ (decimal reg.ts).take k) := by
  obtain ⟨htype, hkey, horigin, _⟩ := h
  have hheader : '\r' ∉ rregHeader typeName reg := by
    have hcr : ∀ {name : Str}, IsToken name → '\r' ∉ name := fun hname hmem =>
      (hname.2 _ hmem).2.2 rfl
    simp [rregHeader, hcr htype, hcr hkey, hcr horigin]
  have hoctets : ∀ m, CR ∉ Str.asBytes (rregHeader typeName reg ++ (decimal reg.ts).take m) := by
    intro m
    refine notMem_asBytes (c := '\r') (by decide) ?_
    rw [List.mem_append, not_or]
    exact ⟨hheader, fun hmem => notMem_decimal (by decide) _ (List.mem_of_mem_take hmem)⟩
  rcases Nat.lt_or_ge (Str.asBytes (decimal reg.ts)).length k with hlt | hle
  · have hall : (Str.asBytes (decimal reg.ts) ++ [CR]).take k = Str.asBytes (decimal reg.ts) ++ [CR] :=
      List.take_of_length_le (by rw [List.length_append, List.length_singleton]; omega)
    have hdigits : Str.asBytes ((decimal reg.ts).take k) = Str.asBytes (decimal reg.ts) := by
      rw [← take_asBytes_decimal, List.take_of_length_le hlt.le]
    rw [hall, ← List.append_assoc, stripCr_append, asBytes_append, hdigits]
  · rw [List.take_append_of_le_length hle, take_asBytes_decimal, ← asBytes_append]
    exact stripCr_eq_self (hoctets k)

/-- **A registration that is cut** makes a call where one of its digits has arrived: with the
number they display. -/
theorem readLoop_cut_rreg (limits : Limits) {typeName : Str} {reg : TypeReg} {n : ℕ}
    (hreg : (OutFrame.rreg typeName reg).Sendable)
    (h : br.remaining = (Str.asBytes (OutFrame.rreg typeName reg).serialize).take n)
    (hn : n < (Str.asBytes (OutFrame.rreg typeName reg).serialize).length) :
    (readLoop limits br).1 =
      ((misread (.rreg typeName reg) n).bind (OutFrame.call limits)).toList := by
  have hserialize : Str.asBytes (OutFrame.rreg typeName reg).serialize =
      Str.asBytes (rregHeader typeName reg) ++ (Str.asBytes (decimal reg.ts) ++ [CR]) ++ [LF] := by
    rw [serialize_rreg, ← rregHeader_append, ← wireLine, wireLine_eq, asBytes_append,
      List.append_assoc (Str.asBytes (rregHeader typeName reg))]
  have hline : LF ∉ br.remaining := by
    have hwhole := LF_notMem_wire (newline_notMem_rreg hreg)
    rw [← rregHeader_append, asBytes_append, List.append_assoc] at hwhole
    rw [hserialize, List.length_append, List.length_singleton] at hn
    rw [h, hserialize, List.take_append_of_le_length (by omega)]
    exact fun hmem => hwhole (List.mem_of_mem_take hmem)
  rw [readLoop_unfinished limits hline]
  rw [hserialize, List.length_append, List.length_append, List.length_append,
    List.length_singleton, List.length_singleton] at hn
  rw [hserialize, List.append_assoc] at h
  rcases Nat.lt_or_ge n (Str.asBytes (rregHeader typeName reg)).length with hlt | hge
  · rw [List.take_append_of_le_length hlt.le] at h
    have hcount := count_cut_rregHeader hreg hlt
    have hnone : rregCall (Str.splitSecond ' ' (fromUtf8Lossy (stripCr br.remaining))) = none := by
      refine rregCall_of_count ?_
      rw [Str.count_splitSecond, h]
      omega
    rw [hnone, Option.toList_none, ite_self, misread, Nat.sub_eq_zero_of_le hlt.le]
    rfl
  · obtain ⟨k, rfl⟩ := Nat.exists_eq_add_of_le hge
    have hk : k ≤ (Str.asBytes (decimal reg.ts)).length + 1 := by omega
    rw [List.take_length_add_append, List.take_append_of_le_length (by simpa using hk)] at h
    have hdigits : ' ' ∉ (decimal reg.ts).take k := fun hmem =>
      notMem_decimal (by decide) _ (List.mem_of_mem_take hmem)
    have hread : fromUtf8Lossy (stripCr br.remaining) = "RREG".toList ++ ' ' :: (typeName ++
        ' ' :: (reg.key ++ ' ' :: (reg.originDaemon ++ ' ' :: (decimal reg.ts).take k))) := by
      rw [h, stripCr_cut_rreg hreg hk, fromUtf8Lossy_asBytes, rregHeader_append]
    rw [hread, Str.splitFirst_append_cons (by decide), if_pos rfl,
      Str.splitSecond_append_cons (by decide),
      rregCall_fields hreg.1.field hreg.2.1.field hreg.2.2.1.field hdigits, misread,
      Nat.add_sub_cancel_left]
    by_cases hnil : (decimal reg.ts).take k = []
    · rw [hnil]
      rfl
    · have hvalue : Nat.ofDigitChars 10 (decimal reg.ts) 0 = reg.ts := Nat.ofDigitChars_ten_toDigits
      have hle := ofDigitChars_take_le (decimal reg.ts) k
      have hts := hreg.2.2.2
      rw [parseUnsigned_digits hnil (fun c hc => isDigit_of_mem_decimal (List.mem_of_mem_take hc))
        (by omega)]
      simp only [if_neg hnil]
      rfl

/-- **One frame that is cut**: the frame is read that the cut makes of it, if any. -/
theorem readLoop_cut (limits : Limits) {f : OutFrame} {n : ℕ} (hf : f.Sendable)
    (h : br.remaining = (Str.asBytes f.serialize).take n)
    (hn : n < (Str.asBytes f.serialize).length) :
    (readLoop limits br).1 = ((misread f n).bind (OutFrame.call limits)).toList := by
  cases f with
  | rreg typeName reg => exact readLoop_cut_rreg limits hf h hn
  | feed msg =>
    have hsplit : Str.asBytes (OutFrame.feed msg).serialize =
        wireLine msg.feedHeader ++ Str.asBytes (frame.encodeBody msg.body) :=
      asBytes_append (msg.feedHeader ++ frame.CRLF) (frame.encodeBody msg.body)
    rw [hsplit] at h hn
    rcases Nat.lt_or_ge n (wireLine msg.feedHeader).length with hlt | hge
    · rw [List.take_append_of_le_length hlt.le] at h
      rw [readLoop_cut_feedHeader limits hf h hlt, misread, Nat.sub_eq_zero_of_le hlt.le,
        misreadBody_zero]
      rfl
    · obtain ⟨k, rfl⟩ := Nat.exists_eq_add_of_le hge
      rw [List.take_length_add_append] at h
      rw [List.length_append] at hn
      obtain ⟨br₁, hread, hrest⟩ := readLine_wireLine h (newline_notMem_feedHeader hf)
      obtain ⟨br', hbody, hrest'⟩ := readBodyFrom_cut limits {} hrest (by omega) hf.2.2.2
      obtain ⟨br'', heof, _⟩ := readLine_eof hrest'
      have hverb : Str.splitFirst ' ' msg.feedHeader = "FEED".toList := by
        rw [feedHeader_eq, Str.splitFirst_append_cons (by decide)]
      rw [misread, Nat.add_sub_cancel_left]
      cases hmisread : misreadBody msg.body k with
      | none =>
        rw [hmisread] at hbody
        rw [readLoop_midBody hread hverb hbody]
        rfl
      | some got =>
        rw [hmisread, Option.map_some, BodyAcc.result_stuffed] at hbody
        rw [readLoop_feed hread hverb hbody, feedCall_feedHeader hf, readLoop_none heof]
        by_cases hsize : limits.maxMessageBytes < bodySize got
        · simp [OutFrame.call, hsize]
        · simp [OutFrame.call, hsize]

/-- **A stream that is cut**: the frames that are there in full are read, and what the cut
makes of the next one. -/
theorem readLoop_cutStream (limits : Limits) {frames : List OutFrame} {n : ℕ}
    (hframes : ∀ f ∈ frames, f.Sendable) (h : br.remaining = (frameStream frames).take n) :
    (readLoop limits br).1 = (received frames n).filterMap (OutFrame.call limits) ++
      ((misreadAt frames n).bind (OutFrame.call limits)).toList := by
  induction frames generalizing br n with
  | nil =>
    obtain ⟨br', hread, _⟩ := readLine_eof (show br.remaining = [] by rw [h]; exact List.take_nil)
    rw [readLoop_none hread]
    rfl
  | cons f frames ih =>
    have hf := hframes f List.mem_cons_self
    rw [frameStream_cons] at h
    by_cases hn : (Str.asBytes f.serialize).length ≤ n
    · obtain ⟨k, rfl⟩ := Nat.exists_eq_add_of_le hn
      rw [List.take_length_add_append] at h
      obtain ⟨br', hread, hrest⟩ := readLoop_frame limits hf h
      rw [hread, ih (fun g hg => hframes g (List.mem_cons_of_mem _ hg)) hrest, received, if_pos hn,
        misreadAt, if_pos hn, Nat.add_sub_cancel_left, List.filterMap_cons]
      cases f.call limits with
      | none => rfl
      | some call => rfl
    · rw [List.take_append_of_le_length (by omega)] at h
      rw [readLoop_cut limits hf h (by omega), received, if_neg hn, misreadAt, if_neg hn]
      rfl

end federation

namespace Hub

/-- Calls one after another. -/
def performAll (h : Hub) (calls : List Inbound) : Hub :=
  calls.foldl Hub.complete h

/-- A frame that has no effect on a daemon: a message that is too large or has been seen, or a
registration that loses. -/
def Refuses (limits : Limits) (h : Hub) : OutFrame → Prop
  | .feed msg => limits.maxMessageBytes < bodySize msg.body ∨ msg.msgId ∈ h.registry.seen.set
  | .rreg typeName reg =>
    ∃ existing, h.registry.types.lookup typeName = some existing ∧ existing.tuple ≤ reg.tuple

/-- A message that has been seen changes nothing. -/
theorem ingestRemote_of_mem {h : Hub} {msg : Message} (hid : msg.msgId ∈ h.registry.seen.set) :
    (h.ingestRemote msg).2 = h := by
  unfold ingestRemote
  rw [recordSeen_of_mem hid]

/-- A message that is new is recorded. -/
theorem ingestRemote_seen {h : Hub} {msg : Message} (hid : msg.msgId ∉ h.registry.seen.set) :
    (h.ingestRemote msg).2.registry.seen = (h.registry.seen.insert msg.msgId).2 := by
  unfold ingestRemote
  rw [recordSeen_of_notMem hid]
  dsimp only
  rw [fanoutLocked_registry]

/-- A call keeps the seen-set well formed. -/
theorem complete_wf {h : Hub} (hwf : h.registry.seen.Wf) (call : Inbound) :
    (h.complete call).registry.seen.Wf := by
  unfold complete
  cases call with
  | ingestRemote msg =>
    dsimp only
    by_cases hid : msg.msgId ∈ h.registry.seen.set
    · rw [ingestRemote_of_mem hid]
      exact hwf
    · obtain ⟨s', hinsert, hwf', _⟩ := hwf.insert_of_notMem hid
      rw [ingestRemote_seen hid, hinsert]
      exact hwf'
  | applyRemoteRegistration typeName incoming =>
    dsimp only
    unfold Registry.applyRemoteRegistration
    split
    · exact hwf
    · split
      · exact hwf
      · split <;> exact hwf

/-- Calls one after the other keep the seen-set well formed. -/
theorem performAll_wf {h : Hub} (hwf : h.registry.seen.Wf) (calls : List Inbound) :
    (h.performAll calls).registry.seen.Wf := by
  induction calls generalizing h with
  | nil => exact hwf
  | cons call calls ih => exact ih (complete_wf hwf call)

/-- **A frame leaves a daemon as it is** exactly where it is refused. -/
theorem performAll_call_eq_self_iff (limits : Limits) {h : Hub} (hwf : h.registry.seen.Wf)
    (f : OutFrame) : h.performAll (f.call limits).toList = h ↔ h.Refuses limits f := by
  cases f with
  | feed msg =>
    unfold OutFrame.call Refuses
    by_cases hsize : limits.maxMessageBytes < bodySize msg.body
    · simp [hsize, performAll]
    · by_cases hid : msg.msgId ∈ h.registry.seen.set
      · simp [hsize, hid, performAll, complete, ingestRemote_of_mem hid]
      · simp only [hsize, hid, or_self, iff_false, if_false, Option.toList_some]
        intro heq
        -- The id of the message has been recorded.
        obtain ⟨s', hinsert, hwf', _, horder⟩ := hwf.insert_of_notMem hid
        have hseen : s' = h.registry.seen := by
          have hreg := congrArg (fun h => h.registry.seen) heq
          simp only [performAll, List.foldl_cons, List.foldl_nil, complete,
            ingestRemote_seen hid, hinsert] at hreg
          exact hreg
        refine hid (hseen ▸ hwf'.mem_set.mpr ?_)
        rw [horder]
        have hle := hwf.length_le
        have hpos := hwf.pos
        rw [List.drop_append_of_le_length (by omega)]
        exact List.mem_append_right _ List.mem_cons_self
  | rreg typeName reg =>
    simp only [OutFrame.call, Option.toList_some, performAll, List.foldl_cons, List.foldl_nil,
      complete, Refuses]
    rcases happly : h.registry.applyRemoteRegistration typeName reg with ⟨_ | effective, r'⟩
    · obtain ⟨hrefused, rfl⟩ := Registry.applyRemoteRegistration_eq_none_iff.mp happly
      exact iff_of_true rfl hrefused
    · obtain ⟨hwins, _, rfl⟩ := Registry.applyRemoteRegistration_eq_some_iff.mp happly
      refine iff_of_false ?_ ?_
      · intro heq
        have hlookup := congrArg (fun h => h.registry.types.lookup typeName) heq
        simp only [AList.lookup_insert] at hlookup
        exact lt_irrefl _ (hwins reg hlookup.symm)
      · rintro ⟨existing, hexisting, hle⟩
        exact absurd (hwins existing hexisting) (not_lt.mpr hle)

end Hub

namespace federation

/-- **A link that is cut** applies no part of a frame exactly where the cut makes no frame of
the part, or the daemon refuses the frame that it makes. The cut makes one of a message behind
the dot of its terminator or the first dot of a stuffed line, and of a registration behind any
digit of its timestamp. -/
theorem cut_link_applies_nothing_iff (limits : Limits) {frames : List OutFrame}
    (hframes : ∀ f ∈ frames, f.Sendable) (n : ℕ) {br : Reader}
    (hbr : br.remaining = (frameStream frames).take n) {h : Hub} (hwf : h.registry.seen.Wf) :
    h.performAll (readLoop limits br).1 =
        h.performAll ((received frames n).filterMap (OutFrame.call limits)) ↔
      ∀ f, misreadAt frames n = some f →
        (h.performAll ((received frames n).filterMap (OutFrame.call limits))).Refuses limits f := by
  have hsplit : h.performAll (readLoop limits br).1 =
      (h.performAll ((received frames n).filterMap (OutFrame.call limits))).performAll
        ((misreadAt frames n).bind (OutFrame.call limits)).toList := by
    rw [readLoop_cutStream limits hframes hbr, Hub.performAll, List.foldl_append]
    rfl
  rw [hsplit]
  cases misreadAt frames n with
  | none => simp [Hub.performAll]
  | some f =>
    rw [Option.bind_some, Hub.performAll_call_eq_self_iff limits (Hub.performAll_wf hwf _)]
    simp

/-- A daemon that holds a registration. -/
def holder : Hub where
  registry := { Registry.new "d3".toList 8 with
    types := AList.insert "t".toList ⟨"k2".toList, "d2".toList, 1751650000000⟩ ∅ }
  chan := fun _ => ⟨4, [], true, ∅, false⟩

/-- A registration that was made later. -/
def later : List OutFrame := [.rreg "t".toList ⟨"k1".toList, "d1".toList, 1751650001000⟩]

/-- The stuffed line of a message is cut behind its second dot: nothing of it is applied. -/
theorem cut_link_applies_nothing_iff_body :
    holder.performAll (readLoop {} (.ofList ((frameStream
      [.feed ⟨"t".toList, "d1-1".toList, "d1".toList, [".".toList]⟩]).take 18))).1 = holder :=
  (cut_link_applies_nothing_iff {} (by decide) 18 (BufReader.remaining_ofList _)
    (SeenSet.wf_new 8)).mpr fun f hf => absurd (show none = some f from hf) (by simp)

/-- **A part of a registration takes a type over.** A later registration loses, but where the
link is cut inside its timestamp it is applied with a smaller one, and wins. -/
theorem cut_registration_takes_over :
    received later 21 = [] ∧
      holder.registry.types.lookup "t".toList =
        some ⟨"k2".toList, "d2".toList, 1751650000000⟩ ∧
      (holder.performAll (readLoop {} (.ofList ((frameStream later).take 21))).1
        ).registry.types.lookup "t".toList = some ⟨"k1".toList, "d1".toList, 17516500⟩ := by
  rw [readLoop_cutStream {} (by decide) (BufReader.remaining_ofList _)]
  decide

end federation

end MacroBus
