import MacroBus.Lib.Utf8Growth
import MacroBus.Busd.BodyPath

/-!
# What a subscriber can receive

The daemon measures the octets of a body line as they arrive, the client those of the line
as it is delivered. In between, octets that are not UTF-8 are replaced by three each, and a
dot in front that was not doubled is dropped.
-/

namespace MacroBus

/-- The dot in front of a line that was sent without doubling it is dropped. -/
def strayDot : Bytes → ℕ
  | 46 :: 46 :: _ => 0
  | 46 :: _ => 1
  | _ => 0

/-- The condition on a line of a body, without its line end, under which a client receives
it: with what replacing ill-formed octets adds it is within the cap. -/
def Receivable (raw : Bytes) : Prop :=
  raw.length + Utf8.growth raw + 1 ≤ DEFAULT_MAX_LINE + strayDot raw

instance : DecidablePred Receivable := fun raw =>
  inferInstanceAs (Decidable (raw.length + Utf8.growth raw + 1 ≤ DEFAULT_MAX_LINE + strayDot raw))

/-- **The length of a delivered line.** -/
theorem len_restuffed (raw : Bytes) :
    (frame.stuffLine (frame.unstuffLine (fromUtf8Lossy raw))).len + strayDot raw =
      raw.length + Utf8.growth raw := by
  have hlen : (fromUtf8Lossy raw).len = raw.length + Utf8.growth raw :=
    Utf8.length_encode_decodeLossy raw
  cases hfirst : fromUtf8Lossy raw with
  | nil =>
    obtain rfl := Utf8.decodeLossy_eq_nil hfirst
    rfl
  | cons c s =>
    rw [hfirst] at hlen
    by_cases hc : c = '.'
    · subst hc
      obtain ⟨a, raw', rfl, ha, hs⟩ := Utf8.decodeLossy_eq_cons (by decide) hfirst
      obtain rfl : a = 46 := UInt8.toNat_inj.mp ha
      have hdot : Str.len ('.' :: s) = 1 + Str.len s := Str.len_cons _ _
      change (frame.stuffLine s).len + strayDot (46 :: raw') = _
      rw [← hlen]
      -- The dot in front is dropped, and put back where another follows it.
      cases s with
      | nil =>
        obtain rfl := Utf8.decodeLossy_eq_nil hs
        rfl
      | cons d s =>
        by_cases hd : d = '.'
        · subst hd
          obtain ⟨b, raw'', rfl, hb, _⟩ := Utf8.decodeLossy_eq_cons (by decide) hs
          obtain rfl : b = 46 := UInt8.toNat_inj.mp hb
          rfl
        · have hstuff : frame.stuffLine (d :: s) = d :: s := by
            unfold frame.stuffLine
            split
            · next heq => exact absurd (List.cons.inj heq).1 hd
            · rfl
          have hstray : strayDot (46 :: raw') = 1 := by
            unfold strayDot
            split
            · next heq =>
              obtain rfl := (List.cons.inj heq).2
              rw [Utf8.decodeLossy_cons (show (46 : UInt8).toNat < 0x80 by decide)] at hs
              exact absurd (List.cons.inj hs).1.symm hd
            · rfl
            · next hnot => exact absurd rfl (hnot raw')
          rw [hstuff, hstray, hdot, Nat.add_comm]
    · have hstuff : ∀ t : Str, t = c :: s → frame.stuffLine t = t ∧ frame.unstuffLine t = t := by
        rintro t rfl
        unfold frame.stuffLine frame.unstuffLine
        constructor
        · split
          · next heq => exact absurd (List.cons.inj heq).1 hc
          · rfl
        · split
          · next heq => exact absurd (List.cons.inj heq).1 hc
          · rfl
      have hstray : strayDot raw = 0 := by
        unfold strayDot
        split
        · rfl
        · rw [fromUtf8Lossy, Utf8.decodeLossy_cons (show (46 : UInt8).toNat < 0x80 by decide)] at hfirst
          exact absurd (List.cons.inj hfirst).1.symm hc
        · rfl
      rw [(hstuff _ rfl).2, (hstuff _ rfl).1, hlen, hstray, Nat.add_zero]

/-- A line without a newline has none when it is unstuffed. -/
theorem newline_notMem_unstuffLine {line : Str} (h : '\n' ∉ line) :
    '\n' ∉ frame.unstuffLine line := by
  unfold frame.unstuffLine
  split
  · exact fun hmem => h (List.mem_cons_of_mem _ hmem)
  · exact h

/-- A body that crosses links stays the same. -/
theorem relay_eq_some {hops : List Hop} {lines lines' : List Str}
    (hlines : ∀ line ∈ lines, '\n' ∉ line) (h : relay hops lines = some lines') :
    lines' = lines := by
  unfold relay at h
  induction hops with
  | nil => exact (Option.some.inj h).symm
  | cons hop hops ih =>
    obtain ⟨br, hread, _⟩ :=
      federation.readBody_encodeBody hop.limits (hop.remaining _) hlines
    rw [List.foldlM_cons, show (hop.read lines) = _ from hread] at h
    split at h
    · cases h
    · exact ih h

/-- **What the daemon accepts, a client can receive** exactly where the header of the delivery
and every line of the body, as it was sent, are within the cap once ill-formed octets have
been replaced; with or without links between the daemons. -/
theorem accepted_is_receivable_iff {br br' : BufReader UInt8} {raws : List Bytes}
    {term behind rest : Bytes} {lines : List Str} {hops : List Hop} {msg : Message} {c : Client}
    (hat : BodyAt br.remaining raws term behind)
    (haccept : Conn.readBody {} br = (some (some lines), br'))
    (hrelay : relay hops lines = some msg.body)
    (hfields : IsToken msg.typeName ∧ IsToken msg.msgId ∧ IsToken msg.origin)
    (hpending : c.pending = []) (hcap : c.maxLine = DEFAULT_MAX_LINE)
    (hio : c.io.remaining = Str.asBytes msg.encodeDelivery ++ rest) :
    ((∀ line ∈ msg.msgHeader :: msg.body.map frame.stuffLine, line.len + 1 ≤ DEFAULT_MAX_LINE) ∧
        c.nextEvent.1 = .ok (.message msg)) ↔
      msg.msgHeader.len + 1 ≤ DEFAULT_MAX_LINE ∧ ∀ raw ∈ raws, Receivable (stripCr raw) := by
  have hlines := BodyAcc.result_eq_some (Conn.readBodyFrom_accepted hat haccept)
  have hnewline : ∀ line ∈ lines, '\n' ∉ line := by
    intro line hl
    rw [hlines, List.map_map] at hl
    obtain ⟨raw, hraw, rfl⟩ := List.mem_map.mp hl
    refine newline_notMem_unstuffLine (newline_notMem_fromUtf8Lossy ?_)
    exact fun hmem => hat.whole raw (by simp [hraw])
      ((List.Sublist.subset (by unfold stripCr; split <;> [exact List.dropLast_sublist raw; rfl])) hmem)
  obtain hbody : msg.body = lines := relay_eq_some hnewline hrelay
  have hheader : '\n' ∉ msg.msgHeader := by
    have hdigits := notMem_decimal (c := '\n') (by decide) status.MSG
    obtain ⟨htype, hid, horigin⟩ := hfields
    simp [msgHeader_eq, Push.text, htype.newline, hid.newline, horigin.newline, hdigits]
  have hwords : ∀ field ∈ [msg.typeName, msg.msgId, msg.origin], field ≠ [] ∧ ' ' ∉ field := by
    intro field hfield
    have htoken : IsToken field := by
      simp only [List.mem_cons, List.not_mem_nil, or_false] at hfield
      rcases hfield with rfl | rfl | rfl
      · exact hfields.1
      · exact hfields.2.1
      · exact hfields.2.2
    exact ⟨htoken.1, htoken.space⟩
  have hevent := Client.nextEvent_message hpending (by rw [hcap]; decide) hwords hheader
    (by rwa [hbody]) hio
  have hall : (∀ line ∈ msg.msgHeader :: msg.body.map frame.stuffLine,
      line.len + 1 ≤ DEFAULT_MAX_LINE) ↔
        msg.msgHeader.len + 1 ≤ DEFAULT_MAX_LINE ∧ ∀ raw ∈ raws, Receivable (stripCr raw) := by
    rw [hbody, hlines, List.forall_mem_cons, List.map_map, List.map_map, List.forall_mem_map]
    refine and_congr_right fun _ => forall₂_congr fun raw _ => ?_
    have hlen := len_restuffed (stripCr raw)
    unfold Receivable
    simp only [Function.comp_apply]
    omega
  rw [hcap] at hevent
  rw [← hall]
  constructor
  · exact fun h => h.1
  · exact fun h => ⟨h, by rw [hevent, if_pos h]⟩

/-- A link between daemons with the default limits, the octets of which arrive at once. -/
def Hop.atOnce : Hop := ⟨{}, [], .ofList, BufReader.remaining_ofList⟩

/-- A line with an octet that is not UTF-8, published to one daemon and sent on to another, is
received with the replacement. -/
theorem accepted_is_receivable_iff_replaced : ∃ br br' hop,
    br.remaining = 255 :: Str.asBytes "hi\r\n.\r\n".toList ∧
      Conn.readBody {} br = (some (some ["\uFFFDhi".toList]), br') ∧
      relay [hop] ["\uFFFDhi".toList] = some ["\uFFFDhi".toList] ∧
      (Client.nextEvent { io := .ofList (Str.asBytes (Message.encodeDelivery
        ⟨"t".toList, "d-1".toList, "d".toList, ["\uFFFDhi".toList]⟩)) }).1 =
      .ok (.message ⟨"t".toList, "d-1".toList, "d".toList, ["\uFFFDhi".toList]⟩) := by
  have hremaining := BufReader.remaining_ofList (255 :: Str.asBytes "hi\r\n.\r\n".toList)
  obtain ⟨br₁, hread₁, hrest₁⟩ := Conn.readLineBlocking_raw (Limits.maxBodyLineBytes {})
    (show (BufReader.ofList (255 :: Str.asBytes "hi\r\n.\r\n".toList)).remaining =
      (255 :: Str.asBytes "hi\r".toList) ++ LF :: Str.asBytes ".\r\n".toList from hremaining)
    (by decide) (by decide)
  obtain ⟨br₂, hread₂, _⟩ := Conn.readLineBlocking_raw (Limits.maxBodyLineBytes {})
    (show br₁.remaining = Str.asBytes ".\r".toList ++ LF :: [] from hrest₁) (by decide) (by decide)
  have haccept : Conn.readBody {} (.ofList (255 :: Str.asBytes "hi\r\n.\r\n".toList)) =
      (some (some ["\uFFFDhi".toList]), br₂) := by
    rw [Conn.readBody, Conn.readBodyFrom_line hread₁, if_neg (by decide),
      Conn.readBodyFrom_line hread₂, if_pos (by decide)]
    rfl
  have hrelay : relay [.atOnce] ["\uFFFDhi".toList] = some ["\uFFFDhi".toList] := by
    obtain ⟨_, hread, _⟩ : ∃ br, Hop.atOnce.read ["\uFFFDhi".toList] =
        (some (some ["\uFFFDhi".toList]), br) ∧ br.remaining = [] :=
      Hop.atOnce.read_eq (by decide) (by decide)
    rw [relay, List.foldlM_cons, hread]
    rfl
  have hat : BodyAt (BufReader.ofList (255 :: Str.asBytes "hi\r\n.\r\n".toList)).remaining
      [255 :: Str.asBytes "hi\r".toList] (Str.asBytes ".\r".toList) [] :=
    ⟨by rw [hremaining]; decide, by decide, by decide, by decide⟩
  refine ⟨_, br₂, .atOnce, hremaining, haccept, hrelay, ?_⟩
  exact ((accepted_is_receivable_iff hat haccept hrelay (by decide) rfl rfl
    ((BufReader.remaining_ofList _).trans (List.append_nil _).symm)).mpr (by decide)).2

/-- A line of the daemon's limit whose octets are each replaced by three is accepted, and
beyond the client's cap. -/
theorem replaced_beyond_cap {raw : Bytes} (hoctet : ∀ a ∈ raw, a = 255)
    (hlength : raw.length = 65536) (hgrowth : Utf8.growth raw = 131072) (hstray : strayDot raw = 0) :
    ∃ lines br', Conn.readBody {} (.ofList (raw ++ LF :: [46, LF])) = (some (some lines), br') ∧
      (Client.nextEvent { io := .ofList (Str.asBytes (Message.encodeDelivery
        ⟨"t".toList, "d-1".toList, "d".toList, lines⟩)) }).1 =
          .error (.protocol "line too long".toList []) := by
  have hline : LF ∉ raw := fun h => absurd (hoctet _ h) (by decide)
  have hstrip : stripCr raw = raw :=
    if_neg fun h => absurd (hoctet _ (List.mem_of_getLast? h)) (by decide)
  have hlen := len_restuffed raw
  rw [hlength, hgrowth, hstray] at hlen
  generalize hx : frame.unstuffLine (fromUtf8Lossy raw) = line at hlen
  have hle : line.len ≤ (frame.stuffLine line).len := by
    unfold frame.stuffLine
    split
    · next rest =>
      have hdot := Str.len_cons '.' ('.' :: rest)
      omega
    · exact le_rfl
  -- The daemon takes the line, which is within its limits, and the terminator.
  obtain ⟨br₁, hread₁, hrest₁⟩ := Conn.readLineBlocking_raw (Limits.maxBodyLineBytes {})
    (BufReader.remaining_ofList (raw ++ LF :: [46, LF])) hline hlength.le
  obtain ⟨br₂, hread₂, _⟩ := Conn.readLineBlocking_raw (Limits.maxBodyLineBytes {})
    (show br₁.remaining = [46] ++ LF :: [] from hrest₁) (by decide) (by decide)
  have hdot : fromUtf8Lossy (stripCr raw) ≠ frame.TERMINATOR := by
    rw [hstrip, Ne, fromUtf8Lossy_eq_terminator_iff]
    rintro rfl
    exact absurd hlength (by decide)
  have hsmall : ¬(0 + (line.len + 1) > 2 ^ 20) := by omega
  have hpush : BodyAcc.push {} {} (fromUtf8Lossy raw) = ⟨[line], 0 + (line.len + 1), false⟩ := by
    unfold BodyAcc.push
    simp only [hx, hsmall, decide_false, Bool.or_false, Bool.false_eq_true, if_false,
      List.nil_append]
  refine ⟨[line], br₂, ?_, ?_⟩
  · rw [Conn.readBody, Conn.readBodyFrom_line hread₁, if_neg hdot, hstrip, hpush,
      Conn.readBodyFrom_line hread₂, if_pos (by decide)]
    rfl
  · have hnewline : '\n' ∉ line := by
      rw [← hx]
      exact newline_notMem_unstuffLine (newline_notMem_fromUtf8Lossy hline)
    have htwo : 2 ≤ DEFAULT_MAX_LINE := by decide
    have hwords : ∀ field ∈ ["t".toList, "d-1".toList, "d".toList], field ≠ [] ∧ ' ' ∉ field := by
      decide
    have hheader :
        '\n' ∉ Message.msgHeader ⟨"t".toList, "d-1".toList, "d".toList, [line]⟩ := by
      rw [msgHeader_eq, Push.text]
      dsimp only
      decide
    have hbody : ∀ l ∈ Message.body ⟨"t".toList, "d-1".toList, "d".toList, [line]⟩, '\n' ∉ l := by
      intro l hl
      rwa [List.mem_singleton.mp hl]
    rw [Client.nextEvent_message rfl htwo hwords hheader hbody
      ((BufReader.remaining_ofList _).trans (List.append_nil _).symm), if_neg]
    intro hall
    have hbound := hall (frame.stuffLine line) (by simp)
    have hcap : DEFAULT_MAX_LINE = 131072 := rfl
    dsimp only at hbound
    omega

/-- As many octets as a body line may have, none of which is UTF-8. -/
def filler : Bytes := List.replicate 65536 255

/-- **A body that is accepted and never received.** -/
theorem accepted_but_not_received :
    ∃ lines br', Conn.readBody {} (.ofList (filler ++ LF :: [46, LF])) =
        (some (some lines), br') ∧
      (Client.nextEvent { io := .ofList (Str.asBytes (Message.encodeDelivery
        ⟨"t".toList, "d-1".toList, "d".toList, lines⟩)) }).1 =
          .error (.protocol "line too long".toList []) := by
  have hstray : ∀ n, strayDot (List.replicate (n + 1) 255) = 0 := fun n => rfl
  exact replaced_beyond_cap (fun a h => (List.mem_replicate.mp h).2) List.length_replicate
    (Utf8.growth_replicate (by decide) 65536) (hstray 65535)

end MacroBus
