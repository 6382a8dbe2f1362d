import MacroBus.Client.Client

/-!
# What a client reads

Each reading function of the client, on a stream that begins with what it expects: the
line, the block, the push or the reply is read, and the client is left behind it.
-/

namespace MacroBus

namespace Client

variable {c : Client} {rest : Bytes}

section Lines

/-- Reading a line within the cap. -/
theorem readLineFrom_line {maxLine : ℕ} {buf raw : Bytes} {io : BufReader UInt8}
    (h : io.remaining = raw ++ LF :: rest) (hraw : LF ∉ raw)
    (hlen : (buf ++ raw).length ≤ maxLine) :
    ∃ io', readLineFrom maxLine buf io = (.ok (fromUtf8Lossy (stripCr (buf ++ raw))), io') ∧
      io'.remaining = rest := by
  induction raw generalizing buf io with
  | nil =>
    obtain ⟨io', hread, hrest⟩ := BufReader.readByte_cons h
    exact ⟨io', by rw [readLineFrom_some hread, if_pos rfl, List.append_nil], hrest⟩
  | cons byte raw ih =>
    obtain ⟨io₁, hread, hrest⟩ := BufReader.readByte_cons h
    obtain ⟨hne, hraw'⟩ := not_or.mp (List.mem_cons.not.mp hraw)
    have happend : buf ++ byte :: raw = buf ++ [byte] ++ raw := by simp
    rw [happend] at hlen ⊢
    obtain ⟨io', hline, hrest'⟩ := ih hrest hraw' hlen
    refine ⟨io', ?_, hrest'⟩
    rw [List.length_append] at hlen
    rw [readLineFrom_some hread, if_neg (Ne.symm hne), if_neg (by omega), hline]

/-- Reading a line beyond the cap. -/
theorem readLineFrom_tooLong {maxLine : ℕ} {buf raw : Bytes} {io : BufReader UInt8}
    (h : io.remaining = raw ++ rest) (hraw : LF ∉ raw) (hne : raw ≠ [])
    (hlen : maxLine < (buf ++ raw).length) :
    (readLineFrom maxLine buf io).1 = .error (.protocol "line too long".toList []) := by
  induction raw generalizing buf io with
  | nil => exact absurd rfl hne
  | cons byte raw ih =>
    obtain ⟨io', hread, hrest⟩ := BufReader.readByte_cons h
    obtain ⟨hbyte, hraw'⟩ := not_or.mp (List.mem_cons.not.mp hraw)
    have happend : buf ++ byte :: raw = buf ++ [byte] ++ raw := by simp
    rw [happend] at hlen
    rw [readLineFrom_some hread, if_neg (Ne.symm hbyte)]
    by_cases hcap : (buf ++ [byte]).length > maxLine
    · rw [if_pos hcap]
    · rw [if_neg hcap]
      refine ih hrest hraw' ?_ hlen
      rintro rfl
      rw [List.append_nil] at hlen
      omega

/-- **A raw line** within the cap is decoded. -/
theorem readLine_raw {raw : Bytes} (h : c.io.remaining = raw ++ LF :: rest) (hraw : LF ∉ raw)
    (hlen : raw.length ≤ c.maxLine) :
    ∃ io, c.readLine = (.ok (fromUtf8Lossy (stripCr raw)), { c with io := io }) ∧
      io.remaining = rest := by
  obtain ⟨io, hline, hrest⟩ :=
    readLineFrom_line h hraw (show ([] ++ raw).length ≤ c.maxLine from hlen)
  exact ⟨io, by rw [readLine, hline]; rfl, hrest⟩

/-- **A sent line** is read back. -/
theorem readLine_fits {s : Str} (h : c.io.remaining = wireLine s ++ rest)
    (hs : LineFits c.maxLine s) :
    ∃ io, c.readLine = (.ok s, { c with io := io }) ∧ io.remaining = rest := by
  rw [wireLine_eq, List.append_assoc] at h
  have hlen : (Str.asBytes s ++ [CR]).length ≤ c.maxLine := by
    rw [List.length_append, List.length_singleton]
    exact hs.2
  obtain ⟨io, hread, hrest⟩ := readLine_raw h (LF_notMem_wire hs.1) hlen
  rw [stripCr_append, fromUtf8Lossy_asBytes] at hread
  exact ⟨io, hread, hrest⟩

/-- A sent line that does not fit is not read. -/
theorem readLine_tooLong {s : Str} (h : c.io.remaining = wireLine s ++ rest) (hs : '\n' ∉ s)
    (hlen : c.maxLine < s.len + 1) :
    c.readLine.1 = .error (.protocol "line too long".toList []) := by
  rw [wireLine_eq, List.append_assoc] at h
  refine readLineFrom_tooLong h (LF_notMem_wire hs) (by simp) ?_
  rw [List.nil_append, List.length_append, List.length_singleton]
  exact hlen

/-- A line that is read has no newline. -/
theorem newline_notMem_readLineFrom {maxLine : ℕ} {buf : Bytes} {io : BufReader UInt8}
    {line : Str} (hbuf : LF ∉ buf) (h : (readLineFrom maxLine buf io).1 = .ok line) :
    '\n' ∉ line := by
  induction hn : io.remaining.length using Nat.strong_induction_on generalizing buf io with
  | _ n ih =>
    cases hread : io.readByte with
    | none =>
      rw [readLineFrom_none hread] at h
      cases h
    | some p =>
      obtain ⟨byte, io'⟩ := p
      have hlt := BufReader.readByte_lt hread
      rw [readLineFrom_some hread] at h
      split at h
      · obtain rfl := Except.ok.inj h
        exact newline_notMem_fromUtf8Lossy fun hmem => hbuf ((stripCr_sublist buf).subset hmem)
      · next hbyte =>
        split at h
        · cases h
        · refine ih _ (hn ▸ hlt) ?_ h rfl
          simp [hbuf, Ne.symm hbyte]

end Lines

section Blocks

/-- Collecting the lines of a block. -/
theorem readBlockFrom_encodeBody {lines : List Str} (out : List Str)
    (h : c.io.remaining = Str.asBytes (frame.encodeBody lines) ++ rest)
    (hfits : BlockFits c.maxLine lines) :
    ∃ io, readBlockFrom out c = (.ok (out ++ lines), { c with io := io }) ∧
      io.remaining = rest := by
  induction lines generalizing out c with
  | nil =>
    rw [asBytes_encodeBody, frame.encodeLines_nil] at h
    obtain ⟨io, hread, hrest⟩ := readLine_fits h hfits.2
    exact ⟨io, by rw [readBlockFrom_ok hread, if_pos rfl, List.append_nil], hrest⟩
  | cons line lines ih =>
    rw [asBytes_encodeBody, asBytes_encodeLines_cons, List.append_assoc, List.append_assoc] at h
    obtain ⟨io₁, hread, hrest₁⟩ := readLine_fits h (hfits.1 line List.mem_cons_self)
    obtain ⟨io, hblock, hrest⟩ := ih (c := { c with io := io₁ }) (out ++ [line])
      (by rw [hrest₁, asBytes_encodeBody, List.append_assoc])
      ⟨fun l hl => hfits.1 l (List.mem_cons_of_mem _ hl), hfits.2⟩
    refine ⟨io, ?_, hrest⟩
    rw [readBlockFrom_ok hread, if_neg (frame.stuffLine_ne_terminator line),
      frame.unstuffLine_stuffLine, hblock, List.append_assoc, List.singleton_append]

/-- **A block is read back**, and the client stops behind its terminator. -/
theorem readBlock_encodeBody {lines : List Str}
    (h : c.io.remaining = Str.asBytes (frame.encodeBody lines) ++ rest)
    (hfits : BlockFits c.maxLine lines) :
    ∃ io, c.readBlock = (.ok lines, { c with io := io }) ∧ io.remaining = rest :=
  readBlockFrom_encodeBody [] h hfits

/-- A block with a line beyond the cap is not read. -/
theorem readBlockFrom_tooLong {lines : List Str} (out : List Str)
    (h : c.io.remaining = Str.asBytes (frame.encodeBody lines) ++ rest)
    (hlines : ∀ line ∈ lines, '\n' ∉ line)
    (hlong : ∃ line ∈ lines, c.maxLine < (frame.stuffLine line).len + 1) :
    (readBlockFrom out c).1 = .error (.protocol "line too long".toList []) := by
  induction lines generalizing out c with
  | nil =>
    obtain ⟨line, hline, _⟩ := hlong
    cases hline
  | cons line lines ih =>
    have hnewline := newline_notMem_stuffLine (hlines line List.mem_cons_self)
    rw [asBytes_encodeBody, asBytes_encodeLines_cons, List.append_assoc, List.append_assoc] at h
    by_cases hlen : (frame.stuffLine line).len + 1 ≤ c.maxLine
    · obtain ⟨io, hread, hrest⟩ := readLine_fits h ⟨hnewline, hlen⟩
      obtain ⟨line', hline', hlong'⟩ := hlong
      have hlater : line' ∈ lines := by
        rcases List.mem_cons.mp hline' with rfl | hlater
        · omega
        · exact hlater
      rw [readBlockFrom_ok hread, if_neg (frame.stuffLine_ne_terminator line)]
      exact ih _ (by rw [hrest, asBytes_encodeBody, List.append_assoc])
        (fun l hl => hlines l (List.mem_cons_of_mem _ hl)) ⟨line', hlater, hlong'⟩
    · have hread := readLine_tooLong h hnewline (by omega)
      rcases hline : c.readLine with ⟨result, c'⟩
      rw [hline] at hread
      dsimp only at hread
      subst hread
      rw [readBlockFrom_error hline]

end Blocks

section Status

/-- A code has three digits. -/
theorem len_decimal_code {code : ℕ} (hlow : 100 ≤ code) (hhigh : code < 1000) :
    (decimal code).len = 3 := by
  rw [Str.len_ascii fun d hd => toNat_lt_of_mem_decimal hd]
  have hle := (Nat.length_toDigits_le_iff (n := code) (k := 3) (b := 10) (by omega) (by omega)).mpr
    (by omega)
  have hgt := (Nat.length_toDigits_le_iff (n := code) (k := 2) (b := 10) (by omega) (by omega)).not.mpr
    (by omega)
  unfold decimal
  omega

/-- **A status line** is split into its code and its text. -/
theorem splitStatus_statusLine {code : ℕ} (hlow : 100 ≤ code) (hhigh : code < 1000)
    (text : Str) : splitStatus (decimal code ++ ' ' :: text) = .ok (code, text) := by
  have hlen := len_decimal_code hlow hhigh
  have hcode := Str.splitAtOctet_append (decimal code) (' ' :: text)
  rw [hlen] at hcode
  have htext := Str.splitAtOctet_append (decimal code ++ [' ']) text
  have hspace : Str.len [' '] = 1 := by decide
  rw [Str.len_append, hlen, hspace, List.append_assoc, List.singleton_append] at htext
  have hlong : ¬(decimal code ++ ' ' :: text).len < 3 := by
    rw [Str.len_append]
    omega
  have hparse : parseUnsigned u16Values (decimal code) = some code :=
    parseUnsigned_decimal (by unfold u16Values; omega)
  unfold splitStatus
  rw [if_neg hlong, hcode]
  dsimp only
  rw [hparse, htext]
  rfl

end Status

/-- What a client makes of a push. A note loses the keyword the daemon never writes. -/
def ofPush : Push → Event
  | .message msg => .message msg
  | .drop typeName count => .drop typeName count
  | .note text => .note ((Str.stripPrefix "NOTE ".toList text).getD text)

section Units

variable {p : Push} {r : Reply}

/-- The first line of a push fits. -/
theorem line_of_fits {maxLine : ℕ} (hp : p.Fits maxLine) :
    LineFits maxLine (decimal p.code ++ ' ' :: p.text) := by
  cases p with
  | message msg =>
    have hheader := hp.2.1
    rwa [msgHeader_eq] at hheader
  | drop typeName count =>
    have hverb : "DROP ".toList ++ typeName ++ ' ' :: decimal count =
        "DROP".toList ++ ' ' :: (typeName ++ ' ' :: decimal count) := by
      rw [show "DROP ".toList = "DROP".toList ++ [' '] by decide]
      simp only [List.append_assoc, List.cons_append, List.nil_append]
    have hline := hp.2.2
    rwa [hverb] at hline
  | note text => exact hp

/-- The code of a push. -/
theorem code_range (p : Push) : 100 ≤ p.code ∧ p.code < 200 := by
  cases p <;> simp [Push.code, status.MSG, status.DROP, status.NOTE]

/-- A delivery whose header has words for fields is read with its block. -/
theorem readPush_message {msg : Message}
    (hfields : ∀ field ∈ [msg.typeName, msg.msgId, msg.origin], field ≠ [] ∧ ' ' ∉ field) :
    c.readPush status.MSG (Push.message msg).text =
      match c.readBlock with
      | (.error e, c') => (.error e, c')
      | (.ok body, c') => (.ok (.message { msg with body := body }), c') := by
  obtain ⟨htype, htype'⟩ := hfields msg.typeName (by simp)
  obtain ⟨hid, hid'⟩ := hfields msg.msgId (by simp)
  obtain ⟨horigin, horigin'⟩ := hfields msg.origin (by simp)
  have hsplit : Str.split ' ' (Push.message msg).text =
      ["MSG".toList, msg.typeName, msg.msgId, msg.origin] := by
    rw [Push.text, Str.split_append_cons (by decide), Str.split_append_cons htype',
      Str.split_append_cons hid', Str.split_eq_singleton horigin']
  have hempty : ¬(msg.typeName = [] ∨ msg.msgId = [] ∨ msg.origin = []) := by
    rintro (h | h | h)
    · exact htype h
    · exact hid h
    · exact horigin h
  unfold readPush
  rw [hsplit]
  exact (if_pos rfl).trans ((if_neg (not_not.mpr rfl)).trans (if_neg hempty))

/-- Behind the first line of a push, the rest of it is read. -/
theorem readPush_fits (hp : p.Fits c.maxLine)
    (h : c.io.remaining = Str.asBytes p.block ++ rest) :
    ∃ io, c.readPush p.code p.text = (.ok (ofPush p), { c with io := io }) ∧
      io.remaining = rest := by
  cases p with
  | message msg =>
    obtain ⟨hfields, _, hbody⟩ := hp
    obtain ⟨io, hblock, hrest⟩ := readBlock_encodeBody h hbody
    refine ⟨io, ?_, hrest⟩
    rw [Push.code, readPush_message hfields, hblock]
    rfl
  | drop typeName count =>
    obtain ⟨htype, hcount, _⟩ := hp
    have hsplit : Str.split ' ' (Push.drop typeName count).text =
        ["DROP".toList, typeName, decimal count] := by
      rw [Push.text, Str.split_append_cons (by decide), Str.split_append_cons htype,
        Str.split_eq_singleton (notMem_decimal (by decide) count)]
    refine ⟨c.io, ?_, by simpa [Push.block] using h⟩
    unfold readPush
    rw [hsplit]
    have hparse := parseUnsigned_decimal hcount
    refine (if_neg (show ¬status.DROP = status.MSG by decide)).trans
      ((if_pos rfl).trans ((if_neg (not_not.mpr rfl)).trans ?_))
    simp only [List.getElem?_cons_succ, List.getElem?_cons_zero, Option.bind_some, hparse]
    rfl
  | note text =>
    refine ⟨c.io, ?_, by simpa [Push.block] using h⟩
    have hmsg : ¬(Push.note text).code = status.MSG := (by decide : ¬status.NOTE = status.MSG)
    have hdrop : ¬(Push.note text).code = status.DROP := (by decide : ¬status.NOTE = status.DROP)
    unfold readPush
    dsimp only
    rw [if_neg hmsg, if_neg hdrop]
    rfl

/-- **A push in front of a reply** is kept. -/
theorem readResponse_push (hp : p.Fits c.maxLine)
    (h : c.io.remaining = Str.asBytes p.serialize ++ rest) :
    ∃ io, c.readResponse =
        readResponse { c with io := io, pending := c.pending ++ [ofPush p] } ∧
      io.remaining = rest := by
  obtain ⟨hlow, hhigh⟩ := code_range p
  rw [asBytes_push, List.append_assoc] at h
  obtain ⟨io₁, hline, hrest₁⟩ := readLine_fits h (line_of_fits hp)
  obtain ⟨io, hpush, hrest⟩ := readPush_fits (c := { c with io := io₁ }) hp hrest₁
  have hsplit := splitStatus_statusLine hlow (lt_trans hhigh (by decide)) p.text
  have hasync : status.isAsync p.code = true := (status.isAsync_iff _).mpr ⟨hlow, hhigh⟩
  exact ⟨io, readResponse_of_push hline hsplit hasync hpush, hrest⟩

/-- **A reply** is read with its block. -/
theorem readResponse_reply (hr : r.Fits c.maxLine)
    (h : c.io.remaining = Str.asBytes r.serialize ++ rest) :
    ∃ io, c.readResponse = (.ok r, { c with io := io }) ∧ io.remaining = rest := by
  obtain ⟨code, text, block⟩ := r
  obtain ⟨⟨hlow, hhigh⟩, hfits, hblock⟩ := hr
  dsimp only at hlow hhigh hfits hblock
  rw [asBytes_reply, List.append_assoc] at h
  obtain ⟨io₁, hline, hrest₁⟩ := readLine_fits h hfits
  have hsplit := splitStatus_statusLine (le_trans (by decide) hlow) hhigh text
  have hasync : status.isAsync code = false := by
    rw [← Bool.not_eq_true, status.isAsync_iff]
    exact fun hrange => absurd (lt_of_lt_of_le hrange.2 hlow) (lt_irrefl _)
  rw [readResponse_of_reply hline hsplit hasync]
  cases block with
  | none => exact ⟨io₁, if_neg (not_or.mpr hblock), hrest₁⟩
  | some lines =>
    obtain ⟨io, hread, hrest⟩ := readBlock_encodeBody (c := { c with io := io₁ }) hrest₁ hblock.2
    exact ⟨io, by rw [if_pos hblock.1, hread], hrest⟩

/-- **A push is the next event** where none is kept. -/
theorem nextEvent_push (hpending : c.pending = []) (hp : p.Fits c.maxLine)
    (h : c.io.remaining = Str.asBytes p.serialize ++ rest) :
    ∃ io, c.nextEvent = (.ok (ofPush p), { c with io := io }) ∧ io.remaining = rest := by
  obtain ⟨io₀, pending, maxLine, daemonId⟩ := c
  obtain rfl : pending = [] := hpending
  obtain ⟨hlow, hhigh⟩ := code_range p
  rw [asBytes_push, List.append_assoc] at h
  obtain ⟨io₁, hline, hrest₁⟩ := readLine_fits h (line_of_fits hp)
  obtain ⟨io, hpush, hrest⟩ := readPush_fits (c := ⟨io₁, [], maxLine, daemonId⟩) hp hrest₁
  have hsplit := splitStatus_statusLine hlow (lt_trans hhigh (by decide)) p.text
  have hasync : status.isAsync p.code = true := (status.isAsync_iff _).mpr ⟨hlow, hhigh⟩
  refine ⟨io, ?_, hrest⟩
  unfold nextEvent
  dsimp only
  rw [hline]
  dsimp only
  rw [hsplit]
  dsimp only
  rw [if_pos hasync, hpush]

/-- **A delivery** is received exactly where its header and its lines are within the cap. -/
theorem nextEvent_message {msg : Message} (hpending : c.pending = []) (htwo : 2 ≤ c.maxLine)
    (hfields : ∀ field ∈ [msg.typeName, msg.msgId, msg.origin], field ≠ [] ∧ ' ' ∉ field)
    (hheader : '\n' ∉ msg.msgHeader) (hlines : ∀ line ∈ msg.body, '\n' ∉ line)
    (h : c.io.remaining = Str.asBytes msg.encodeDelivery ++ rest) :
    c.nextEvent.1 = if ∀ line ∈ msg.msgHeader :: msg.body.map frame.stuffLine,
        line.len + 1 ≤ c.maxLine then .ok (.message msg)
      else .error (.protocol "line too long".toList []) := by
  have hdot : LineFits c.maxLine frame.TERMINATOR := ⟨by decide, htwo⟩
  split
  · next hfits =>
    have hbody : ∀ line ∈ msg.body, LineFits c.maxLine (frame.stuffLine line) := fun line hl =>
      ⟨newline_notMem_stuffLine (hlines line hl),
        hfits _ (List.mem_cons_of_mem _ (List.mem_map_of_mem hl))⟩
    have hpush : (Push.message msg).Fits c.maxLine :=
      ⟨hfields, ⟨hheader, hfits _ List.mem_cons_self⟩, hbody, hdot⟩
    obtain ⟨io, hread, _⟩ := nextEvent_push hpending hpush h
    rw [hread]
    rfl
  · next hlong =>
    have hsplit : Str.asBytes msg.encodeDelivery =
        wireLine msg.msgHeader ++ Str.asBytes (frame.encodeBody msg.body) :=
      asBytes_append (msg.msgHeader ++ frame.CRLF) _
    rw [hsplit, List.append_assoc] at h
    unfold nextEvent
    rw [hpending]
    dsimp only
    by_cases hlen : msg.msgHeader.len + 1 ≤ c.maxLine
    · -- The header is read, and a line of the body is not.
      obtain ⟨io, hread, hrest⟩ := readLine_fits h ⟨hheader, hlen⟩
      have hstatus := splitStatus_statusLine (show 100 ≤ status.MSG by decide) (by decide)
        (Push.message msg).text
      have hbody : ∃ line ∈ msg.body, c.maxLine < (frame.stuffLine line).len + 1 := by
        by_contra hall
        push Not at hall
        refine hlong fun line hl => ?_
        rcases List.mem_cons.mp hl with rfl | hl
        · exact hlen
        · obtain ⟨line', hl', rfl⟩ := List.mem_map.mp hl
          exact hall line' hl'
      have hblock := readBlockFrom_tooLong (c := { c with io := io }) [] hrest hlines hbody
      rw [hread]
      dsimp only
      rw [msgHeader_eq, hstatus]
      dsimp only
      rw [if_pos (by decide), readPush_message hfields]
      rcases hresult : readBlock { c with io := io } with ⟨result, c'⟩
      rw [show readBlockFrom [] { c with io := io } = _ from hresult] at hblock
      dsimp only at hblock
      subst hblock
      rfl
    · have hread := readLine_tooLong h hheader (by omega)
      rcases hline : c.readLine with ⟨result, c'⟩
      rw [hline] at hread
      dsimp only at hread
      subst hread
      rfl

/-- **The greeting** is read, and what stands in it up to the first space is the daemon id. -/
theorem fromStream_greeting {id : Str} {io : BufReader UInt8}
    (h : io.remaining = wireLine (greeting id) ++ rest)
    (hfits : LineFits DEFAULT_MAX_LINE (greeting id)) :
    ∃ io', fromStream io = .ok { io := io', daemonId := Str.splitFirst ' ' (id ++
        " macro-bus MBP/1.0 ready".toList) } ∧ io'.remaining = rest := by
  obtain ⟨io', hline, hrest⟩ := readLine_fits (c := { io := io }) h hfits
  have hgreeting : greeting id = decimal status.SERVICE_READY ++
      ' ' :: (id ++ " macro-bus MBP/1.0 ready".toList) := by
    have htail : " macro-bus ".toList ++ (PROTOCOL_ID ++ " ready".toList) =
        " macro-bus MBP/1.0 ready".toList := by decide
    unfold greeting
    rw [← htail]
    simp only [List.append_assoc, List.cons_append]
  have hsplit := splitStatus_statusLine (show 100 ≤ status.SERVICE_READY by decide) (by decide)
    (id ++ " macro-bus MBP/1.0 ready".toList)
  rw [← hgreeting] at hsplit
  refine ⟨io', ?_, hrest⟩
  unfold fromStream
  rw [hline]
  dsimp only
  rw [hsplit]
  exact if_neg (not_not.mpr rfl)

end Units

end Client

end MacroBus
