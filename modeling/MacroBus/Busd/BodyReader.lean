import MacroBus.Lib.BufReader
import MacroBus.Busd.Session

/-!
# Reading the body of a PUBLISH

`read_body` waits for nothing but its socket, so its result is a function of what is
buffered and of the reads that follow. The task of a connection, which may be
interrupted at every read, computes this function.
-/

namespace MacroBus

namespace Conn

/-- What `read_line_blocking` returns. -/
inductive LineRead
  | line (line : Bytes)
  | tooLong
  /-- The stream ended inside the body. -/
  | eof
  deriving DecidableEq

/-- `read_line_blocking`, with these octets buffered. -/
def readLineBlockingFrom (max : ℕ) (buffer : Bytes) :
    (chunks : List Bytes) → (∀ c ∈ chunks, c ≠ []) → LineRead × BufReader UInt8
  | [], h =>
    match takeLine max buffer with
    | (.line line, rest) => (.line line, ⟨rest, [], h⟩)
    | (.tooLong, rest) => (.tooLong, ⟨rest, [], h⟩)
    | (.need, rest) => (.eof, ⟨rest, [], h⟩)
  | chunk :: chunks, h =>
    match takeLine max buffer with
    | (.line line, rest) => (.line line, ⟨rest, chunk :: chunks, h⟩)
    | (.tooLong, rest) => (.tooLong, ⟨rest, chunk :: chunks, h⟩)
    | (.need, rest) =>
      readLineBlockingFrom max (rest ++ chunk) chunks fun c hc => h c (.tail _ hc)

/-- `Conn::read_line_blocking` -/
def readLineBlocking (max : ℕ) (br : BufReader UInt8) : LineRead × BufReader UInt8 :=
  readLineBlockingFrom max br.buffer br.chunks br.nonempty

section ReadLine

variable {max : ℕ} {buffer line rest : Bytes} {chunks : List Bytes} {h : ∀ c ∈ chunks, c ≠ []}

/-- A line that is buffered. -/
theorem readLineBlocking_line (htake : takeLine max buffer = (.line line, rest)) :
    readLineBlocking max ⟨buffer, chunks, h⟩ = (.line line, ⟨rest, chunks, h⟩) := by
  cases chunks with
  | nil => simp only [readLineBlocking, readLineBlockingFrom, htake]
  | cons chunk chunks => simp only [readLineBlocking, readLineBlockingFrom, htake]

/-- A line that is too long. -/
theorem readLineBlocking_tooLong (htake : takeLine max buffer = (.tooLong, rest)) :
    readLineBlocking max ⟨buffer, chunks, h⟩ = (.tooLong, ⟨rest, chunks, h⟩) := by
  cases chunks with
  | nil => simp only [readLineBlocking, readLineBlockingFrom, htake]
  | cons chunk chunks => simp only [readLineBlocking, readLineBlockingFrom, htake]

/-- A line that is not complete is waited for. -/
theorem readLineBlocking_need {chunk : Bytes} {h : ∀ c ∈ chunk :: chunks, c ≠ []}
    (htake : takeLine max buffer = (.need, buffer)) :
    readLineBlocking max ⟨buffer, chunk :: chunks, h⟩ =
      readLineBlocking max ⟨buffer ++ chunk, chunks, fun c hc => h c (.tail _ hc)⟩ := by
  simp only [readLineBlocking, readLineBlockingFrom, htake]

/-- A line that is read leaves less than there was. -/
theorem readLineBlocking_lt {br br' : BufReader UInt8}
    (hread : readLineBlocking max br = (.line line, br')) :
    br'.remaining.length < br.remaining.length := by
  obtain ⟨buffer, chunks, h⟩ := br
  induction chunks generalizing buffer with
  | nil =>
    rcases htake : takeLine max buffer with ⟨taken, rest⟩
    simp only [readLineBlocking, readLineBlockingFrom, htake] at hread
    cases taken with
    | line line' =>
      obtain ⟨raw, hbuffer, _⟩ := takeLine_eq_line_iff.mp htake
      obtain ⟨_, rfl⟩ := Prod.mk.inj hread
      simp only [BufReader.remaining_mk, hbuffer, List.length_append, List.length_cons]
      omega
    | tooLong => cases (Prod.mk.inj hread).1
    | need => cases (Prod.mk.inj hread).1
  | cons chunk chunks ih =>
    rcases htake : takeLine max buffer with ⟨taken, rest⟩
    cases taken with
    | line line' =>
      obtain ⟨raw, hbuffer, _⟩ := takeLine_eq_line_iff.mp htake
      obtain ⟨_, rfl⟩ := Prod.mk.inj ((readLineBlocking_line htake).symm.trans hread)
      simp only [BufReader.remaining_mk, hbuffer, List.length_append, List.length_cons]
      omega
    | tooLong => cases (Prod.mk.inj ((readLineBlocking_tooLong htake).symm.trans hread)).1
    | need =>
      obtain ⟨rfl, _⟩ := takeLine_eq_need_iff.mp htake
      have hlt := ih _ _ ((readLineBlocking_need htake).symm.trans hread)
      simp only [BufReader.remaining_mk, List.flatten_cons, List.length_append] at hlt ⊢
      omega

/-- **A complete line** is read, however it arrives, or found too long. Its carriage return
counts where it arrives before its newline. -/
theorem readLineBlocking_whole (max : ℕ) {raw : Bytes} {br : BufReader UInt8}
    (hbr : br.remaining = raw ++ LF :: rest) (hraw : LF ∉ raw) :
    ∃ br', (readLineBlocking max br = (.line (stripCr raw), br') ∧ br'.remaining = rest) ∨
      (readLineBlocking max br = (.tooLong, br') ∧ max < raw.length) := by
  obtain ⟨buffer, chunks, h⟩ := br
  have hstrip : (stripCr raw).length ≤ raw.length := by
    unfold stripCr
    split
    · rw [List.length_dropLast]
      omega
    · exact le_rfl
  -- What is done with a line that is buffered.
  have hbuffered : ∀ (rest' : Bytes) (buffer : Bytes) (chunks : List Bytes)
      (h : ∀ c ∈ chunks, c ≠ []), buffer = raw ++ LF :: rest' → rest' ++ chunks.flatten = rest →
      ∃ br', (readLineBlocking max ⟨buffer, chunks, h⟩ = (.line (stripCr raw), br') ∧
          br'.remaining = rest) ∨
        (readLineBlocking max ⟨buffer, chunks, h⟩ = (.tooLong, br') ∧ max < raw.length) := by
    intro rest' buffer chunks h hbuffer hrest
    by_cases hlen : (stripCr raw).length ≤ max
    · have htake : takeLine max buffer = (.line (stripCr raw), rest') :=
        takeLine_eq_line_iff.mpr ⟨raw, hbuffer, hraw, rfl, hlen⟩
      exact ⟨_, Or.inl ⟨readLineBlocking_line htake, hrest⟩⟩
    · have htake : takeLine max buffer = (.tooLong, rest') :=
        takeLine_eq_tooLong_iff.mpr (Or.inl ⟨raw, hbuffer, hraw, by omega⟩)
      exact ⟨_, Or.inr ⟨readLineBlocking_tooLong htake, by omega⟩⟩
  simp only [BufReader.remaining_mk] at hbr
  induction chunks generalizing buffer with
  | nil =>
    rw [List.flatten_nil, List.append_nil] at hbr
    exact hbuffered rest buffer [] h hbr (by simp)
  | cons chunk chunks ih =>
    cases hcut : Lines.cut LF buffer with
    | some p =>
      obtain ⟨raw', rest'⟩ := p
      have hwhole := Lines.cut_append hcut (chunk :: chunks).flatten
      rw [hbr, Lines.cut_append_cons hraw] at hwhole
      obtain ⟨rfl, hrest⟩ := Prod.mk.inj (Option.some.inj hwhole)
      exact hbuffered rest' buffer _ h (Lines.cut_eq_some_iff.mp hcut).1 hrest.symm
    | none =>
      -- What is buffered is a part of the line.
      have hbuffer := Lines.cut_eq_none_iff.mp hcut
      have hpart : buffer.length ≤ raw.length := by
        rcases List.append_eq_append_iff.mp hbr with ⟨more, hl, _⟩ | ⟨more, hb, hm⟩
        · rw [hl, List.length_append]
          omega
        · cases more with
          | nil => rw [hb, List.append_nil]
          | cons a more =>
            obtain ⟨rfl, _⟩ := List.cons.inj hm
            exact absurd (by rw [hb]; simp) hbuffer
      by_cases hlen : buffer.length ≤ max
      · have htake : takeLine max buffer = (.need, buffer) :=
          takeLine_eq_need_iff.mpr ⟨rfl, hbuffer, hlen⟩
        rw [readLineBlocking_need htake]
        refine ih _ _ ?_
        rw [← hbr, List.flatten_cons, List.append_assoc]
      · have htake : takeLine max buffer = (.tooLong, buffer) :=
          takeLine_eq_tooLong_iff.mpr (Or.inr ⟨rfl, hbuffer, by omega⟩)
        exact ⟨_, Or.inr ⟨readLineBlocking_tooLong htake, by omega⟩⟩

/-- **A line within the limit** is read. -/
theorem readLineBlocking_raw (max : ℕ) {raw : Bytes} {br : BufReader UInt8}
    (hbr : br.remaining = raw ++ LF :: rest) (hraw : LF ∉ raw) (hlen : raw.length ≤ max) :
    ∃ br', readLineBlocking max br = (.line (stripCr raw), br') ∧ br'.remaining = rest := by
  obtain ⟨br', hread | ⟨_, hlong⟩⟩ := readLineBlocking_whole max hbr hraw
  · exact ⟨br', hread⟩
  · omega

end ReadLine

/-- `read_body` once it has collected `acc`: the body, or `none` in place of it where a limit
is exceeded; no result at all where the stream ends inside the body. -/
def readBodyFrom (limits : Limits) (acc : BodyAcc) (br : BufReader UInt8) :
    Option (Option (List Str)) × BufReader UInt8 :=
  match _hread : readLineBlocking limits.maxBodyLineBytes br with
  | (.eof, br') => (none, br')
  | (.tooLong, br') => (some none, br')
  | (.line line, br') =>
    if fromUtf8Lossy line = frame.TERMINATOR then (some acc.result, br')
    else readBodyFrom limits (acc.push limits (fromUtf8Lossy line)) br'
termination_by br.remaining.length
decreasing_by exact readLineBlocking_lt _hread

/-- `Conn::read_body` -/
def readBody (limits : Limits) (br : BufReader UInt8) :
    Option (Option (List Str)) × BufReader UInt8 :=
  readBodyFrom limits {} br

section ReadBody

variable {limits : Limits} {acc : BodyAcc} {br br' : BufReader UInt8}

/-- One line of a body. -/
theorem readBodyFrom_line {line : Bytes}
    (h : readLineBlocking limits.maxBodyLineBytes br = (.line line, br')) :
    readBodyFrom limits acc br =
      if fromUtf8Lossy line = frame.TERMINATOR then (some acc.result, br')
      else readBodyFrom limits (acc.push limits (fromUtf8Lossy line)) br' := by
  rw [readBodyFrom]
  split
  · next heq => cases (Prod.mk.inj (heq.symm.trans h)).1
  · next heq => cases (Prod.mk.inj (heq.symm.trans h)).1
  · next heq =>
    obtain ⟨h1, rfl⟩ := Prod.mk.inj (heq.symm.trans h)
    cases h1
    rfl

/-- A line of a body that is too long. -/
theorem readBodyFrom_tooLong
    (h : readLineBlocking limits.maxBodyLineBytes br = (.tooLong, br')) :
    readBodyFrom limits acc br = (some none, br') := by
  rw [readBodyFrom]
  split
  · next heq => cases (Prod.mk.inj (heq.symm.trans h)).1
  · next heq =>
    obtain ⟨_, rfl⟩ := Prod.mk.inj (heq.symm.trans h)
    rfl
  · next heq => cases (Prod.mk.inj (heq.symm.trans h)).1

/-- The end of the stream inside a body. -/
theorem readBodyFrom_eof (h : readLineBlocking limits.maxBodyLineBytes br = (.eof, br')) :
    readBodyFrom limits acc br = (none, br') := by
  rw [readBodyFrom]
  split
  · next heq =>
    obtain ⟨_, rfl⟩ := Prod.mk.inj (heq.symm.trans h)
    rfl
  · next heq => cases (Prod.mk.inj (heq.symm.trans h)).1
  · next heq => cases (Prod.mk.inj (heq.symm.trans h)).1

/-- A body depends on how its first line is read. -/
theorem readBodyFrom_congr {br₁ br₂ : BufReader UInt8}
    (h : readLineBlocking limits.maxBodyLineBytes br₁ =
      readLineBlocking limits.maxBodyLineBytes br₂) :
    readBodyFrom limits acc br₁ = readBodyFrom limits acc br₂ := by
  rcases hread : readLineBlocking limits.maxBodyLineBytes br₁ with ⟨line | _ | _, br'⟩
  · rw [readBodyFrom_line hread, readBodyFrom_line (h.symm.trans hread)]
  · rw [readBodyFrom_tooLong hread, readBodyFrom_tooLong (h.symm.trans hread)]
  · rw [readBodyFrom_eof hread, readBodyFrom_eof (h.symm.trans hread)]

/-- Collecting the lines of a body. -/
theorem readBodyFrom_lines {lines : List Str} {rest : Bytes} (acc : BodyAcc)
    (h : br.remaining = Str.asBytes (frame.encodeLines lines) ++ rest)
    (hlines : ∀ line ∈ lines, LineFits limits.maxBodyLineBytes (frame.stuffLine line)) :
    ∃ br', readBodyFrom limits acc br =
        readBodyFrom limits ((lines.map frame.stuffLine).foldl (BodyAcc.push limits) acc) br' ∧
      br'.remaining = rest := by
  induction lines generalizing acc br with
  | nil => exact ⟨br, rfl, by simpa using h⟩
  | cons line lines ih =>
    obtain ⟨hnewline, hlen⟩ := hlines line List.mem_cons_self
    rw [asBytes_encodeLines_cons, List.append_assoc, wireLine_eq, List.append_assoc] at h
    have hraw : (Str.asBytes (frame.stuffLine line) ++ [CR]).length ≤ limits.maxBodyLineBytes := by
      rw [List.length_append, List.length_singleton]
      exact hlen
    obtain ⟨br₁, hread, hrest⟩ := readLineBlocking_raw _ h (LF_notMem_wire hnewline) hraw
    rw [stripCr_append] at hread
    obtain ⟨br', hfold, hrest'⟩ := ih (acc.push limits (frame.stuffLine line)) hrest
      fun l hl => hlines l (List.mem_cons_of_mem _ hl)
    refine ⟨br', ?_, hrest'⟩
    rw [readBodyFrom_line hread, fromUtf8Lossy_asBytes,
      if_neg (frame.stuffLine_ne_terminator line), hfold, List.map_cons, List.foldl_cons]

/-- **A body is read back**, or found too large, and the reader stops behind its terminator. -/
theorem readBody_encodeBody {lines : List Str} {rest : Bytes}
    (h : br.remaining = Str.asBytes (frame.encodeBody lines) ++ rest)
    (hfits : BlockFits limits.maxBodyLineBytes lines) :
    ∃ br', readBody limits br =
        (some (if limits.maxMessageBytes < bodySize lines then none else some lines), br') ∧
      br'.remaining = rest := by
  rw [asBytes_encodeBody, List.append_assoc] at h
  obtain ⟨br₁, hfold, hrest⟩ := readBodyFrom_lines {} h hfits.1
  obtain ⟨hnewline, hlen⟩ := hfits.2
  rw [wireLine_eq, List.append_assoc] at hrest
  have hraw : (Str.asBytes frame.TERMINATOR ++ [CR]).length ≤ limits.maxBodyLineBytes := by
    rw [List.length_append, List.length_singleton]
    exact hlen
  obtain ⟨br', hread, hrest'⟩ := readLineBlocking_raw _ hrest (LF_notMem_wire hnewline) hraw
  rw [stripCr_append] at hread
  refine ⟨br', ?_, hrest'⟩
  rw [readBody, hfold, readBodyFrom_line hread, fromUtf8Lossy_asBytes, if_pos rfl,
    BodyAcc.result_stuffed]

/-- **A body that is accepted** has the lines that were sent, decoded and unstuffed. -/
theorem readBodyFrom_accepted {raws : List Bytes} {term rest : Bytes} {lines : List Str}
    (hat : BodyAt br.remaining raws term rest)
    (haccept : readBodyFrom limits acc br = (some (some lines), br')) :
    ((raws.map fun raw => fromUtf8Lossy (stripCr raw)).foldl (BodyAcc.push limits) acc).result =
      some lines := by
  induction raws generalizing acc br with
  | nil =>
    obtain ⟨hsplit, hterm, hdot⟩ := hat.terminator
    obtain ⟨br₁, ⟨hread, _⟩ | ⟨hread, _⟩⟩ :=
      readLineBlocking_whole limits.maxBodyLineBytes hsplit hterm
    · rw [readBodyFrom_line hread, if_pos hdot] at haccept
      exact Option.some.inj (Prod.mk.inj haccept).1
    · rw [readBodyFrom_tooLong hread] at haccept
      cases (Prod.mk.inj haccept).1
  | cons raw raws ih =>
    obtain ⟨more, hsplit, hraw, hdot, hmore⟩ := hat.first
    obtain ⟨br₁, ⟨hread, hrest⟩ | ⟨hread, _⟩⟩ :=
      readLineBlocking_whole limits.maxBodyLineBytes hsplit hraw
    · rw [readBodyFrom_line hread, if_neg hdot] at haccept
      rw [List.map_cons, List.foldl_cons]
      exact ih (hrest.symm ▸ hmore) haccept
    · rw [readBodyFrom_tooLong hread] at haccept
      cases (Prod.mk.inj haccept).1

end ReadBody

section Task

variable {limits : Limits} {fwd : Bool} {nowMs : ℕ} {c c' : Conn} {h h' : Hub} {es : List Effect}
  {typeName key : Str} {buffered : Bytes} {reads : List Bytes}

/-- With these octets in its buffer and these lines collected, whatever a task still reads,
`read_body` will return what it returns for all its reads. -/
def Collects (limits : Limits) (buffered : Bytes) (reads : List Bytes) (acc : BodyAcc)
    (rbuf : Bytes) : Prop :=
  (∀ chunk ∈ reads, chunk ≠ []) ∧ ∀ later h h',
    readBody limits ⟨buffered, reads ++ later, h⟩ = readBodyFrom limits acc ⟨rbuf, later, h'⟩

/-- How a task inside the body of a `PUBLISH` stands, after these reads. -/
def BodyReads (limits : Limits) (typeName key : Str) (buffered : Bytes) (reads : List Bytes)
    (c : Conn) : Prop :=
  match c.phase with
  | .body typeName' key' acc =>
    typeName' = typeName ∧ key' = key ∧ Collects limits buffered reads acc c.rbuf
  | .bodyRead typeName' key' acc =>
    typeName' = typeName ∧ key' = key ∧ Collects limits buffered reads acc c.rbuf ∧
      takeLine limits.maxBodyLineBytes c.rbuf = (.need, c.rbuf)
  | _ => True

/-- Taking a line out of the buffer. -/
theorem Collects.line {acc : BodyAcc} {rbuf rest line : Bytes}
    (hc : Collects limits buffered reads acc rbuf)
    (htake : takeLine limits.maxBodyLineBytes rbuf = (.line line, rest))
    (hline : fromUtf8Lossy line ≠ frame.TERMINATOR) :
    Collects limits buffered reads (acc.push limits (fromUtf8Lossy line)) rest := by
  refine ⟨hc.1, fun later h h' => ?_⟩
  rw [hc.2 later h h', readBodyFrom_line (readLineBlocking_line htake), if_neg hline]

/-- Reading more of a line. -/
theorem Collects.read {acc : BodyAcc} {rbuf chunk : Bytes}
    (hc : Collects limits buffered reads acc rbuf)
    (htake : takeLine limits.maxBodyLineBytes rbuf = (.need, rbuf)) (hne : chunk ≠ []) :
    Collects limits buffered (reads ++ [chunk]) acc (rbuf ++ chunk) := by
  have hreads : ∀ d ∈ reads ++ [chunk], d ≠ [] := by
    intro d hd
    rcases List.mem_append.mp hd with hd | hd
    · exact hc.1 d hd
    · rwa [List.mem_singleton.mp hd]
  refine ⟨hreads, fun later h h' => ?_⟩
  have hlater : ∀ d ∈ chunk :: later, d ≠ [] := by
    intro d hd
    rcases List.mem_cons.mp hd with rfl | hd
    · exact hne
    · exact h' d hd
  have hall := hc.2 (chunk :: later) (fun d hd => h d (by simpa [List.append_assoc] using hd)) hlater
  rw [readBodyFrom_congr (readLineBlocking_need htake)] at hall
  rw [← hall]
  simp only [List.append_assoc, List.singleton_append]

/-- **A step inside a body** has no part in what `read_body` returns. -/
theorem bodyReads_step {a : Hub × ℕ × Wake} {io : List Io} (hin : c.phase.inBody = true)
    (hinv : BodyReads limits typeName key buffered reads c)
    (hs : task limits fwd c a = some (c', io)) :
    BodyReads limits typeName key buffered (reads ++ Conn.reads io) c' := by
  obtain ⟨h, nowMs, wake⟩ := a
  obtain ⟨⟨c₁, h₁, es⟩, hstep, hres⟩ := Option.map_eq_some_iff.mp hs
  obtain ⟨rfl, rfl⟩ := Prod.mk.inj hres
  unfold BodyReads at hinv
  cases step_steps hstep with
  | go hgo =>
    have hreads : Conn.reads (Wake.go.received ++ es.map .did) = [] := by
      rw [reads_append, reads_did, List.append_nil]
      rfl
    rw [hreads, List.append_nil]
    cases go_goes hgo with
    | terminator =>
      dsimp only
      rw [finishPublish_fst]
      trivial
    | bodyTooLong => trivial
    | bodyLine hphase htake hline =>
      rw [hphase] at hinv
      obtain ⟨rfl, rfl, hc⟩ := hinv
      exact ⟨rfl, rfl, hc.line htake hline⟩
    | bodyNeed hphase htake =>
      rw [hphase] at hinv
      obtain ⟨rfl, rfl, hc⟩ := hinv
      obtain ⟨rfl, _, _⟩ := takeLine_eq_need_iff.mp htake
      exact ⟨rfl, rfl, hc, htake⟩
    | greet hphase | noDrops hphase | drain hphase | flushed hphase | notice hphase
    | command hphase | commandTooLong hphase | commandNeed hphase | deliver hphase
    | remove hphase => simp [hphase, Phase.inBody] at hin
  | readBody hphase hne =>
    rw [hphase] at hinv
    obtain ⟨rfl, rfl, hc, htake⟩ := hinv
    exact ⟨rfl, rfl, hc.read htake hne⟩
  | writeErr | closed | closedBody => trivial
  | read hphase | recv hphase | notified hphase => simp [hphase, Phase.inBody] at hin

/-- **The task computes `read_body`**, on whatever hubs it finds. -/
theorem bodyReads_of_run {c₀ : Conn} {io : List Io} (hstart : c₀.phase = .body typeName key {})
    (hrun : Transition.Run (task limits fwd) (fun c _ _ => c.phase.inBody = true) c₀ c io) :
    BodyReads limits typeName key c₀.rbuf (Conn.reads io) c := by
  refine hrun.invariant (I := fun c io => BodyReads limits typeName key c₀.rbuf (Conn.reads io) c)
    ?_ fun s past a s' es hinv hin hs => ?_
  · unfold BodyReads
    rw [hstart]
    exact ⟨rfl, rfl, by simp [Conn.reads], fun _ _ _ => rfl⟩
  · rw [reads_append]
    exact bodyReads_step hin hinv hs

end Task

end Conn

end MacroBus
