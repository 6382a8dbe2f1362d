import MacroBus.Lib.Transition
import MacroBus.Busd.Conn

/-!
# Where the body of a PUBLISH ends

After the `354` everything up to the first line that is a lone dot is body. This file
determines where the buffer of a connection stands in the stream when
`handle_publish` returns: right behind that line if no body line was found too long,
and in the middle of the body otherwise.
-/

namespace MacroBus

section TakeLine

variable {max : ℕ} {rbuf line rest : Bytes}

/-- A line is taken when it is complete and within the limit. -/
theorem takeLine_eq_line_iff :
    takeLine max rbuf = (.line line, rest) ↔
      ∃ raw, rbuf = raw ++ LF :: rest ∧ LF ∉ raw ∧ line = stripCr raw ∧ line.length ≤ max := by
  unfold takeLine
  cases hcut : Lines.cut LF rbuf with
  | none =>
    have hnot := Lines.cut_eq_none_iff.mp hcut
    constructor
    · intro h
      dsimp only at h
      split at h <;> cases h
    · rintro ⟨raw, rfl, _⟩
      exact absurd (by simp) hnot
  | some p =>
    obtain ⟨raw, after⟩ := p
    obtain ⟨hbuf, hnot⟩ := Lines.cut_eq_some_iff.mp hcut
    dsimp only
    constructor
    · intro h
      split at h
      · cases h
      · next hlen =>
        obtain ⟨hl, rfl⟩ := Prod.mk.inj h
        cases hl
        exact ⟨raw, hbuf, hnot, rfl, by omega⟩
    · rintro ⟨raw', hbuf', hnot', rfl, hlen⟩
      rw [hbuf', Lines.cut_append_cons hnot'] at hcut
      obtain ⟨rfl, rfl⟩ := Prod.mk.inj (Option.some.inj hcut)
      rw [if_neg (by omega)]

/-- A line is too long either complete, and is then removed, or unfinished, and then
stays. -/
theorem takeLine_eq_tooLong_iff :
    takeLine max rbuf = (.tooLong, rest) ↔
      (∃ raw, rbuf = raw ++ LF :: rest ∧ LF ∉ raw ∧ max < (stripCr raw).length) ∨
        (rest = rbuf ∧ LF ∉ rbuf ∧ max < rbuf.length) := by
  unfold takeLine
  cases hcut : Lines.cut LF rbuf with
  | none =>
    have hnot := Lines.cut_eq_none_iff.mp hcut
    dsimp only
    constructor
    · intro h
      split at h
      · next hlen =>
        cases h
        exact Or.inr ⟨rfl, hnot, by omega⟩
      · cases h
    · rintro (⟨raw, rfl, _⟩ | ⟨rfl, _, hlen⟩)
      · exact absurd (by simp) hnot
      · rw [if_pos (by omega)]
  | some p =>
    obtain ⟨raw, after⟩ := p
    obtain ⟨hbuf, hnot⟩ := Lines.cut_eq_some_iff.mp hcut
    dsimp only
    constructor
    · intro h
      split at h
      · next hlen =>
        cases h
        exact Or.inl ⟨raw, hbuf, hnot, by omega⟩
      · cases h
    · rintro (⟨raw', hbuf', hnot', hlen⟩ | ⟨rfl, hnot', _⟩)
      · rw [hbuf', Lines.cut_append_cons hnot'] at hcut
        obtain ⟨rfl, rfl⟩ := Prod.mk.inj (Option.some.inj hcut)
        rw [if_pos (by omega)]
      · exact absurd (by rw [hbuf]; simp) hnot'

/-- More input is needed while the line is unfinished and within the limit. -/
theorem takeLine_eq_need_iff :
    takeLine max rbuf = (.need, rest) ↔ rest = rbuf ∧ LF ∉ rbuf ∧ rbuf.length ≤ max := by
  unfold takeLine
  cases hcut : Lines.cut LF rbuf with
  | none =>
    have hnot := Lines.cut_eq_none_iff.mp hcut
    dsimp only
    constructor
    · intro h
      split at h
      · cases h
      · next hlen =>
        cases h
        exact ⟨rfl, hnot, by omega⟩
    · rintro ⟨rfl, _, hlen⟩
      rw [if_neg (by omega)]
  | some p =>
    obtain ⟨raw, after⟩ := p
    obtain ⟨hbuf, hnot⟩ := Lines.cut_eq_some_iff.mp hcut
    dsimp only
    constructor
    · intro h
      split at h <;> cases h
    · rintro ⟨_, hnot', _⟩
      exact absurd (by rw [hbuf]; simp) hnot'

end TakeLine

/-- The stream begins with the body lines `lines`, none of them a lone dot, then the
terminating line `term`, then `rest`. Lines stand here with their carriage return. -/
structure BodyAt (stream : Bytes) (lines : List Bytes) (term rest : Bytes) : Prop where
  /-- How the stream is put together. -/
  split : stream = Lines.join LF (lines ++ [term]) ++ rest
  /-- The lines are whole lines. -/
  whole : ∀ raw ∈ lines ++ [term], LF ∉ raw
  /-- The terminator is not among the lines before it. -/
  earlier : ∀ raw ∈ lines, stripCr raw ≠ DOT
  /-- The last line is the terminator. -/
  last : stripCr term = DOT

/-- The octets `rest` are exactly what follows the first lone dot of the stream. -/
def FollowsTerminator (stream rest : Bytes) : Prop := ∃ lines term, BodyAt stream lines term rest

/-- The condition on a body under which its end is found, for octets `buffered` already
read and the reads that follow: the body has a terminator, every line before it is within
the limit, and no read up to the terminator ends with more than `max` octets of an
unfinished line (which the carriage return of a line of exactly `max` octets would make). -/
def WithinLimit (max : ℕ) (buffered : Bytes) (reads : List Bytes) : Prop :=
  ∃ lines term rest, BodyAt (buffered ++ reads.flatten) lines term rest ∧
    (∀ raw ∈ lines, (stripCr raw).length ≤ max) ∧
    ∀ k ≤ reads.length,
      (buffered ++ (reads.take k).flatten).length < (Lines.join LF (lines ++ [term])).length →
      (Lines.unfinished LF (buffered ++ (reads.take k).flatten)).length ≤ max

/-- A run of whole lines at the front of a stream, none of them a lone dot, ends before the
terminator does. -/
theorem BodyAt.lines_of_prefix {stream term rest after : Bytes} {lines before : List Bytes}
    (h : BodyAt stream lines term rest) (hwhole : ∀ raw ∈ before, LF ∉ raw)
    (hdot : ∀ raw ∈ before, stripCr raw ≠ DOT)
    (hsplit : stream = Lines.join LF before ++ after) : ∃ more, lines = before ++ more := by
  rcases Lines.prefix_or_prefix hwhole h.whole (hsplit.symm.trans h.split) with
    ⟨more, hmore, _⟩ | ⟨more, hmore, _⟩
  · cases more using List.reverseRecOn with
    | nil =>
      have hterm : term ∈ before := by rw [← List.append_nil before, ← hmore]; simp
      exact absurd h.last (hdot term hterm)
    | append_singleton more _ =>
      rw [← List.append_assoc] at hmore
      exact ⟨more, (List.append_inj' hmore rfl).1⟩
  · have hterm : term ∈ before := by rw [hmore]; simp
    exact absurd h.last (hdot term hterm)

/-- The first line of a body. -/
theorem BodyAt.first {stream raw term rest : Bytes} {raws : List Bytes}
    (h : BodyAt stream (raw :: raws) term rest) : ∃ more, stream = raw ++ LF :: more ∧ LF ∉ raw ∧
      fromUtf8Lossy (stripCr raw) ≠ frame.TERMINATOR ∧ BodyAt more raws term rest := by
  refine ⟨Lines.join LF (raws ++ [term]) ++ rest, ?_, h.whole raw (by simp), ?_, ?_⟩
  · rw [h.split, List.cons_append, Lines.join_cons, List.append_assoc, List.cons_append]
  · exact (fromUtf8Lossy_eq_terminator_iff _).not.mpr (h.earlier raw List.mem_cons_self)
  · exact ⟨rfl, fun r hr => h.whole r (List.mem_cons_of_mem _ hr),
      fun r hr => h.earlier r (List.mem_cons_of_mem _ hr), h.last⟩

/-- A body without lines. -/
theorem BodyAt.terminator {stream term rest : Bytes} (h : BodyAt stream [] term rest) :
    stream = term ++ LF :: rest ∧ LF ∉ term ∧
      fromUtf8Lossy (stripCr term) = frame.TERMINATOR :=
  ⟨by simpa using h.split, h.whole term (by simp),
    (fromUtf8Lossy_eq_terminator_iff _).mpr h.last⟩

/-- However a `PUBLISH` ends, the connection goes on at the head of its loop. -/
@[simp] theorem Conn.finishPublish_fst (fwd : Bool) (c : Conn) (h : Hub) (typeName key : Str)
    (body : Option (List Str)) :
    (Conn.finishPublish fwd c h typeName key body).1 = { c with phase := .top } := by
  unfold Conn.finishPublish
  split
  · rfl
  · split <;> rfl

/-- Whether a task is inside the body of a `PUBLISH`. -/
def Phase.inBody : Phase → Bool
  | .body .. | .bodyRead .. => true
  | _ => false

/-- What the body reader has done with the octets it was given: `lines` are consumed,
`before` is left, and no read ended too deep inside a line. -/
structure BodyProgress (max : ℕ) (buffered : Bytes) (reads : List Bytes) (before : Bytes)
    (lines : List Bytes) : Prop where
  /-- Nothing is lost between the consumed lines and the buffer. -/
  split : buffered ++ reads.flatten = Lines.join LF lines ++ before
  /-- The consumed lines are whole lines. -/
  whole : ∀ raw ∈ lines, LF ∉ raw
  /-- None of them is the terminator. -/
  earlier : ∀ raw ∈ lines, stripCr raw ≠ DOT
  /-- All of them are within the limit. -/
  within : ∀ raw ∈ lines, (stripCr raw).length ≤ max
  /-- Every earlier read ended within the limit of its line. -/
  short : ∀ k < reads.length,
    (Lines.unfinished LF (buffered ++ (reads.take k).flatten)).length ≤ max

/-- Consuming one more line. -/
theorem BodyProgress.line {max : ℕ} {buffered raw rest : Bytes} {reads lines : List Bytes}
    (h : BodyProgress max buffered reads (raw ++ LF :: rest) lines) (hraw : LF ∉ raw)
    (hdot : stripCr raw ≠ DOT) (hlen : (stripCr raw).length ≤ max) :
    BodyProgress max buffered reads rest (lines ++ [raw]) where
  split := by simp [h.split]
  whole := by
    intro r hr
    rcases List.mem_append.mp hr with hr | hr
    · exact h.whole r hr
    · rwa [List.mem_singleton.mp hr]
  earlier := by
    intro r hr
    rcases List.mem_append.mp hr with hr | hr
    · exact h.earlier r hr
    · rwa [List.mem_singleton.mp hr]
  within := by
    intro r hr
    rcases List.mem_append.mp hr with hr | hr
    · exact h.within r hr
    · rwa [List.mem_singleton.mp hr]
  short := h.short

/-- Reading more of an unfinished line. -/
theorem BodyProgress.read {max : ℕ} {buffered rbuf : Bytes} {reads lines : List Bytes}
    (h : BodyProgress max buffered reads rbuf lines) (hline : LF ∉ rbuf)
    (hlen : rbuf.length ≤ max) (chunk : Bytes) :
    BodyProgress max buffered (reads ++ [chunk]) (rbuf ++ chunk) lines where
  split := by
    rw [List.flatten_append, ← List.append_assoc, h.split]
    simp
  whole := h.whole
  earlier := h.earlier
  within := h.within
  short := by
    intro k hk
    rw [List.length_append, List.length_singleton] at hk
    rw [List.take_append_of_le_length (by omega)]
    rcases Nat.lt_or_eq_of_le (Nat.le_of_lt_succ hk) with hk | rfl
    · exact h.short k hk
    · rw [List.take_length, h.split, Lines.unfinished_join_append lines hline]
      exact hlen

/-- How the body reader stands after reading `reads`: what the buffer holds in terms of the
stream, and, once `handle_publish` has returned, why it did. -/
def BodyInvariant (max : ℕ) (buffered : Bytes) (reads : List Bytes) (c : Conn) : Prop :=
  match c.phase with
  | .body .. => ∃ lines, BodyProgress max buffered reads c.rbuf lines
  | .bodyRead .. =>
    ∃ lines, BodyProgress max buffered reads c.rbuf lines ∧ LF ∉ c.rbuf ∧ c.rbuf.length ≤ max
  | .top =>
    ∃ lines before, BodyProgress max buffered reads before lines ∧
      ((∃ raw, before = raw ++ LF :: c.rbuf ∧ LF ∉ raw ∧
        (stripCr raw = DOT ∨ max < (stripCr raw).length)) ∨
      (before = c.rbuf ∧ LF ∉ before ∧ max < before.length))
  | _ => True

/-- Where a failed or ended connection stands does not matter. -/
theorem bodyInvariant_ended {max : ℕ} {buffered : Bytes} {reads : List Bytes} {c : Conn}
    {exit : Exit} (h : c.phase = .ended exit) : BodyInvariant max buffered reads c := by
  simp [BodyInvariant, h]

/-- Looking for a body line keeps the invariant. -/
theorem bodyInvariant_go {limits : Limits} {fwd : Bool} {nowMs : ℕ} {c c' : Conn} {h h' : Hub}
    {es : List Effect} {typeName key : Str} {acc : BodyAcc} {buffered : Bytes}
    {reads : List Bytes} (hphase : c.phase = .body typeName key acc)
    (hinv : BodyInvariant limits.maxBodyLineBytes buffered reads c)
    (hgo : Conn.go limits fwd nowMs c h = some (c', h', es)) :
    BodyInvariant limits.maxBodyLineBytes buffered reads c' := by
  simp only [BodyInvariant, hphase] at hinv
  obtain ⟨lines, hprogress⟩ := hinv
  simp only [Conn.go, hphase] at hgo
  cases htake : takeLine limits.maxBodyLineBytes c.rbuf with
  | mk taken rest =>
    simp only [htake] at hgo
    cases taken with
    | line line =>
      obtain ⟨raw, hbuf, hraw, rfl, hlen⟩ := takeLine_eq_line_iff.mp htake
      simp only [fromUtf8Lossy_eq_terminator_iff] at hgo
      split at hgo
      · next hdot =>
        obtain ⟨rfl, _⟩ := Prod.mk.inj (Option.some.inj hgo)
        rw [Conn.finishPublish_fst]
        exact ⟨lines, c.rbuf, hprogress, Or.inl ⟨raw, hbuf, hraw, Or.inl hdot⟩⟩
      · next hdot =>
        obtain ⟨rfl, _⟩ := Prod.mk.inj (Option.some.inj hgo)
        rw [hbuf] at hprogress
        exact ⟨lines ++ [raw], hprogress.line hraw hdot hlen⟩
    | tooLong =>
      obtain ⟨rfl, _⟩ := Prod.mk.inj (Option.some.inj hgo)
      rw [Conn.finishPublish_fst]
      refine ⟨lines, c.rbuf, hprogress, ?_⟩
      rcases takeLine_eq_tooLong_iff.mp htake with ⟨raw, hbuf, hraw, hlen⟩ | ⟨rfl, hline, hlen⟩
      · exact Or.inl ⟨raw, hbuf, hraw, Or.inr hlen⟩
      · exact Or.inr ⟨rfl, hline, hlen⟩
    | need =>
      obtain ⟨rfl, hline, hlen⟩ := takeLine_eq_need_iff.mp htake
      obtain ⟨rfl, _⟩ := Prod.mk.inj (Option.some.inj hgo)
      exact ⟨lines, hprogress, hline, hlen⟩

/-- Every step of the task inside a body keeps the invariant. -/
theorem bodyInvariant_step {limits : Limits} {fwd : Bool} {c c' : Conn} {a : Hub × ℕ × Conn.Wake}
    {io : List Conn.Io} {buffered : Bytes} {reads : List Bytes} (hin : c.phase.inBody = true)
    (hinv : BodyInvariant limits.maxBodyLineBytes buffered reads c)
    (hs : Conn.task limits fwd c a = some (c', io)) :
    BodyInvariant limits.maxBodyLineBytes buffered (reads ++ Conn.reads io) c' := by
  obtain ⟨h, nowMs, wake⟩ := a
  obtain ⟨⟨c₁, h₁, es⟩, hstep, hres⟩ := Option.map_eq_some_iff.mp hs
  obtain ⟨rfl, rfl⟩ := Prod.mk.inj hres
  cases hphase : c.phase with
  | body typeName key acc =>
    cases wake with
    | go =>
      rw [Conn.reads_append, Conn.reads_did]
      simpa [Conn.Wake.received, Conn.reads] using bodyInvariant_go hphase hinv hstep
    | writeErr =>
      simp only [Conn.step] at hstep
      split at hstep
      · split at hstep
        · obtain ⟨rfl, _⟩ := Prod.mk.inj (Option.some.inj hstep)
          exact bodyInvariant_ended rfl
        · cases hstep
      · cases hstep
    | read | readErr | recv | notified => simp [Conn.step, hphase] at hstep
  | bodyRead typeName key acc =>
    simp only [BodyInvariant, hphase] at hinv
    obtain ⟨lines, hprogress, hline, hlen⟩ := hinv
    cases wake with
    | read chunk =>
      simp only [Conn.step, hphase] at hstep
      split at hstep
      · cases hstep
      split at hstep
      · obtain ⟨rfl, _⟩ := Prod.mk.inj (Option.some.inj hstep)
        exact bodyInvariant_ended rfl
      · obtain ⟨rfl, h2⟩ := Prod.mk.inj (Option.some.inj hstep)
        obtain ⟨_, rfl⟩ := Prod.mk.inj h2
        exact ⟨lines, by simpa [Conn.Wake.received, Conn.reads] using hprogress.read hline hlen chunk⟩
    | readErr =>
      simp only [Conn.step, hphase] at hstep
      obtain ⟨rfl, _⟩ := Prod.mk.inj (Option.some.inj hstep)
      exact bodyInvariant_ended rfl
    | go | writeErr => simp [Conn.step, Conn.go, hphase] at hstep
    | recv | notified => simp [Conn.step, hphase] at hstep
  | _ => simp [hphase, Phase.inBody] at hin

/-- A body whose terminator was taken: the connection stands behind it, and the limit
was kept. -/
theorem BodyProgress.terminated {max : ℕ} {buffered raw rest : Bytes} {reads lines : List Bytes}
    (h : BodyProgress max buffered reads (raw ++ LF :: rest) lines) (hraw : LF ∉ raw)
    (hdot : stripCr raw = DOT) (later : List Bytes) :
    FollowsTerminator (buffered ++ reads.flatten ++ later.flatten) (rest ++ later.flatten) ∧
      WithinLimit max buffered (reads ++ later) := by
  have hat : BodyAt (buffered ++ (reads ++ later).flatten) lines raw (rest ++ later.flatten) := by
    refine ⟨?_, ?_, h.earlier, hdot⟩
    · rw [List.flatten_append, ← List.append_assoc, h.split]
      simp
    · intro r hr
      rcases List.mem_append.mp hr with hr | hr
      · exact h.whole r hr
      · rwa [List.mem_singleton.mp hr]
  refine ⟨⟨lines, raw, by simpa [List.append_assoc] using hat⟩,
    lines, raw, _, hat, h.within, fun k _ hlen => ?_⟩
  by_cases hk : k < reads.length
  · rw [List.take_append_of_le_length (by omega)]
    exact h.short k hk
  · -- All reads up to the terminator are among the first `k`, so nothing is missing of it.
    exfalso
    have hall : (buffered ++ reads.flatten).length ≤
        (buffered ++ ((reads ++ later).take k).flatten).length := by
      rw [List.take_append, List.take_of_length_le (by omega)]
      simp
    rw [h.split] at hall
    simp only [Lines.join_append, Lines.join_cons, Lines.join_nil, List.length_append,
      List.length_cons, List.length_nil] at hall hlen
    omega

/-- A body given up at a complete over-long line: the connection stands inside the body, and
the limit was not kept. -/
theorem BodyProgress.overlong {max : ℕ} {buffered raw rest : Bytes} {reads lines : List Bytes}
    (h : BodyProgress max buffered reads (raw ++ LF :: rest) lines) (hraw : LF ∉ raw)
    (hdot : stripCr raw ≠ DOT) (hlen : max < (stripCr raw).length) (later : List Bytes) :
    ¬FollowsTerminator (buffered ++ reads.flatten ++ later.flatten) (rest ++ later.flatten) ∧
      ¬WithinLimit max buffered (reads ++ later) := by
  have hsplit : buffered ++ reads.flatten ++ later.flatten =
      Lines.join LF (lines ++ [raw]) ++ (rest ++ later.flatten) := by
    rw [h.split]
    simp
  have hwhole : ∀ r ∈ lines ++ [raw], LF ∉ r := by
    intro r hr
    rcases List.mem_append.mp hr with hr | hr
    · exact h.whole r hr
    · rwa [List.mem_singleton.mp hr]
  have hdots : ∀ r ∈ lines ++ [raw], stripCr r ≠ DOT := by
    intro r hr
    rcases List.mem_append.mp hr with hr | hr
    · exact h.earlier r hr
    · rwa [List.mem_singleton.mp hr]
  constructor
  · rintro ⟨lines', term, hat⟩
    obtain ⟨more, rfl⟩ := hat.lines_of_prefix hwhole hdots hsplit
    have hlength := congrArg List.length (hsplit.symm.trans hat.split)
    simp only [Lines.join_append, Lines.join_cons, Lines.join_nil, List.length_append,
      List.length_cons, List.length_nil] at hlength
    omega
  · rintro ⟨lines', term, rest', hat, hwithin, _⟩
    rw [List.flatten_append, ← List.append_assoc] at hat
    obtain ⟨more, rfl⟩ := hat.lines_of_prefix hwhole hdots hsplit
    have := hwithin raw (by simp)
    omega

/-- A body given up at an unfinished over-long line: the line stays in the buffer. -/
theorem BodyProgress.kept {max : ℕ} {buffered rbuf : Bytes} {reads lines : List Bytes}
    (h : BodyProgress max buffered reads rbuf lines) (hline : LF ∉ rbuf)
    (hlen : max < rbuf.length) (later : List Bytes) :
    ¬FollowsTerminator (buffered ++ reads.flatten ++ later.flatten) (rbuf ++ later.flatten) ∧
      ¬WithinLimit max buffered (reads ++ later) := by
  have hsplit : buffered ++ reads.flatten ++ later.flatten =
      Lines.join LF lines ++ (rbuf ++ later.flatten) := by
    rw [h.split, List.append_assoc]
  constructor
  · rintro ⟨lines', term, hat⟩
    obtain ⟨more, rfl⟩ := hat.lines_of_prefix h.whole h.earlier hsplit
    have hlength := congrArg List.length (hsplit.symm.trans hat.split)
    simp only [Lines.join_append, Lines.join_cons, Lines.join_nil, List.length_append,
      List.length_cons, List.length_nil] at hlength
    omega
  · rintro ⟨lines', term, rest', hat, _, hshort⟩
    rw [List.flatten_append, ← List.append_assoc] at hat
    obtain ⟨more, rfl⟩ := hat.lines_of_prefix h.whole h.earlier hsplit
    have hbound := hshort reads.length (by simp)
    rw [List.take_left, h.split, Lines.unfinished_join_append lines hline] at hbound
    refine absurd (hbound ?_) (by omega)
    -- Otherwise the terminator would already be in the buffer, which holds no complete line.
    by_contra hge
    have heq : Lines.join LF (more ++ [term]) ++ rest' = rbuf ++ later.flatten := by
      have h' := hsplit.symm.trans hat.split
      rw [List.append_assoc lines more, Lines.join_append, List.append_assoc,
        List.append_cancel_left_eq] at h'
      exact h'.symm
    have hle : (Lines.join LF (more ++ [term])).length ≤ rbuf.length := by
      simp only [Lines.join_append, List.length_append] at hge ⊢
      omega
    have hjoin : Lines.join LF (more ++ [term]) <+: rbuf :=
      List.prefix_of_prefix_length_le ⟨rest', heq⟩ ⟨later.flatten, rfl⟩ hle
    have hmem : LF ∈ rbuf := hjoin.subset (by simp)
    exact hline hmem

/-- **Body octets become commands exactly when a body line is too long.** Let a connection
have answered `354`, with some octets already buffered, and let it run, on whatever hubs it
finds, until `handle_publish` returns with the connection open. What it will look for
commands in, its buffer and the reads still to come, is what follows the first lone dot
after the `354` if and only if the body kept the limit. -/
theorem next_command_follows_terminator_iff {limits : Limits} {fwd : Bool} {c₀ c : Conn}
    {typeName key : Str} {io : List Conn.Io} (hstart : c₀.phase = .body typeName key {})
    (hrun : Transition.Run (Conn.task limits fwd) (fun c _ _ => c.phase.inBody = true) c₀ c io)
    (hopen : c.phase = .top) (later : List Bytes) :
    FollowsTerminator (c₀.rbuf ++ (Conn.reads io).flatten ++ later.flatten)
        (c.rbuf ++ later.flatten) ↔
      WithinLimit limits.maxBodyLineBytes c₀.rbuf (Conn.reads io ++ later) := by
  have hinit : BodyInvariant limits.maxBodyLineBytes c₀.rbuf (Conn.reads []) c₀ := by
    simp only [BodyInvariant, hstart]
    exact ⟨[], by simp [Conn.reads], by simp, by simp, by simp, by simp [Conn.reads]⟩
  have hinv := hrun.invariant (I := fun c io => BodyInvariant limits.maxBodyLineBytes c₀.rbuf
    (Conn.reads io) c) hinit fun s past a s' es h hin hs => by
      rw [Conn.reads_append]
      exact bodyInvariant_step hin h hs
  simp only [BodyInvariant, hopen] at hinv
  obtain ⟨lines, before, hprogress, ⟨raw, rfl, hraw, hdot | hlen⟩ | ⟨rfl, hline, hlen⟩⟩ := hinv
  · obtain ⟨hf, hw⟩ := hprogress.terminated hraw hdot later
    exact iff_of_true hf hw
  · by_cases hdot : stripCr raw = DOT
    · obtain ⟨hf, hw⟩ := hprogress.terminated hraw hdot later
      exact iff_of_true hf hw
    · obtain ⟨hf, hw⟩ := hprogress.overlong hraw hdot hlen later
      exact iff_of_false hf hw
  · obtain ⟨hf, hw⟩ := hprogress.kept hline hlen later
    exact iff_of_false hf hw

/-- The hub of a daemon `d` on which nothing has happened. -/
def idleHub : Hub := ⟨Registry.new "d".toList 16, fun _ => { depth := 1 }⟩

/-- A connection that has just been told to send the body of a `PUBLISH t k`. -/
def publishing : Conn := { id := 1, phase := .body "t".toList "k".toList {} }

/-- What the task of a connection inside a body does with the reads given to it: it looks
for lines, `looks` times after each read. -/
def bodySchedule (looks : ℕ) (reads : List Bytes) : List (Hub × ℕ × Conn.Wake) :=
  (idleHub, 0, .go) ::
    reads.flatMap fun chunk =>
      (idleHub, 0, .read chunk) :: List.replicate looks (idleHub, 0, .go)

/-- A body within the limit, and a command behind it. -/
theorem next_command_follows_terminator_iff_short :
    FollowsTerminator (Str.asBytes "hi\n.\nQUIT\n".toList) (Str.asBytes "QUIT\n".toList) ↔
      WithinLimit 65536 [] [Str.asBytes "hi\n.\nQUIT\n".toList] := by
  have hrun := Transition.run_of_exec (Conn.task {} false) (fun c _ _ => c.phase.inBody)
    publishing (bodySchedule 2 [Str.asBytes "hi\n.\nQUIT\n".toList]) rfl
  exact next_command_follows_terminator_iff rfl hrun rfl []

/-- The failing body: with a limit of three octets, a line of four, a line `QUIT`, and the
terminator, all in one read. The daemon answers `452` and takes the second body line for
its next command. -/
theorem body_line_becomes_command :
    ∃ (limits : Limits) (c₀ c : Conn) (io : List Conn.Io) (rest : Bytes),
      Config.validate { limits := limits } = .ok () ∧
      c₀.phase = .body "t".toList "k".toList {} ∧
      Transition.Run (Conn.task limits false) (fun c _ _ => c.phase.inBody = true) c₀ c io ∧
      c.phase = .top ∧ Conn.reads io = [Str.asBytes "abcd\r\nQUIT\r\n.\r\n".toList] ∧
      takeLine limits.maxCommandLineBytes c.rbuf = (.line (Str.asBytes "QUIT".toList), rest) ∧
      ¬FollowsTerminator (c₀.rbuf ++ (Conn.reads io).flatten) c.rbuf := by
  have hrun := Transition.run_of_exec (Conn.task { maxBodyLineBytes := 3 } false)
    (fun c _ _ => c.phase.inBody) publishing
    (bodySchedule 1 [Str.asBytes "abcd\r\nQUIT\r\n.\r\n".toList]) rfl
  refine ⟨{ maxBodyLineBytes := 3 }, publishing, _, _, Str.asBytes ".\r\n".toList,
    by decide, rfl, hrun, rfl, rfl, by decide, ?_⟩
  have hprogress : BodyProgress 3 [] [Str.asBytes "abcd\r\nQUIT\r\n.\r\n".toList]
      (Str.asBytes "abcd\r".toList ++ LF :: Str.asBytes "QUIT\r\n.\r\n".toList) [] :=
    ⟨by decide, by simp, by simp, by simp, by decide⟩
  have hstray := (hprogress.overlong (by decide) (by decide) (by decide) []).1
  rw [List.flatten_nil, List.append_nil, List.append_nil] at hstray
  exact hstray

end MacroBus
