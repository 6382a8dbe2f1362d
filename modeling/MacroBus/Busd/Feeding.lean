import MacroBus.Busd.Session

/-!
# Feeding octets to a connection

What a waiting connection does with octets that arrive, one lemma for each place at which
it can wait and each kind of input: part of a line, the end of a line, lines with more
behind them. Octets may arrive after the lines before them have been dealt with, and the
pieces of an unfinished line may be joined.
-/

namespace MacroBus

/-- A complete line at the front of the buffer is taken or, when too long, dropped. -/
theorem takeLine_complete {raw : Bytes} (hraw : LF ∉ raw) (max : ℕ) (rest : Bytes) :
    takeLine max (raw ++ LF :: rest) =
      (if max < (stripCr raw).length then .tooLong else .line (stripCr raw), rest) := by
  unfold takeLine
  rw [Lines.cut_append_cons hraw]
  dsimp only
  split <;> rfl

/-- Without a newline nothing leaves the buffer. -/
theorem takeLine_unfinished {rbuf : Bytes} (hrbuf : LF ∉ rbuf) (max : ℕ) :
    takeLine max rbuf = (if max < rbuf.length then .tooLong else .need, rbuf) := by
  unfold takeLine
  rw [Lines.cut_eq_none_iff.mpr hrbuf]
  dsimp only
  split <;> rfl

/-- A line loses at most its carriage return. -/
theorem length_le_stripCr (raw : Bytes) : raw.length ≤ (stripCr raw).length + 1 := by
  unfold stripCr
  split
  · rw [List.length_dropLast]
    omega
  · omega

/-- Stripping makes no line longer. -/
theorem stripCr_length_le (raw : Bytes) : (stripCr raw).length ≤ raw.length := by
  unfold stripCr
  split
  · rw [List.length_dropLast]
    omega
  · omega

/-- A line cut anywhere, its newline with the second piece. -/
theorem take_append_drop_line (raw : Bytes) (n : ℕ) :
    raw.take n ++ (raw.drop n ++ [LF]) = raw ++ [LF] := by
  rw [← List.append_assoc, List.take_append_drop]

/-- What leaves the buffer with a complete line. -/
theorem take_line_length (raw rest : Bytes) :
    (raw ++ LF :: rest).take ((raw ++ LF :: rest).length - rest.length) = raw ++ [LF] := by
  have hsplit : raw ++ LF :: rest = (raw ++ [LF]) ++ rest := by simp
  have hlen : (raw ++ [LF] ++ rest).length - rest.length = (raw ++ [LF]).length := by
    rw [List.length_append, Nat.add_sub_cancel]
  rw [hsplit, hlen, List.take_left]

/-- Whether drops recorded before have been taken out for writing by now. -/
def Phase.flushed : Phase → Bool
  | .flush _ | .take | .select | .body .. | .bodyRead .. => true
  | _ => false

/-- Whether a task in this phase is about to look for a line. -/
def Phase.looks : Phase → Bool
  | .take | .body .. => true
  | _ => false

/-- **Octets behind complete lines are not looked at.** While there is a complete line to
look at, or none is looked for, a step does the same whatever stands behind the lines. -/
theorem Conn.go_closed {limits : Limits} {fwd : Bool} {nowMs : ℕ} {c : Conn} {h : Hub}
    (hclosed : Lines.Closed LF c.rbuf) (hlooks : c.phase.looks = true → c.rbuf ≠ [])
    (hwait : c.phase.waits = false) (hopen : ∀ exit, c.phase ≠ .ended exit) :
    ∃ c' h' es, Conn.go limits fwd nowMs c h = some (c', h', es) ∧
      Lines.Closed LF c'.rbuf ∧ c'.phase.waits = false ∧
      ∀ more, Conn.go limits fwd nowMs { c with rbuf := c.rbuf ++ more } h =
        some ({ c' with rbuf := c'.rbuf ++ more }, h', es) := by
  obtain ⟨id, rbuf, subs, phase⟩ := c
  cases phase with
  | start => exact ⟨_, _, _, rfl, hclosed, rfl, fun _ => rfl⟩
  | top =>
    cases hdrops : (h.chan id).drops.entries with
    | nil =>
      refine ⟨⟨id, rbuf, subs, .take⟩, h, [], ?_, hclosed, rfl, ?_⟩
      · rw [Conn.go_top (by rfl), hdrops]
      · intro more
        rw [Conn.go_top (by rfl), hdrops]
    | cons entry entries =>
      refine ⟨⟨id, rbuf, subs, .flush ((entry :: entries).map fun e => (e.1, e.2))⟩,
        { h with chan := Function.update h.chan id { h.chan id with drops := ∅ } }, [], ?_,
        hclosed, rfl, ?_⟩
      · rw [Conn.go_top (by rfl), hdrops]
      · intro more
        rw [Conn.go_top (by rfl), hdrops]
  | flush pending =>
    cases pending with
    | nil => exact ⟨_, _, _, rfl, hclosed, rfl, fun _ => rfl⟩
    | cons notice pending => exact ⟨_, _, _, rfl, hclosed, rfl, fun _ => rfl⟩
  | deliver out => exact ⟨_, _, _, rfl, hclosed, rfl, fun _ => rfl⟩
  | take =>
    rcases hclosed.eq_nil_or with hnil | ⟨raw, rest, rfl, hraw, hrest⟩
    · exact absurd hnil (hlooks rfl)
    · have hmore : ∀ more, raw ++ LF :: rest ++ more = raw ++ LF :: (rest ++ more) := by simp
      by_cases hlen : limits.maxCommandLineBytes < (stripCr raw).length
      · refine ⟨⟨id, rest, subs, .ended .ok⟩, h,
          [writeLine status.SYNTAX "command line too long".toList], ?_, hrest, rfl, ?_⟩
        · rw [Conn.go_take (by rfl), takeLine_complete hraw, if_pos hlen]
        · intro more
          rw [Conn.go_take (by rfl), hmore, takeLine_complete hraw, if_pos hlen]
      · obtain ⟨_, hrbuf, hnext⟩ := Conn.handleCommand_conn limits fwd nowMs
          ⟨id, rest, subs, .take⟩ h (stripCr raw)
        have hbuffer := Conn.handleCommand_rbuf limits fwd nowMs ⟨id, rest, subs, .take⟩ h
          (stripCr raw)
        dsimp only at hbuffer
        generalize hr : Conn.handleCommand limits fwd nowMs ⟨id, rest, subs, .take⟩ h (stripCr raw) = r
          at hrbuf hnext hbuffer
        refine ⟨r.1, r.2.1, .command (stripCr raw) :: r.2.2, ?_, ?_, ?_, ?_⟩
        · rw [Conn.go_take (by rfl), takeLine_complete hraw, if_neg hlen]
          dsimp only
          rw [hr]
        · rw [hrbuf]
          exact hrest
        · rcases hnext with hnext | hnext | ⟨_, _, hnext⟩ <;> rw [hnext] <;> rfl
        · intro more
          rw [Conn.go_take (by rfl), hmore, takeLine_complete hraw, if_neg hlen]
          dsimp only
          rw [hbuffer, hrbuf]
  | body typeName key acc =>
    rcases hclosed.eq_nil_or with hnil | ⟨raw, rest, rfl, hraw, hrest⟩
    · exact absurd hnil (hlooks rfl)
    · have hmore : ∀ more, raw ++ LF :: rest ++ more = raw ++ LF :: (rest ++ more) := by simp
      by_cases hlen : limits.maxBodyLineBytes < (stripCr raw).length
      · refine ⟨⟨id, rest, subs, .top⟩, h, [.giveUp (raw ++ [LF]),
          writeLine status.TOO_LARGE "message too large".toList], ?_, hrest, rfl, ?_⟩
        · rw [Conn.go_body (by rfl), takeLine_complete hraw, if_pos hlen]
          dsimp only
          rw [take_line_length]
        · intro more
          rw [Conn.go_body (by rfl), hmore, takeLine_complete hraw, if_pos hlen]
          dsimp only
          rw [take_line_length]
      · by_cases hdot : fromUtf8Lossy (stripCr raw) = frame.TERMINATOR
        · have hfst := Conn.finishPublish_fst fwd ⟨id, rest, subs, .body typeName key acc⟩ h
            typeName key acc.result
          have hbuffer := Conn.finishPublish_rbuf fwd ⟨id, rest, subs, .body typeName key acc⟩ h
            typeName key acc.result
          dsimp only at hfst hbuffer
          generalize hr : Conn.finishPublish fwd ⟨id, rest, subs, .body typeName key acc⟩ h typeName key
            acc.result = r at hfst hbuffer
          refine ⟨⟨id, rest, subs, .top⟩, r.2.1, .bodyLine (stripCr raw) :: r.2.2, ?_, hrest, rfl,
            ?_⟩
          · rw [Conn.go_body (by rfl), takeLine_complete hraw, if_neg hlen]
            dsimp only
            rw [if_pos hdot, hr, hfst]
          · intro more
            rw [Conn.go_body (by rfl), hmore, takeLine_complete hraw, if_neg hlen]
            dsimp only
            rw [if_pos hdot, hbuffer, hfst]
        · refine ⟨⟨id, rest, subs, .body typeName key (acc.push limits
            (fromUtf8Lossy (stripCr raw)))⟩, h, [.bodyLine (stripCr raw)], ?_, hrest, rfl, ?_⟩
          · rw [Conn.go_body (by rfl), takeLine_complete hraw, if_neg hlen]
            dsimp only
            rw [if_neg hdot]
          · intro more
            rw [Conn.go_body (by rfl), hmore, takeLine_complete hraw, if_neg hlen]
            dsimp only
            rw [if_neg hdot]
  | ended exit => exact absurd rfl (hopen exit)
  | select => cases hwait
  | bodyRead typeName key acc => cases hwait
  | gone => cases hwait

namespace Session

variable {E : Setting} {s s' : Session}

/-- The session with this buffer, at this place of its task, having done this more. -/
def moved (s : Session) (rbuf : Bytes) (phase : Phase) (es : List Effect) : Session :=
  ⟨{ s.conn with rbuf := rbuf, phase := phase }, s.hub, s.log ++ es⟩

@[simp] theorem moved_rbuf (s : Session) (rbuf : Bytes) (phase : Phase) (es : List Effect) :
    (s.moved rbuf phase es).conn.rbuf = rbuf := rfl

@[simp] theorem moved_phase (s : Session) (rbuf : Bytes) (phase : Phase) (es : List Effect) :
    (s.moved rbuf phase es).conn.phase = phase := rfl

@[simp] theorem moved_log (s : Session) (rbuf : Bytes) (phase : Phase) (es : List Effect) :
    (s.moved rbuf phase es).log = s.log ++ es := rfl

@[simp] theorem moved_drops (s : Session) (rbuf : Bytes) (phase : Phase) (es : List Effect) :
    (s.moved rbuf phase es).drops = s.drops := rfl

@[simp] theorem moved_moved (s : Session) (rbuf rbuf' : Bytes) (phase phase' : Phase)
    (es es' : List Effect) :
    (s.moved rbuf phase es).moved rbuf' phase' es' = s.moved rbuf' phase' (es ++ es') := by
  simp [moved]

/-- A session where it is. -/
theorem moved_self {rbuf : Bytes} {phase : Phase} (hrbuf : s.conn.rbuf = rbuf)
    (hphase : s.conn.phase = phase) : s.moved rbuf phase [] = s := by
  subst hrbuf hphase
  simp [moved]

/-- No drop is recorded while the task is past `flush_drops`. -/
def Calm (s : Session) : Prop := s.conn.phase.flushed = true → s.drops = ∅

/-- Internal steps keep a session calm: the only fan-out among them returns to the head of
the loop. -/
theorem Calm.advance (hcalm : s.Calm) (h : s.advance E .go = some s') : s'.Calm := by
  obtain ⟨c, hub, es, hgo, rfl⟩ := advance_go_eq_some_iff.mp h
  obtain ⟨⟨id, rbuf, subs, phase⟩, hub₀, log⟩ := s
  unfold Calm drops at *
  unfold Conn.go at hgo
  cases phase with
  | start =>
    simp only [Option.some.injEq, Prod.mk.injEq] at hgo
    obtain ⟨rfl, rfl, rfl⟩ := hgo
    intro hflushed
    cases hflushed
  | top =>
    dsimp only at hgo
    split at hgo
    · next hnil =>
      simp only [Option.some.injEq, Prod.mk.injEq] at hgo
      obtain ⟨rfl, rfl, rfl⟩ := hgo
      intro _
      exact AList.ext hnil
    · simp only [Option.some.injEq, Prod.mk.injEq] at hgo
      obtain ⟨rfl, rfl, rfl⟩ := hgo
      intro _
      simp
  | flush pending =>
    cases pending with
    | nil =>
      simp only [Option.some.injEq, Prod.mk.injEq] at hgo
      obtain ⟨rfl, rfl, rfl⟩ := hgo
      exact fun _ => hcalm rfl
    | cons notice pending =>
      simp only [Option.some.injEq, Prod.mk.injEq] at hgo
      obtain ⟨rfl, rfl, rfl⟩ := hgo
      exact fun _ => hcalm rfl
  | take =>
    dsimp only at hgo
    rcases htake : takeLine E.limits.maxCommandLineBytes rbuf with ⟨taken, rest⟩
    rw [htake] at hgo
    cases taken with
    | line line =>
      simp only [Option.some.injEq, Prod.mk.injEq] at hgo
      obtain ⟨rfl, rfl, rfl⟩ := hgo
      intro _
      dsimp only
      rw [Conn.handleCommand_chan, (Conn.handleCommand_conn _ _ _ _ _ _).1]
      exact hcalm rfl
    | need =>
      simp only [Option.some.injEq, Prod.mk.injEq] at hgo
      obtain ⟨rfl, rfl, rfl⟩ := hgo
      exact fun _ => hcalm rfl
    | tooLong =>
      simp only [Option.some.injEq, Prod.mk.injEq] at hgo
      obtain ⟨rfl, rfl, rfl⟩ := hgo
      exact fun _ => hcalm rfl
  | deliver out =>
    simp only [Option.some.injEq, Prod.mk.injEq] at hgo
    obtain ⟨rfl, rfl, rfl⟩ := hgo
    intro hflushed
    cases hflushed
  | body typeName key acc =>
    dsimp only at hgo
    rcases htake : takeLine E.limits.maxBodyLineBytes rbuf with ⟨taken, rest⟩
    rw [htake] at hgo
    cases taken with
    | line line =>
      dsimp only at hgo
      split at hgo
      · simp only [Option.some.injEq, Prod.mk.injEq, Conn.finishPublish_fst] at hgo
        obtain ⟨rfl, _, _⟩ := hgo
        intro hflushed
        cases hflushed
      · simp only [Option.some.injEq, Prod.mk.injEq] at hgo
        obtain ⟨rfl, rfl, rfl⟩ := hgo
        exact fun _ => hcalm rfl
    | need =>
      simp only [Option.some.injEq, Prod.mk.injEq] at hgo
      obtain ⟨rfl, rfl, rfl⟩ := hgo
      exact fun _ => hcalm rfl
    | tooLong =>
      simp only [Option.some.injEq, Prod.mk.injEq, Conn.finishPublish_fst] at hgo
      obtain ⟨rfl, _, _⟩ := hgo
      intro hflushed
      cases hflushed
  | ended exit =>
    simp only [Option.some.injEq, Prod.mk.injEq] at hgo
    obtain ⟨rfl, rfl, rfl⟩ := hgo
    intro hflushed
    cases hflushed
  | select => simp at hgo
  | bodyRead typeName key acc => simp at hgo
  | gone => simp at hgo

/-- Settling keeps a session calm. -/
theorem Calm.settle (hcalm : s.Calm) : (s.settle E).Calm :=
  (settle_induction hcalm fun _ _ ht hadv => ht.advance hadv).1

/-- Where no drop is recorded, the loop goes straight on to look for a line. -/
theorem settle_top (hphase : s.conn.phase = .top) (hdrops : s.drops = ∅) :
    settle E s = settle E (s.moved s.conn.rbuf .take []) := by
  apply settle_of_advance
  rw [advance_go_eq_some_iff]
  have hentries : (s.hub.chan s.conn.id).drops.entries = [] := congrArg AList.entries hdrops
  refine ⟨{ s.conn with phase := .take }, s.hub, [], ?_, rfl⟩
  rw [Conn.go_top hphase, hentries]

/-- Without a complete line, a connection between commands waits, as long as the line is
within the limit. -/
theorem settle_take_need (hphase : s.conn.phase = .take) (hline : LF ∉ s.conn.rbuf)
    (hlen : s.conn.rbuf.length ≤ E.limits.maxCommandLineBytes) :
    settle E s = s.moved s.conn.rbuf .select [] := by
  have hadv : s.advance E .go = some (s.moved s.conn.rbuf .select []) := by
    rw [advance_go_eq_some_iff]
    refine ⟨_, _, _, ?_, rfl⟩
    rw [Conn.go_take hphase, takeLine_unfinished hline, if_neg (by omega)]
  rw [settle_of_advance hadv]
  exact settle_of_waits rfl

/-- The reply to an over-long command line. -/
def lineTooLong : Effect := writeLine status.SYNTAX "command line too long".toList

/-- An over-long unfinished line ends the connection. -/
theorem settle_take_long (hphase : s.conn.phase = .take) (hline : LF ∉ s.conn.rbuf)
    (hlen : E.limits.maxCommandLineBytes < s.conn.rbuf.length) :
    settle E s = settle E (s.moved s.conn.rbuf (.ended .ok) [lineTooLong]) := by
  apply settle_of_advance
  rw [advance_go_eq_some_iff]
  refine ⟨_, _, _, ?_, rfl⟩
  rw [Conn.go_take hphase, takeLine_unfinished hline, if_pos hlen]
  rfl

/-- An over-long complete line ends the connection. -/
theorem settle_take_long_line {raw rest : Bytes} (hphase : s.conn.phase = .take)
    (hbuf : s.conn.rbuf = raw ++ LF :: rest) (hraw : LF ∉ raw)
    (hlen : E.limits.maxCommandLineBytes < (stripCr raw).length) :
    settle E s = settle E (s.moved rest (.ended .ok) [lineTooLong]) := by
  apply settle_of_advance
  rw [advance_go_eq_some_iff]
  refine ⟨_, _, _, ?_, rfl⟩
  rw [Conn.go_take hphase, hbuf, takeLine_complete hraw, if_pos hlen]
  rfl

/-- A connection inside a body waits for more of its line, as long as it is within the limit. -/
theorem settle_body_need {typeName key : Str} {acc : BodyAcc}
    (hphase : s.conn.phase = .body typeName key acc) (hline : LF ∉ s.conn.rbuf)
    (hlen : s.conn.rbuf.length ≤ E.limits.maxBodyLineBytes) :
    settle E s = s.moved s.conn.rbuf (.bodyRead typeName key acc) [] := by
  have hadv : s.advance E .go = some (s.moved s.conn.rbuf (.bodyRead typeName key acc) []) := by
    rw [advance_go_eq_some_iff]
    refine ⟨_, _, _, ?_, rfl⟩
    rw [Conn.go_body hphase, takeLine_unfinished hline, if_neg (by omega)]
  rw [settle_of_advance hadv]
  exact settle_of_waits rfl

/-- What is done where a body is given up at an unfinished line. -/
def givenUp : List Effect :=
  [.giveUp [], writeLine status.TOO_LARGE "message too large".toList]

/-- At an over-long unfinished line the body is given up and the line stays. -/
theorem settle_body_long {typeName key : Str} {acc : BodyAcc}
    (hphase : s.conn.phase = .body typeName key acc) (hline : LF ∉ s.conn.rbuf)
    (hlen : E.limits.maxBodyLineBytes < s.conn.rbuf.length) :
    settle E s = settle E (s.moved s.conn.rbuf .top givenUp) := by
  apply settle_of_advance
  rw [advance_go_eq_some_iff]
  refine ⟨_, _, _, ?_, rfl⟩
  rw [Conn.go_body hphase, takeLine_unfinished hline, if_pos hlen]
  simp [givenUp]

/-- The session with more octets behind those it has buffered. -/
def extend (s : Session) (more : Bytes) : Session :=
  ⟨{ s.conn with rbuf := s.conn.rbuf ++ more }, s.hub, s.log⟩

/-- What a read does before the task goes on: the octets join the buffer. -/
def arrive (s : Session) (chunk : Bytes) : Session :=
  match s.conn.phase with
  | .select => s.moved (s.conn.rbuf ++ chunk) .top []
  | .bodyRead typeName key acc => s.moved (s.conn.rbuf ++ chunk) (.body typeName key acc) []
  | _ => s

/-- Octets arrive, however many, and the task runs until it waits again. -/
def feed (E : Setting) (s : Session) (chunk : Bytes) : Session := settle E (s.arrive chunk)

/-- What arrives is not yet acted on. -/
@[simp] theorem arrive_log (s : Session) (chunk : Bytes) : (s.arrive chunk).log = s.log := by
  unfold arrive
  split <;> simp

/-- Feeding only adds to the log. -/
theorem log_prefix_feed (E : Setting) (s : Session) (chunk : Bytes) :
    s.log <+: (feed E s chunk).log := by
  rw [← arrive_log s chunk]
  exact log_prefix_settle E _

/-- A read of some octets feeds them to a waiting session. -/
theorem read_eq_feed {chunk : Bytes} (hwait : s.conn.phase.waits = true) (hne : chunk ≠ [])
    (hlen : chunk.length ≤ READ_SIZE) : read E s chunk = feed E s chunk := by
  obtain ⟨⟨id, rbuf, subs, phase⟩, hub, log⟩ := s
  cases phase with
  | select =>
    simp [read, feed, advance, Conn.step, arrive, moved, hne, Nat.not_lt.mpr hlen]
  | bodyRead typeName key acc =>
    simp [read, feed, advance, Conn.step, arrive, moved, hne, Nat.not_lt.mpr hlen]
  | gone =>
    simp only [read, feed, advance, Conn.step, arrive, Option.map_none]
    exact (settle_of_waits rfl).symm
  | _ => cases hwait

/-- The session of a connection that is removed from the registry. -/
def left (s : Session) : Session :=
  ⟨{ s.conn with rbuf := [], mySubs := [], phase := .gone },
    { s.hub with
      registry := s.hub.registry.removeConn s.conn.id s.conn.mySubs
      chan := Function.update s.hub.chan s.conn.id { s.hub.chan s.conn.id with isOpen := false } },
    s.log ++ [.call (.removeConn s.conn.mySubs)]⟩

/-- The last step of a connection. -/
theorem advance_ended {exit : Exit} (hphase : s.conn.phase = .ended exit) :
    s.advance E .go = some s.left := by
  obtain ⟨⟨id, rbuf, subs, phase⟩, hub, log⟩ := s
  cases hphase
  rfl

/-- Settling ends where the connection has ended. -/
theorem settle_ended {exit : Exit} (hphase : s.conn.phase = .ended exit) :
    settle E s = s.left := by
  rw [settle_of_advance (advance_ended hphase)]
  exact settle_of_waits rfl

/-- Nothing happens to a connection that is gone. -/
theorem feed_gone (hphase : s.conn.phase = .gone) (chunk : Bytes) : feed E s chunk = s := by
  unfold feed arrive
  rw [hphase]
  exact settle_of_waits (by rw [hphase]; rfl)

/-- At an empty buffer the task waits. -/
theorem advance_looks (hlooks : s.conn.phase.looks = true) (hnil : s.conn.rbuf = []) :
    ∃ phase, s.advance E .go = some (s.moved [] phase []) ∧ phase.waits = true ∧
      ∀ more, (s.moved [] phase []).arrive more =
        if s.conn.phase = .take then s.moved more .top [] else s.extend more := by
  obtain ⟨⟨id, rbuf, subs, phase⟩, hub, log⟩ := s
  obtain rfl : rbuf = [] := hnil
  cases phase with
  | take =>
    refine ⟨.select, ?_, rfl, ?_⟩
    · rw [advance_go_eq_some_iff]
      exact ⟨⟨id, [], subs, .select⟩, hub, [], rfl, rfl⟩
    · intro more
      simp [arrive, moved]
  | body typeName key acc =>
    refine ⟨.bodyRead typeName key acc, ?_, rfl, ?_⟩
    · rw [advance_go_eq_some_iff]
      exact ⟨⟨id, [], subs, .bodyRead typeName key acc⟩, hub, [], rfl, rfl⟩
    · intro more
      simp [arrive, moved, extend]
  | _ => cases hlooks

/-- A task that looks for a line has flushed its drops. -/
theorem Calm.of_looks (hcalm : s.Calm) (hlooks : s.conn.phase.looks = true) : s.drops = ∅ := by
  apply hcalm
  revert hlooks
  cases s.conn.phase <;> simp [Phase.looks, Phase.flushed]

/-- **Octets may as well arrive after the lines before them have been dealt with.** -/
theorem settle_extend (hcalm : s.Calm) (hclosed : Lines.Closed LF s.conn.rbuf)
    (hwait : s.conn.phase.waits = false) (more : Bytes) :
    settle E (s.extend more) = feed E (settle E s) more := by
  induction hw : s.weight using Nat.strong_induction_on generalizing s with
  | _ n ih =>
    by_cases hended : ∃ exit, s.conn.phase = .ended exit
    · obtain ⟨exit, hphase⟩ := hended
      rw [settle_ended hphase, feed_gone rfl]
      exact settle_ended (s := s.extend more) hphase
    · by_cases hlooks : s.conn.phase.looks = true → s.conn.rbuf ≠ []
      · obtain ⟨c, h, es, hgo, hc, hw', hmore⟩ := Conn.go_closed hclosed hlooks hwait
          (not_exists.mp hended)
        have hadv : s.advance E .go = some ⟨c, h, s.log ++ es⟩ :=
          advance_go_eq_some_iff.mpr ⟨c, h, es, hgo, rfl⟩
        have hadv' : (s.extend more).advance E .go =
            some (Session.extend ⟨c, h, s.log ++ es⟩ more) :=
          advance_go_eq_some_iff.mpr ⟨_, _, _, hmore more, rfl⟩
        rw [settle_of_advance hadv, settle_of_advance hadv']
        exact ih _ (hw ▸ advance_weight hadv) (hcalm.advance hadv) hc hw' rfl
      · obtain ⟨hlooks, hnil⟩ := Classical.not_imp.mp hlooks
        have hnil := not_not.mp hnil
        have hdrops := hcalm.of_looks hlooks
        obtain ⟨phase, hadv, hwaits, harrive⟩ := advance_looks (E := E) hlooks hnil
        rw [settle_of_advance hadv, settle_of_waits (s := s.moved [] phase []) hwaits, feed, harrive more]
        split
        · next htake =>
          rw [settle_top (s := s.moved more .top []) rfl hdrops, moved_moved, List.append_nil]
          have hsame : s.extend more = s.moved more .take [] := by
            rw [← htake]
            simp [extend, moved, hnil]
          rw [hsame, moved_rbuf]
        · rfl

/-- A session whose task waits, with nothing of a line in its buffer. -/
structure AtLine (s : Session) : Prop where
  /-- The task waits. -/
  waits : s.conn.phase.waits = true
  /-- No drop is recorded. -/
  calm : s.Calm
  /-- The next octet starts a line. -/
  empty : s.conn.rbuf = []

/-- Where complete lines are settled, a line is next. -/
theorem atLine_settle (hcalm : s.Calm) (hclosed : Lines.Closed LF s.conn.rbuf)
    (hwait : s.conn.phase.waits = false) : (settle E s).AtLine := by
  have hstep : ∀ t t' : Session, (Lines.Closed LF t.conn.rbuf ∧
      (t.conn.phase.waits = true → t.conn.rbuf = [])) → t.advance E .go = some t' →
      (Lines.Closed LF t'.conn.rbuf ∧ (t'.conn.phase.waits = true → t'.conn.rbuf = [])) := by
    rintro t t' ⟨htclosed, _⟩ hadv
    have htwait : t.conn.phase.waits = false := by
      by_contra h
      rw [advance_go_eq_none_iff.mpr (by simpa using h)] at hadv
      cases hadv
    by_cases hended : ∃ exit, t.conn.phase = .ended exit
    · obtain ⟨exit, hphase⟩ := hended
      rw [advance_ended hphase] at hadv
      cases hadv
      exact ⟨Or.inl rfl, fun _ => rfl⟩
    · by_cases hlooks : t.conn.phase.looks = true → t.conn.rbuf ≠ []
      · obtain ⟨c, h, es, hgo, hc, hw, _⟩ := Conn.go_closed htclosed hlooks htwait
          (not_exists.mp hended)
        rw [advance_go_eq_some_iff.mpr ⟨c, h, es, hgo, rfl⟩] at hadv
        cases hadv
        refine ⟨hc, fun h => ?_⟩
        rw [hw] at h
        cases h
      · obtain ⟨hlooks, hnil⟩ := Classical.not_imp.mp hlooks
        obtain ⟨phase, hadv', _⟩ := advance_looks (E := E) hlooks (not_not.mp hnil)
        rw [hadv'] at hadv
        cases hadv
        exact ⟨Or.inl rfl, fun _ => rfl⟩
  obtain ⟨⟨_, hempty⟩, hwaits⟩ := settle_induction
    (P := fun t => Lines.Closed LF t.conn.rbuf ∧ (t.conn.phase.waits = true → t.conn.rbuf = []))
    ⟨hclosed, fun h => by rw [hwait] at h; cases h⟩ hstep
  exact ⟨hwaits, hcalm.settle, hempty hwaits⟩

/-- An accepted connection starts at a line. -/
theorem atLine_accept (E : Setting) (id : ℕ) (hub : Hub) : (accept E id hub).AtLine := by
  apply atLine_settle
  · intro h
    cases h
  · exact Or.inl rfl
  · rfl

/-- A line and what follows it may arrive one after the other. -/
theorem feed_line_append (hwaits : s.conn.phase.waits = true) (hcalm : s.Calm) (part : Bytes)
    (more : Bytes) : feed E s (part ++ LF :: more) = feed E (feed E s (part ++ [LF])) more := by
  have hclosed : Lines.Closed LF (s.conn.rbuf ++ (part ++ [LF])) :=
    Or.inr ⟨s.conn.rbuf ++ part, by simp⟩
  cases hphase : s.conn.phase with
  | select =>
    have harrive : s.arrive (part ++ LF :: more) = (s.arrive (part ++ [LF])).extend more := by
      simp [arrive, hphase, moved, extend]
    have hcalm' : (s.arrive (part ++ [LF])).Calm := by
      simp [arrive, hphase, Calm, Phase.flushed]
    rw [feed, harrive]
    apply settle_extend hcalm'
    · simpa [arrive, hphase] using hclosed
    · simp [arrive, hphase, Phase.waits]
  | bodyRead typeName key acc =>
    have harrive : s.arrive (part ++ LF :: more) = (s.arrive (part ++ [LF])).extend more := by
      simp [arrive, hphase, moved, extend]
    have hcalm' : (s.arrive (part ++ [LF])).Calm := by
      intro _
      have hdrops := hcalm (by rw [hphase]; rfl)
      simpa [arrive, hphase] using hdrops
    rw [feed, harrive]
    apply settle_extend hcalm'
    · simpa [arrive, hphase] using hclosed
    · simp [arrive, hphase, Phase.waits]
  | gone => rw [feed_gone hphase, feed_gone hphase, feed_gone hphase]
  | _ => rw [hphase] at hwaits; cases hwaits

/-- Fed octets leave the task waiting. -/
theorem feed_waits (E : Setting) (s : Session) (chunk : Bytes) :
    (feed E s chunk).conn.phase.waits = true := settle_waits E _

/-- Fed octets keep the session calm. -/
theorem Calm.feed (hcalm : s.Calm) (hwaits : s.conn.phase.waits = true) (chunk : Bytes) :
    (s.feed E chunk).Calm := by
  apply Calm.settle
  cases hphase : s.conn.phase with
  | select => simp [arrive, hphase, Calm, Phase.flushed]
  | bodyRead typeName key acc =>
    intro _
    have hdrops := hcalm (by rw [hphase]; rfl)
    simpa [arrive, hphase] using hdrops
  | gone => simpa [arrive, hphase] using hcalm
  | _ => rw [hphase] at hwaits; cases hwaits

section Unfinished

variable {part more raw : Bytes} {typeName key : Str} {acc : BodyAcc}

/-- What octets do between commands. -/
theorem feed_select (hphase : s.conn.phase = .select) (hcalm : s.Calm) (part : Bytes) :
    feed E s part = settle E (s.moved (s.conn.rbuf ++ part) .take []) := by
  have hdrops : s.drops = ∅ := hcalm (by rw [hphase]; rfl)
  have harrive : s.arrive part = s.moved (s.conn.rbuf ++ part) .top [] := by
    simp only [arrive, hphase]
  rw [feed, harrive, settle_top (s := s.moved (s.conn.rbuf ++ part) .top []) rfl hdrops,
    moved_moved, moved_rbuf, List.append_nil]

/-- What octets do inside a body. -/
theorem feed_bodyRead (hphase : s.conn.phase = .bodyRead typeName key acc) (part : Bytes) :
    feed E s part = settle E (s.moved (s.conn.rbuf ++ part) (.body typeName key acc) []) := by
  have harrive : s.arrive part = s.moved (s.conn.rbuf ++ part) (.body typeName key acc) [] := by
    simp only [arrive, hphase]
  rw [feed, harrive]

/-- The connection that is closed because of an over-long command line. -/
def refused (s : Session) : Session := (s.moved [] (.ended .ok) [lineTooLong]).left

/-- Part of a command line within the limit is kept. -/
theorem feed_select_short (hphase : s.conn.phase = .select) (hcalm : s.Calm)
    (hline : LF ∉ s.conn.rbuf ++ part)
    (hlen : (s.conn.rbuf ++ part).length ≤ E.limits.maxCommandLineBytes) :
    feed E s part = s.moved (s.conn.rbuf ++ part) .select [] := by
  rw [feed_select hphase hcalm, settle_take_need rfl hline hlen, moved_moved, moved_rbuf,
    List.append_nil]

/-- A command line beyond the limit ends the connection before it is complete. -/
theorem feed_select_long (hphase : s.conn.phase = .select) (hcalm : s.Calm)
    (hline : LF ∉ s.conn.rbuf ++ part)
    (hlen : E.limits.maxCommandLineBytes < (s.conn.rbuf ++ part).length) :
    feed E s part = s.refused := by
  rw [feed_select hphase hcalm, settle_take_long rfl hline hlen, settle_ended rfl, moved_moved]
  rfl

/-- A complete command line beyond the limit does the same. -/
theorem feed_select_long_line (hphase : s.conn.phase = .select) (hcalm : s.Calm)
    (hbuf : s.conn.rbuf ++ part = raw ++ LF :: more) (hraw : LF ∉ raw)
    (hlen : E.limits.maxCommandLineBytes < (stripCr raw).length) :
    feed E s part = s.refused := by
  rw [feed_select hphase hcalm, settle_take_long_line rfl hbuf hraw hlen, settle_ended rfl,
    moved_moved]
  rfl

/-- Part of a body line within the limit is kept. -/
theorem feed_bodyRead_short (hphase : s.conn.phase = .bodyRead typeName key acc)
    (hline : LF ∉ s.conn.rbuf ++ part)
    (hlen : (s.conn.rbuf ++ part).length ≤ E.limits.maxBodyLineBytes) :
    feed E s part = s.moved (s.conn.rbuf ++ part) (.bodyRead typeName key acc) [] := by
  rw [feed_bodyRead hphase, settle_body_need rfl hline hlen, moved_moved, moved_rbuf,
    List.append_nil]

/-- The session of a connection that has given up a body and kept the line in the buffer. -/
def abandoned (s : Session) : Session := s.moved s.conn.rbuf .select givenUp

/-- **A body line beyond the limit is read on as a command line.** -/
theorem feed_bodyRead_long (hphase : s.conn.phase = .bodyRead typeName key acc)
    (hline : LF ∉ s.conn.rbuf ++ part)
    (hlen : E.limits.maxBodyLineBytes < (s.conn.rbuf ++ part).length) :
    feed E s part = feed E s.abandoned part := by
  rw [feed_bodyRead hphase, settle_body_long rfl hline hlen, moved_moved]
  simp [feed, arrive, abandoned, moved]

/-- The abandoned session of a waiting one is calm. -/
theorem Calm.abandoned (hcalm : s.Calm) (hphase : s.conn.phase = .bodyRead typeName key acc) :
    s.abandoned.Calm := fun _ => hcalm (by rw [hphase]; rfl)

/-- The abandoned session is at a line if the other is. -/
theorem AtLine.abandoned (h : s.AtLine) (hphase : s.conn.phase = .bodyRead typeName key acc) :
    s.abandoned.AtLine :=
  ⟨rfl, h.calm.abandoned hphase, h.empty⟩

/-- The three places at which a task waits. -/
theorem AtLine.phase_cases (h : s.AtLine) :
    s.conn.phase = .select ∨ (∃ typeName key acc, s.conn.phase = .bodyRead typeName key acc) ∨
      s.conn.phase = .gone := by
  have hwaits := h.waits
  cases hphase : s.conn.phase with
  | select => exact Or.inl rfl
  | bodyRead typeName key acc => exact Or.inr (Or.inl ⟨typeName, key, acc, rfl⟩)
  | gone => exact Or.inr (Or.inr rfl)
  | _ => rw [hphase] at hwaits; cases hwaits

/-- The pieces of an unfinished command line may be joined. -/
theorem feed_select_append (h : s.AtLine) (hphase : s.conn.phase = .select)
    (hline : LF ∉ part ++ more) : feed E (feed E s part) more = feed E s (part ++ more) := by
  have hpart : LF ∉ part := fun hmem => hline (List.mem_append_left _ hmem)
  by_cases hlen : part.length ≤ E.limits.maxCommandLineBytes
  · rw [feed_select_short hphase h.calm (by simpa [h.empty]) (by simpa [h.empty]),
      feed_select (s := s.moved (s.conn.rbuf ++ part) .select []) rfl
        (fun _ => h.calm (by rw [hphase]; rfl)), feed_select hphase h.calm]
    simp [h.empty]
  · have hlong : E.limits.maxCommandLineBytes < (part ++ more).length := by
      rw [List.length_append]
      omega
    rw [feed_select_long hphase h.calm (by simpa [h.empty]) (by simpa [h.empty] using hlen),
      feed_gone rfl,
      feed_select_long hphase h.calm (by simpa [h.empty] using hline) (by rwa [h.empty])]

/-- **The pieces of an unfinished line may be joined.** -/
theorem feed_append (h : s.AtLine) (hline : LF ∉ part ++ more) :
    feed E (feed E s part) more = feed E s (part ++ more) := by
  have hpart : LF ∉ part := fun hmem => hline (List.mem_append_left _ hmem)
  rcases h.phase_cases with hphase | ⟨typeName, key, acc, hphase⟩ | hphase
  · exact feed_select_append h hphase hline
  · by_cases hlen : part.length ≤ E.limits.maxBodyLineBytes
    · rw [feed_bodyRead_short hphase (by simpa [h.empty]) (by simpa [h.empty]),
        feed_bodyRead rfl, feed_bodyRead hphase]
      simp [h.empty]
    · have hlong : E.limits.maxBodyLineBytes < (part ++ more).length := by
        rw [List.length_append]
        omega
      rw [feed_bodyRead_long hphase (by simpa [h.empty]) (by simpa [h.empty] using hlen),
        feed_bodyRead_long hphase (by simpa [h.empty] using hline) (by rwa [h.empty])]
      exact feed_select_append (h.abandoned hphase) rfl hline
  · rw [feed_gone hphase, feed_gone hphase, feed_gone hphase]

end Unfinished

end Session

end MacroBus
