import MacroBus.Busd.Session

/-!
# What a connection holds

A task reads only where it has found no complete line within its limit, so its buffer
never holds more than one limit and one read. The two readers of the buffer have limits of
their own; what one leaves behind is taken up by the other before anything more is read.
-/

namespace MacroBus

/-- How many octets a connection may hold in this phase: a task that waits for octets holds
less than a line, any other at most one read more. -/
def Phase.room (limits : Limits) : Phase → ℕ
  | .select => limits.maxCommandLineBytes
  | .bodyRead .. => limits.maxBodyLineBytes
  | _ => max limits.maxCommandLineBytes limits.maxBodyLineBytes + READ_SIZE

/-- The lines collected are within the limit, and all of them are counted until it is
exceeded. -/
structure BodyAcc.Bounded (limits : Limits) (acc : BodyAcc) : Prop where
  /-- The lines are within the limit. -/
  lines : bodySize acc.lines ≤ limits.maxMessageBytes
  /-- They are counted. -/
  counted : acc.tooLarge = false → acc.total = bodySize acc.lines

/-- What a connection holds in its buffer and of a body. -/
structure Conn.Bounded (limits : Limits) (c : Conn) : Prop where
  /-- The buffer. -/
  buffer : c.rbuf.length ≤ c.phase.room limits
  /-- The lines of a body. -/
  lines : ∀ typeName key acc,
    c.phase = .body typeName key acc ∨ c.phase = .bodyRead typeName key acc → acc.Bounded limits

section Bodies

variable {limits : Limits} {acc : BodyAcc}

/-- No phase has more room than a task that has just read. -/
theorem Phase.room_le (limits : Limits) (phase : Phase) : phase.room limits ≤
    max limits.maxCommandLineBytes limits.maxBodyLineBytes + READ_SIZE := by
  have hcommand := le_max_left limits.maxCommandLineBytes limits.maxBodyLineBytes
  have hbody := le_max_right limits.maxCommandLineBytes limits.maxBodyLineBytes
  cases phase with
  | select | bodyRead =>
    simp only [Phase.room]
    omega
  | _ => exact le_rfl

/-- One line more in a body. -/
theorem bodySize_append_singleton (lines : List Str) (line : Str) :
    bodySize (lines ++ [line]) = bodySize lines + (line.len + 1) := by
  simp [bodySize]

/-- Nothing is collected at first. -/
theorem BodyAcc.bounded_empty (limits : Limits) : BodyAcc.Bounded limits {} :=
  ⟨by simp [bodySize], fun _ => by simp [bodySize]⟩

/-- **A body line** is kept only while all lines are within the limit. -/
theorem BodyAcc.Bounded.push (h : acc.Bounded limits) (s : Str) :
    (acc.push limits s).Bounded limits := by
  cases hlarge : (acc.push limits s).tooLarge with
  | true =>
    have hsame : (acc.push limits s).lines = acc.lines := by
      change (if (acc.push limits s).tooLarge then _ else _) = _
      rw [hlarge, if_pos rfl]
    refine ⟨hsame ▸ h.lines, fun hsmall => ?_⟩
    rw [hlarge] at hsmall
    cases hsmall
  | false =>
    have hlines : (acc.push limits s).lines = acc.lines ++ [frame.unstuffLine s] := by
      change (if (acc.push limits s).tooLarge then _ else _) = _
      rw [hlarge, if_neg Bool.false_ne_true]
    obtain ⟨hbefore, hnow⟩ := Bool.or_eq_false_iff.mp hlarge
    have hsum : (acc.push limits s).total = bodySize (acc.push limits s).lines := by
      rw [hlines, bodySize_append_singleton, ← h.counted hbefore]
      rfl
    refine ⟨?_, fun _ => hsum⟩
    rw [← hsum]
    exact not_lt.mp (of_decide_eq_false hnow)

end Bodies

section Steps

variable {limits : Limits} {fwd : Bool} {nowMs : ℕ} {wake : Conn.Wake} {c c' : Conn} {h h' : Hub}
  {done : List Effect}

/-- A task outside a body that holds what a task may hold that has just read. -/
theorem Conn.bounded_of_le
    (hroom : c.phase.room limits = max limits.maxCommandLineBytes limits.maxBodyLineBytes + READ_SIZE)
    (hbody : ∀ typeName key acc,
      c.phase = .body typeName key acc ∨ c.phase = .bodyRead typeName key acc → acc.Bounded limits)
    (hlen : c.rbuf.length ≤ max limits.maxCommandLineBytes limits.maxBodyLineBytes + READ_SIZE) :
    c.Bounded limits :=
  ⟨hroom ▸ hlen, hbody⟩

/-- **An internal step** keeps the buffer within its bound: octets only leave it, and a task
that goes on to wait has found no line and no more than its limit. -/
theorem Conn.Bounded.go (hc : c.Bounded limits)
    (hgo : Conn.go limits fwd nowMs c h = some (c', h', done)) : c'.Bounded limits := by
  have hheld := hc.buffer.trans (c.phase.room_le limits)
  cases Conn.go_goes hgo with
  | greet | noDrops | drain | flushed | notice | deliver =>
    exact bounded_of_le rfl (by simp) hheld
  | @command line rest hphase htake =>
    obtain ⟨hle, _⟩ := takeLine_length htake
    obtain ⟨_, hbuf, hnext⟩ :=
      Conn.handleCommand_conn limits fwd nowMs { c with rbuf := rest } h line
    have hlen := (congrArg List.length hbuf).le.trans (hle.trans hheld)
    rcases hnext with hnext | hnext | ⟨typeName, key, hnext⟩
    · exact bounded_of_le (by rw [hnext]; rfl) (by simp [hnext]) hlen
    · exact bounded_of_le (by rw [hnext]; rfl) (by simp [hnext]) hlen
    · refine bounded_of_le (by rw [hnext]; rfl) ?_ hlen
      rw [hnext]
      rintro _ _ _ (⟨rfl, rfl, rfl⟩ | heq)
      · exact BodyAcc.bounded_empty limits
      · cases heq
  | commandTooLong _ htake =>
    exact bounded_of_le rfl (by simp) ((takeLine_length htake).1.trans hheld)
  | commandNeed _ htake =>
    obtain ⟨rfl, _, hlen⟩ := takeLine_eq_need_iff.mp htake
    exact ⟨hlen, by simp⟩
  | terminator _ htake =>
    refine bounded_of_le ?_ ?_ ?_
    · rw [Conn.finishPublish_fst]
      rfl
    · simp [Conn.finishPublish_fst]
    · rw [Conn.finishPublish_fst]
      exact (takeLine_length htake).1.trans hheld
  | @bodyLine typeName key acc line rest hphase htake =>
    refine bounded_of_le rfl ?_ ((takeLine_length htake).1.trans hheld)
    rintro _ _ _ (⟨rfl, rfl, rfl⟩ | heq)
    · exact (hc.lines typeName key acc (Or.inl hphase)).push _
    · cases heq
  | bodyTooLong _ htake =>
    exact bounded_of_le rfl (by simp) ((takeLine_length htake).1.trans hheld)
  | @bodyNeed typeName key acc rest hphase htake =>
    obtain ⟨rfl, _, hlen⟩ := takeLine_eq_need_iff.mp htake
    refine ⟨hlen, ?_⟩
    rintro _ _ _ (heq | ⟨rfl, rfl, rfl⟩)
    · cases heq
    · exact hc.lines typeName key acc (Or.inl hphase)
  | remove => exact bounded_of_le rfl (by simp) (Nat.zero_le _)

/-- **Every step** keeps the buffer and the body within their bounds. -/
theorem Conn.Bounded.step (hc : c.Bounded limits)
    (hstep : Conn.step limits fwd nowMs wake c h = some (c', h', done)) : c'.Bounded limits := by
  have hheld := hc.buffer.trans (c.phase.room_le limits)
  have hbuffer := hc.buffer
  have hcommand := le_max_left limits.maxCommandLineBytes limits.maxBodyLineBytes
  have hbody := le_max_right limits.maxCommandLineBytes limits.maxBodyLineBytes
  cases Conn.step_steps hstep with
  | go hgo => exact hc.go hgo
  | @writeErr c₁ _ _ hgo =>
    exact bounded_of_le rfl (by simp) ((hc.go hgo).buffer.trans (c₁.phase.room_le limits))
  | read hphase _ hlen =>
    rw [hphase, Phase.room] at hbuffer
    refine bounded_of_le rfl (by simp) ?_
    rw [List.length_append]
    omega
  | @readBody _ typeName key acc hphase _ hlen =>
    rw [hphase, Phase.room] at hbuffer
    refine bounded_of_le rfl ?_ ?_
    · rintro _ _ _ (⟨rfl, rfl, rfl⟩ | heq)
      · exact hc.lines typeName key acc (Or.inr hphase)
      · cases heq
    · rw [List.length_append]
      omega
  | closed | closedBody | recv | notified => exact bounded_of_le rfl (by simp) hheld

/-- **A client cannot make its connection hold more.** Whatever octets the client sends, however
they arrive, and whatever is pushed meanwhile, the buffer of its connection never holds more
than the greater of the two limits on a line and one read, and the lines collected of a body
never exceed the limit on a message. -/
theorem buffer_bounded {id : ℕ} {io : List Conn.Io}
    (hrun : Transition.Run (Conn.task limits fwd) Transition.anyStep { id := id } c io) :
    c.rbuf.length ≤ max limits.maxCommandLineBytes limits.maxBodyLineBytes + READ_SIZE ∧
      ∀ typeName key acc,
        c.phase = .body typeName key acc ∨ c.phase = .bodyRead typeName key acc →
        bodySize acc.lines ≤ limits.maxMessageBytes := by
  have hinit : Conn.Bounded limits { id := id } := Conn.bounded_of_le rfl (by simp) (Nat.zero_le _)
  have hbounded : c.Bounded limits := by
    refine hrun.invariant (I := fun c _ => c.Bounded limits) hinit ?_
    rintro c io ⟨h, nowMs, wake⟩ c' es hc _ hs
    obtain ⟨⟨c₁, h₁, done⟩, hstep, hres⟩ := Option.map_eq_some_iff.mp hs
    obtain ⟨rfl, rfl⟩ := Prod.mk.inj hres
    exact hc.step hstep
  exact ⟨hbounded.buffer.trans (c.phase.room_le limits), fun typeName key acc hphase =>
    (hbounded.lines typeName key acc hphase).lines⟩

end Steps

/-- A hub with one registered type. -/
def keyedHub : Hub :=
  { idleHub with registry := (idleHub.registry.registerLocal "t".toList "k".toList 0).2 }

/-- Narrow limits. -/
def narrow : Limits := { maxMessageBytes := 5, maxCommandLineBytes := 32, maxBodyLineBytes := 4 }

/-- A client sends a body that is too large, and then a line that is too long. -/
def oversizeBody : List (Hub × ℕ × Conn.Wake) :=
  let go : Hub × ℕ × Conn.Wake := (keyedHub, 0, .go)
  let read (text : String) : Hub × ℕ × Conn.Wake := (keyedHub, 0, .read (Str.asBytes text.toList))
  [go, go, go, read "PUBLISH t k\r\n", go, go, go, read "abc\r\nabc\r\n", go, go, go,
    read "abcdefg", go]

/-- The connection drains the body, gives it up, and keeps the long line within the bound. -/
theorem buffer_bounded_oversize : ∃ c io,
    Transition.Run (Conn.task narrow false) Transition.anyStep { id := 1 } c io ∧
      c.phase = .top ∧ c.rbuf.length = 7 ∧
      c.rbuf.length ≤ max narrow.maxCommandLineBytes narrow.maxBodyLineBytes + READ_SIZE := by
  obtain ⟨c, io, hrun, hphase, hlen⟩ := Transition.exists_run (Conn.task narrow false)
    (fun _ _ _ => true) { id := 1 } oversizeBody
    (P := fun c _ => c.phase = .top ∧ c.rbuf.length = 7) (by decide)
  have hrun' : Transition.Run (Conn.task narrow false) Transition.anyStep { id := 1 } c io :=
    hrun.weaken fun _ _ _ _ => trivial
  exact ⟨c, io, hrun', hphase, hlen, (buffer_bounded hrun').1⟩

end MacroBus
