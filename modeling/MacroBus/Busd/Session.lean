import MacroBus.Busd.BodyFraming

/-!
# A connection between its reads

Between two socket reads the task of a connection runs by itself until it waits again.
A session is a connection with the hub it works on and the log of what its task did;
settling it performs all steps that wait for nothing. Nothing else touches the hub
meanwhile and no outbound item is pending, so reads are all that ever wakes the task.
-/

namespace MacroBus

/-- What is fixed during a session: the limits, whether the daemon forwards, and the time
each call of `register_local` reads. -/
structure Setting where
  /-- The limits of the connection. -/
  limits : Limits
  /-- Whether there is a forwarder. -/
  fwd : Bool
  /-- The time, by the number of registrations before it. -/
  clock : ℕ → ℕ

/-- A connection, the hub, and what was done so far. -/
@[ext]
structure Session where
  /-- The connection. -/
  conn : Conn
  /-- The hub. -/
  hub : Hub
  /-- Everything done so far. -/
  log : List Effect

/-- Whether an effect is a call of `register_local`. -/
def Effect.isRegister : Effect → Bool
  | .call (.registerLocal ..) => true
  | _ => false

/-- How far a phase is from the next wait, apart from the lines still buffered. -/
def Phase.rank : Phase → ℕ
  | .start | .body .. | .deliver _ => 5
  | .top => 4
  | .flush pending => 3 + pending.length
  | .take => 2
  | .ended _ => 1
  | .select | .bodyRead .. | .gone => 0

/-- Whether a task in this phase waits for the outside. -/
def Phase.waits : Phase → Bool
  | .select | .bodyRead .. | .gone => true
  | _ => false

namespace Session

/-- One step of the task. -/
def advance (E : Setting) (wake : Conn.Wake) (s : Session) : Option Session :=
  (Conn.step E.limits E.fwd (E.clock (s.log.countP Effect.isRegister)) wake s.conn s.hub).map
    fun r => ⟨r.1, r.2.1, s.log ++ r.2.2⟩

/-- The drop counters of the connection. -/
def drops (s : Session) : AList fun _ : Str => ℕ := (s.hub.chan s.conn.id).drops

/-- An upper bound on the internal steps left. -/
def weight (s : Session) : ℕ :=
  8 * s.conn.rbuf.length + 2 * s.drops.entries.length + s.conn.phase.rank

/-- At most this many internal steps. -/
def settleFor (E : Setting) : ℕ → Session → Session
  | 0, s => s
  | n + 1, s =>
    match s.advance E .go with
    | some s' => settleFor E n s'
    | none => s

/-- Run until the task waits. -/
def settle (E : Setting) (s : Session) : Session := settleFor E s.weight s

/-- A read returns, and the task runs until it waits again. A read the task does not wait
for changes nothing. -/
def read (E : Setting) (s : Session) (chunk : Bytes) : Session :=
  match s.advance E (.read chunk) with
  | some s' => settle E s'
  | none => s

/-- A connection accepted on `hub`, up to its first wait. -/
def accept (E : Setting) (id : ℕ) (hub : Hub) : Session := settle E ⟨{ id := id }, hub, []⟩

/-- Everything a connection does with a stream that arrives in these reads and then ends. -/
def serve (E : Setting) (id : ℕ) (hub : Hub) (reads : List Bytes) : List Effect :=
  (read E (reads.foldl (read E) (accept E id hub)) []).log

end Session

section Frames

/-- A tail-drop adds at most one counter. -/
theorem Chan.recordDrop_drops (c : Chan) (typeName : Str) :
    (c.recordDrop typeName).drops.entries.length ≤ c.drops.entries.length + 1 := by
  have hsub := List.kerase_sublist typeName c.drops.entries
  have hlen := hsub.length_le
  simp only [Chan.recordDrop, AList.entries_insert, List.length_cons]
  omega

/-- Being offered a message adds at most one counter. -/
theorem Chan.offer_drops (c : Chan) (msg : Message) :
    (c.offer msg).drops.entries.length ≤ c.drops.entries.length + 1 := by
  have hdrop := c.recordDrop_drops msg.typeName
  unfold Chan.offer
  split
  · simp
  · split
    · exact hdrop
    · omega

/-- A fan-out adds at most one counter to each connection. -/
theorem Hub.fanoutLocked_drops (h : Hub) (msg : Message) (id : ℕ) :
    ((h.fanoutLocked msg).chan id).drops.entries.length ≤
      (h.chan id).drops.entries.length + 1 := by
  have hoffer := (h.chan id).offer_drops msg
  unfold Hub.fanoutLocked
  split
  · omega
  · dsimp only
    split
    · exact hoffer
    · omega

/-- A local publish adds at most one counter to each connection. -/
theorem Hub.publishLocal_drops (h : Hub) (typeName key : Str) (body : List Str) (id : ℕ) :
    ((h.publishLocal typeName key body).2.chan id).drops.entries.length ≤
      (h.chan id).drops.entries.length + 1 := by
  unfold Hub.publishLocal
  split
  · simp
  · split
    · simp
    · exact Hub.fanoutLocked_drops _ _ id

/-- The end of a `PUBLISH` adds at most one counter to each connection. -/
theorem Conn.finishPublish_drops (fwd : Bool) (c : Conn) (h : Hub) (typeName key : Str)
    (body : Option (List Str)) (id : ℕ) :
    ((Conn.finishPublish fwd c h typeName key body).2.1.chan id).drops.entries.length ≤
      (h.chan id).drops.entries.length + 1 := by
  unfold Conn.finishPublish
  split
  · simp
  · next lines =>
    have hpub := h.publishLocal_drops typeName key lines id
    split
    · next heq => rwa [heq] at hpub
    · next heq => rwa [heq] at hpub

/-- What is still buffered has no part in how a `PUBLISH` ends. -/
theorem Conn.finishPublish_rbuf (fwd : Bool) (c : Conn) (h : Hub) (typeName key : Str)
    (body : Option (List Str)) (buffer : Bytes) :
    Conn.finishPublish fwd { c with rbuf := buffer } h typeName key body =
      ({ (Conn.finishPublish fwd c h typeName key body).1 with rbuf := buffer },
        (Conn.finishPublish fwd c h typeName key body).2) := by
  unfold Conn.finishPublish
  split
  · rfl
  · split <;> rfl

/-- A command touches no channel. -/
theorem Conn.handleCommand_chan (limits : Limits) (fwd : Bool) (nowMs : ℕ) (c : Conn) (h : Hub)
    (line : Bytes) : (Conn.handleCommand limits fwd nowMs c h line).2.1.chan = h.chan := by
  unfold Conn.handleCommand Conn.beginPublish
  split <;> try rfl
  · dsimp only
    split <;> rfl
  · split <;> rfl

/-- A command leaves the connection its id and its buffer, and goes on with the loop, a body,
or the end. -/
theorem Conn.handleCommand_conn (limits : Limits) (fwd : Bool) (nowMs : ℕ) (c : Conn) (h : Hub)
    (line : Bytes) :
    let c' := (Conn.handleCommand limits fwd nowMs c h line).1
    c'.id = c.id ∧ c'.rbuf = c.rbuf ∧
      (c'.phase = .top ∨ c'.phase = .ended .ok ∨ ∃ typeName key, c'.phase = .body typeName key {}) := by
  unfold Conn.handleCommand Conn.beginPublish
  split <;> try exact ⟨rfl, rfl, by simp⟩
  · dsimp only
    split <;> exact ⟨rfl, rfl, by simp⟩
  · split <;> exact ⟨rfl, rfl, by simp⟩

/-- What is still buffered has no part in a command. -/
theorem Conn.handleCommand_rbuf (limits : Limits) (fwd : Bool) (nowMs : ℕ) (c : Conn) (h : Hub)
    (line buffer : Bytes) :
    Conn.handleCommand limits fwd nowMs { c with rbuf := buffer } h line =
      ({ (Conn.handleCommand limits fwd nowMs c h line).1 with rbuf := buffer },
        (Conn.handleCommand limits fwd nowMs c h line).2) := by
  unfold Conn.handleCommand Conn.beginPublish
  split <;> try rfl
  · dsimp only
    split <;> rfl
  · split <;> rfl

/-- A line that is taken leaves less than was there. -/
theorem takeLine_length {max : ℕ} {rbuf rest : Bytes} {taken : LineTake}
    (h : takeLine max rbuf = (taken, rest)) :
    rest.length ≤ rbuf.length ∧ ∀ line, taken = .line line → rest.length < rbuf.length := by
  cases taken with
  | line line =>
    obtain ⟨raw, rfl, _⟩ := takeLine_eq_line_iff.mp h
    simp only [List.length_append, List.length_cons]
    exact ⟨by omega, fun _ _ => by omega⟩
  | need =>
    obtain ⟨rfl, _⟩ := takeLine_eq_need_iff.mp h
    exact ⟨le_rfl, fun _ hne => by cases hne⟩
  | tooLong =>
    rcases takeLine_eq_tooLong_iff.mp h with ⟨raw, rfl, _⟩ | ⟨rfl, _⟩
    · simp only [List.length_append, List.length_cons]
      exact ⟨by omega, fun _ hne => by cases hne⟩
    · exact ⟨le_rfl, fun _ hne => by cases hne⟩

/-- Every internal step brings the next wait nearer. -/
theorem Conn.go_weight {limits : Limits} {fwd : Bool} {nowMs : ℕ} {c c' : Conn} {h h' : Hub}
    {es : List Effect} (hgo : Conn.go limits fwd nowMs c h = some (c', h', es)) :
    8 * c'.rbuf.length + 2 * (h'.chan c'.id).drops.entries.length + c'.phase.rank <
      8 * c.rbuf.length + 2 * (h.chan c.id).drops.entries.length + c.phase.rank := by
  obtain ⟨id, rbuf, subs, phase⟩ := c
  unfold Conn.go at hgo
  cases phase with
  | start =>
    simp only [Option.some.injEq, Prod.mk.injEq] at hgo
    obtain ⟨rfl, rfl, rfl⟩ := hgo
    simp [Phase.rank]
  | top =>
    dsimp only at hgo
    split at hgo
    · simp only [Option.some.injEq, Prod.mk.injEq] at hgo
      obtain ⟨rfl, rfl, rfl⟩ := hgo
      simp [Phase.rank]
    · next hne =>
      simp only [Option.some.injEq, Prod.mk.injEq] at hgo
      obtain ⟨rfl, rfl, rfl⟩ := hgo
      have hpos : 0 < (h.chan id).drops.entries.length := List.length_pos_of_ne_nil hne
      simp only [Function.update_self, AList.empty_entries, List.length_nil, List.length_map,
        Phase.rank]
      omega
  | flush pending =>
    cases pending with
    | nil =>
      simp only [Option.some.injEq, Prod.mk.injEq] at hgo
      obtain ⟨rfl, rfl, rfl⟩ := hgo
      simp [Phase.rank]
    | cons notice pending =>
      simp only [Option.some.injEq, Prod.mk.injEq] at hgo
      obtain ⟨rfl, rfl, rfl⟩ := hgo
      simp [Phase.rank]
  | take =>
    dsimp only at hgo
    rcases htake : takeLine limits.maxCommandLineBytes rbuf with ⟨taken, rest⟩
    obtain ⟨hle, hlt⟩ := takeLine_length htake
    rw [htake] at hgo
    cases taken with
    | line line =>
      simp only [Option.some.injEq, Prod.mk.injEq] at hgo
      obtain ⟨rfl, rfl, rfl⟩ := hgo
      obtain ⟨hid, hbuf, hnext⟩ :=
        Conn.handleCommand_conn limits fwd nowMs (⟨id, rest, subs, .take⟩ : Conn) h line
      have hchan := Conn.handleCommand_chan limits fwd nowMs (⟨id, rest, subs, .take⟩ : Conn) h line
      have hrank : (Conn.handleCommand limits fwd nowMs (⟨id, rest, subs, .take⟩ : Conn) h line).1.phase.rank
          ≤ 5 := by
        rcases hnext with hnext | hnext | ⟨_, _, hnext⟩ <;> simp [hnext, Phase.rank]
      have := hlt line rfl
      rw [hid, hbuf, hchan]
      change _ < 8 * rbuf.length + 2 * (h.chan id).drops.entries.length + 2
      dsimp only
      omega
    | need =>
      simp only [Option.some.injEq, Prod.mk.injEq] at hgo
      obtain ⟨rfl, rfl, rfl⟩ := hgo
      simp only [Phase.rank]
      omega
    | tooLong =>
      simp only [Option.some.injEq, Prod.mk.injEq] at hgo
      obtain ⟨rfl, rfl, rfl⟩ := hgo
      simp only [Phase.rank]
      omega
  | deliver out =>
    simp only [Option.some.injEq, Prod.mk.injEq] at hgo
    obtain ⟨rfl, rfl, rfl⟩ := hgo
    simp [Phase.rank]
  | body typeName key acc =>
    dsimp only at hgo
    rcases htake : takeLine limits.maxBodyLineBytes rbuf with ⟨taken, rest⟩
    obtain ⟨hle, hlt⟩ := takeLine_length htake
    rw [htake] at hgo
    cases taken with
    | line line =>
      have := hlt line rfl
      dsimp only at hgo
      split at hgo
      · have hdrops := Conn.finishPublish_drops fwd (⟨id, rest, subs, .body typeName key acc⟩ : Conn) h typeName key
          acc.result id
        simp only [Option.some.injEq, Prod.mk.injEq, Conn.finishPublish_fst] at hgo
        obtain ⟨rfl, hhub, rfl⟩ := hgo
        rw [hhub] at hdrops
        dsimp only [Phase.rank]
        omega
      · simp only [Option.some.injEq, Prod.mk.injEq] at hgo
        obtain ⟨rfl, rfl, rfl⟩ := hgo
        simp only [Phase.rank]
        omega
    | need =>
      simp only [Option.some.injEq, Prod.mk.injEq] at hgo
      obtain ⟨rfl, rfl, rfl⟩ := hgo
      simp only [Phase.rank]
      omega
    | tooLong =>
      simp only [Conn.finishPublish, Option.some.injEq, Prod.mk.injEq] at hgo
      obtain ⟨rfl, rfl, rfl⟩ := hgo
      simp only [Phase.rank]
      omega
  | ended exit =>
    simp only [Option.some.injEq, Prod.mk.injEq] at hgo
    obtain ⟨rfl, rfl, rfl⟩ := hgo
    simp only [Function.update_self, List.length_nil, Phase.rank]
    omega
  | select => simp at hgo
  | bodyRead typeName key acc => simp at hgo
  | gone => simp at hgo

section Phases

variable {limits : Limits} {fwd : Bool} {nowMs : ℕ} {c : Conn} {h : Hub}

/-- What happens at the head of the loop. -/
theorem Conn.go_top (hphase : c.phase = .top) :
    Conn.go limits fwd nowMs c h =
      match (h.chan c.id).drops.entries with
      | [] => some ({ c with phase := .take }, h, [])
      | entries =>
        some ({ c with phase := .flush (entries.map fun e => (e.1, e.2)) },
          { h with chan := Function.update h.chan c.id { h.chan c.id with drops := ∅ } }, []) := by
  obtain ⟨id, rbuf, subs, phase⟩ := c
  cases hphase
  rfl

/-- What happens between commands. -/
theorem Conn.go_take (hphase : c.phase = .take) :
    Conn.go limits fwd nowMs c h =
      match takeLine limits.maxCommandLineBytes c.rbuf with
      | (.line line, rest) =>
        let r := Conn.handleCommand limits fwd nowMs { c with rbuf := rest } h line
        some (r.1, r.2.1, .command line :: r.2.2)
      | (.tooLong, rest) =>
        some ({ c with rbuf := rest, phase := .ended .ok }, h,
          [writeLine status.SYNTAX "command line too long".toList])
      | (.need, rest) => some ({ c with rbuf := rest, phase := .select }, h, []) := by
  obtain ⟨id, rbuf, subs, phase⟩ := c
  cases hphase
  rfl

/-- What happens inside a body. -/
theorem Conn.go_body {typeName key : Str} {acc : BodyAcc}
    (hphase : c.phase = .body typeName key acc) :
    Conn.go limits fwd nowMs c h =
      match takeLine limits.maxBodyLineBytes c.rbuf with
      | (.line line, rest) =>
        if fromUtf8Lossy line = frame.TERMINATOR then
          let r := Conn.finishPublish fwd { c with rbuf := rest } h typeName key acc.result
          some (r.1, r.2.1, .bodyLine line :: r.2.2)
        else
          some ({ c with rbuf := rest, phase := .body typeName key (acc.push limits (fromUtf8Lossy line)) },
            h, [.bodyLine line])
      | (.tooLong, rest) =>
        some ({ c with rbuf := rest, phase := .top }, h,
          [.giveUp (c.rbuf.take (c.rbuf.length - rest.length)),
            writeLine status.TOO_LARGE "message too large".toList])
      | (.need, rest) => some ({ c with rbuf := rest, phase := .bodyRead typeName key acc }, h, []) := by
  obtain ⟨id, rbuf, subs, phase⟩ := c
  cases hphase
  rfl

end Phases

/-- What an internal step of a task can do, by where the task stands. -/
inductive Conn.Goes (limits : Limits) (fwd : Bool) (nowMs : ℕ) (c : Conn) (h : Hub) :
    Conn → Hub → List Effect → Prop
  /-- The client is greeted. -/
  | greet : c.phase = .start →
      Goes limits fwd nowMs c h { c with phase := .top } h
        [.wrote (greeting h.registry.daemonId ++ frame.CRLF)]
  /-- There are no drops to report. -/
  | noDrops : c.phase = .top → (h.chan c.id).drops.entries = [] →
      Goes limits fwd nowMs c h { c with phase := .take } h []
  /-- The drop counters are drained. -/
  | drain : c.phase = .top → (h.chan c.id).drops.entries ≠ [] →
      Goes limits fwd nowMs c h
        { c with phase := .flush ((h.chan c.id).drops.entries.map fun e => (e.1, e.2)) }
        { h with chan := Function.update h.chan c.id { h.chan c.id with drops := ∅ } } []
  /-- All drops are reported. -/
  | flushed : c.phase = .flush [] → Goes limits fwd nowMs c h { c with phase := .take } h []
  /-- Drops of one type are reported. -/
  | notice {typeName : Str} {count : ℕ} {pending : List (Str × ℕ)} :
      c.phase = .flush ((typeName, count) :: pending) →
      Goes limits fwd nowMs c h { c with phase := .flush pending } h
        [writeLine status.DROP ("DROP ".toList ++ typeName ++ ' ' :: decimal count)]
  /-- A command is performed. -/
  | command {line rest : Bytes} : c.phase = .take →
      takeLine limits.maxCommandLineBytes c.rbuf = (.line line, rest) →
      Goes limits fwd nowMs c h
        (Conn.handleCommand limits fwd nowMs { c with rbuf := rest } h line).1
        (Conn.handleCommand limits fwd nowMs { c with rbuf := rest } h line).2.1
        (.command line :: (Conn.handleCommand limits fwd nowMs { c with rbuf := rest } h line).2.2)
  /-- A command line is too long. -/
  | commandTooLong {rest : Bytes} : c.phase = .take →
      takeLine limits.maxCommandLineBytes c.rbuf = (.tooLong, rest) →
      Goes limits fwd nowMs c h { c with rbuf := rest, phase := .ended .ok } h
        [writeLine status.SYNTAX "command line too long".toList]
  /-- No command line is complete. -/
  | commandNeed {rest : Bytes} : c.phase = .take →
      takeLine limits.maxCommandLineBytes c.rbuf = (.need, rest) →
      Goes limits fwd nowMs c h { c with rbuf := rest, phase := .select } h []
  /-- An item of the queue is written. -/
  | deliver {out : Outbound} : c.phase = .deliver out →
      Goes limits fwd nowMs c h { c with phase := .top } h [writeOutbound out]
  /-- A body ends. -/
  | terminator {typeName key : Str} {acc : BodyAcc} {line rest : Bytes} :
      c.phase = .body typeName key acc →
      takeLine limits.maxBodyLineBytes c.rbuf = (.line line, rest) →
      fromUtf8Lossy line = frame.TERMINATOR →
      Goes limits fwd nowMs c h
        (Conn.finishPublish fwd { c with rbuf := rest } h typeName key acc.result).1
        (Conn.finishPublish fwd { c with rbuf := rest } h typeName key acc.result).2.1
        (.bodyLine line ::
          (Conn.finishPublish fwd { c with rbuf := rest } h typeName key acc.result).2.2)
  /-- A line of a body is read. -/
  | bodyLine {typeName key : Str} {acc : BodyAcc} {line rest : Bytes} :
      c.phase = .body typeName key acc →
      takeLine limits.maxBodyLineBytes c.rbuf = (.line line, rest) →
      fromUtf8Lossy line ≠ frame.TERMINATOR →
      Goes limits fwd nowMs c h
        { c with
          rbuf := rest
          phase := .body typeName key (acc.push limits (fromUtf8Lossy line)) } h [.bodyLine line]
  /-- A line of a body is too long. -/
  | bodyTooLong {typeName key : Str} {acc : BodyAcc} {rest : Bytes} :
      c.phase = .body typeName key acc →
      takeLine limits.maxBodyLineBytes c.rbuf = (.tooLong, rest) →
      Goes limits fwd nowMs c h { c with rbuf := rest, phase := .top } h
        [.giveUp (c.rbuf.take (c.rbuf.length - rest.length)),
          writeLine status.TOO_LARGE "message too large".toList]
  /-- No line of a body is complete. -/
  | bodyNeed {typeName key : Str} {acc : BodyAcc} {rest : Bytes} :
      c.phase = .body typeName key acc →
      takeLine limits.maxBodyLineBytes c.rbuf = (.need, rest) →
      Goes limits fwd nowMs c h { c with rbuf := rest, phase := .bodyRead typeName key acc } h []
  /-- The connection is removed. -/
  | remove {exit : Exit} : c.phase = .ended exit →
      Goes limits fwd nowMs c h { c with rbuf := [], mySubs := [], phase := .gone }
        { h with
          registry := h.registry.removeConn c.id c.mySubs
          chan := Function.update h.chan c.id { h.chan c.id with isOpen := false } }
        [.call (.removeConn c.mySubs)]

/-- **What an internal step can do.** -/
theorem Conn.go_goes {limits : Limits} {fwd : Bool} {nowMs : ℕ} {c c' : Conn} {h h' : Hub}
    {done : List Effect} (hgo : Conn.go limits fwd nowMs c h = some (c', h', done)) :
    Conn.Goes limits fwd nowMs c h c' h' done := by
  cases hphase : c.phase with
  | start =>
    simp only [Conn.go, hphase, Option.some.injEq, Prod.mk.injEq] at hgo
    obtain ⟨rfl, rfl, rfl⟩ := hgo
    exact .greet hphase
  | top =>
    rw [Conn.go_top hphase] at hgo
    split at hgo
    · next hnone =>
      obtain ⟨rfl, rfl, rfl⟩ := by simpa only [Option.some.injEq, Prod.mk.injEq] using hgo
      exact .noDrops hphase hnone
    · next hsome =>
      obtain ⟨rfl, rfl, rfl⟩ := by simpa only [Option.some.injEq, Prod.mk.injEq] using hgo
      exact .drain hphase hsome
  | flush pending =>
    cases pending with
    | nil =>
      simp only [Conn.go, hphase, Option.some.injEq, Prod.mk.injEq] at hgo
      obtain ⟨rfl, rfl, rfl⟩ := hgo
      exact .flushed hphase
    | cons notice pending =>
      simp only [Conn.go, hphase, Option.some.injEq, Prod.mk.injEq] at hgo
      obtain ⟨rfl, rfl, rfl⟩ := hgo
      exact .notice hphase
  | take =>
    rw [Conn.go_take hphase] at hgo
    split at hgo
    · next line rest htake =>
      obtain ⟨rfl, rfl, rfl⟩ := by simpa only [Option.some.injEq, Prod.mk.injEq] using hgo
      exact .command hphase htake
    · next rest htake =>
      obtain ⟨rfl, rfl, rfl⟩ := by simpa only [Option.some.injEq, Prod.mk.injEq] using hgo
      exact .commandTooLong hphase htake
    · next rest htake =>
      obtain ⟨rfl, rfl, rfl⟩ := by simpa only [Option.some.injEq, Prod.mk.injEq] using hgo
      exact .commandNeed hphase htake
  | deliver out =>
    simp only [Conn.go, hphase, Option.some.injEq, Prod.mk.injEq] at hgo
    obtain ⟨rfl, rfl, rfl⟩ := hgo
    exact .deliver hphase
  | body typeName key acc =>
    rw [Conn.go_body hphase] at hgo
    split at hgo
    · next line rest htake =>
      split at hgo
      · next hline =>
        obtain ⟨rfl, rfl, rfl⟩ := by simpa only [Option.some.injEq, Prod.mk.injEq] using hgo
        exact .terminator hphase htake hline
      · next hline =>
        obtain ⟨rfl, rfl, rfl⟩ := by simpa only [Option.some.injEq, Prod.mk.injEq] using hgo
        exact .bodyLine hphase htake hline
    · next rest htake =>
      obtain ⟨rfl, rfl, rfl⟩ := by simpa only [Option.some.injEq, Prod.mk.injEq] using hgo
      exact .bodyTooLong hphase htake
    · next rest htake =>
      obtain ⟨rfl, rfl, rfl⟩ := by simpa only [Option.some.injEq, Prod.mk.injEq] using hgo
      exact .bodyNeed hphase htake
  | ended exit =>
    simp only [Conn.go, hphase, Option.some.injEq, Prod.mk.injEq] at hgo
    obtain ⟨rfl, rfl, rfl⟩ := hgo
    exact .remove hphase
  | select | bodyRead | gone => simp [Conn.go, hphase] at hgo

/-- What a step of a task can do, by what woke it. -/
inductive Conn.Steps (limits : Limits) (fwd : Bool) (nowMs : ℕ) (c : Conn) (h : Hub) :
    Conn.Wake → Conn → Hub → List Effect → Prop
  /-- It goes on. -/
  | go {c' : Conn} {h' : Hub} {done : List Effect} :
      Conn.go limits fwd nowMs c h = some (c', h', done) → Steps limits fwd nowMs c h .go c' h' done
  /-- The first write of an internal step fails. -/
  | writeErr {c' : Conn} {h' : Hub} {done : List Effect} :
      Conn.go limits fwd nowMs c h = some (c', h', done) → done.any Conn.isWrite = true →
      Steps limits fwd nowMs c h .writeErr { c' with phase := .ended .io } h'
        (done.takeWhile fun e => !Conn.isWrite e)
  /-- More octets, between two commands. -/
  | read {chunk : Bytes} : c.phase = .select → chunk ≠ [] → chunk.length ≤ READ_SIZE →
      Steps limits fwd nowMs c h (.read chunk) { c with rbuf := c.rbuf ++ chunk, phase := .top } h []
  /-- More octets of a body. -/
  | readBody {chunk : Bytes} {typeName key : Str} {acc : BodyAcc} :
      c.phase = .bodyRead typeName key acc → chunk ≠ [] → chunk.length ≤ READ_SIZE →
      Steps limits fwd nowMs c h (.read chunk)
        { c with rbuf := c.rbuf ++ chunk, phase := .body typeName key acc } h []
  /-- The stream ends between two commands, or cannot be read. -/
  | closed {wake : Conn.Wake} {exit : Exit} : c.phase = .select →
      wake = .read [] ∧ exit = .ok ∨ wake = .readErr ∧ exit = .io →
      Steps limits fwd nowMs c h wake { c with phase := .ended exit } h []
  /-- The stream ends inside a body, or cannot be read. -/
  | closedBody {wake : Conn.Wake} {typeName key : Str} {acc : BodyAcc} :
      c.phase = .bodyRead typeName key acc → wake = .read [] ∨ wake = .readErr →
      Steps limits fwd nowMs c h wake { c with phase := .ended .midBody } h []
  /-- The outbound queue yields an item. -/
  | recv {out : Outbound} {queue : List Outbound} : c.phase = .select →
      (h.chan c.id).queue = out :: queue →
      Steps limits fwd nowMs c h .recv { c with phase := .deliver out }
        { h with chan := Function.update h.chan c.id { h.chan c.id with queue := queue } } []
  /-- The drop notification fires. -/
  | notified : c.phase = .select → (h.chan c.id).permit = true →
      Steps limits fwd nowMs c h .notified { c with phase := .top }
        { h with chan := Function.update h.chan c.id { h.chan c.id with permit := false } } []

/-- **What a step can do.** -/
theorem Conn.step_steps {limits : Limits} {fwd : Bool} {nowMs : ℕ} {wake : Conn.Wake} {c c' : Conn}
    {h h' : Hub} {done : List Effect}
    (hstep : Conn.step limits fwd nowMs wake c h = some (c', h', done)) :
    Conn.Steps limits fwd nowMs c h wake c' h' done := by
  cases wake with
  | go => exact .go hstep
  | read chunk =>
    cases hphase : c.phase with
    | select =>
      simp only [Conn.step, hphase] at hstep
      split at hstep
      · cases hstep
      · next hlen =>
        split at hstep
        · next hnil =>
          obtain ⟨rfl, rfl, rfl⟩ := by simpa only [Option.some.injEq, Prod.mk.injEq] using hstep
          exact .closed hphase (Or.inl ⟨congrArg _ hnil, rfl⟩)
        · next hne =>
          obtain ⟨rfl, rfl, rfl⟩ := by simpa only [Option.some.injEq, Prod.mk.injEq] using hstep
          exact .read hphase hne (Nat.le_of_not_gt hlen)
    | bodyRead typeName key acc =>
      simp only [Conn.step, hphase] at hstep
      split at hstep
      · cases hstep
      · next hlen =>
        split at hstep
        · next hnil =>
          obtain ⟨rfl, rfl, rfl⟩ := by simpa only [Option.some.injEq, Prod.mk.injEq] using hstep
          exact .closedBody hphase (Or.inl (congrArg _ hnil))
        · next hne =>
          obtain ⟨rfl, rfl, rfl⟩ := by simpa only [Option.some.injEq, Prod.mk.injEq] using hstep
          exact .readBody hphase hne (Nat.le_of_not_gt hlen)
    | _ => simp [Conn.step, hphase] at hstep
  | readErr =>
    cases hphase : c.phase with
    | select =>
      obtain ⟨rfl, rfl, rfl⟩ := by simpa only [Conn.step, hphase, Option.some.injEq,
        Prod.mk.injEq] using hstep
      exact .closed hphase (Or.inr ⟨rfl, rfl⟩)
    | bodyRead typeName key acc =>
      obtain ⟨rfl, rfl, rfl⟩ := by simpa only [Conn.step, hphase, Option.some.injEq,
        Prod.mk.injEq] using hstep
      exact .closedBody hphase (Or.inr rfl)
    | _ => simp [Conn.step, hphase] at hstep
  | recv =>
    cases hphase : c.phase with
    | select =>
      simp only [Conn.step, hphase] at hstep
      split at hstep
      · cases hstep
      · next out queue hqueue =>
        obtain ⟨rfl, rfl, rfl⟩ := by simpa only [Option.some.injEq, Prod.mk.injEq] using hstep
        exact .recv hphase hqueue
    | _ => simp [Conn.step, hphase] at hstep
  | notified =>
    cases hphase : c.phase with
    | select =>
      simp only [Conn.step, hphase] at hstep
      split at hstep
      · next hpermit =>
        obtain ⟨rfl, rfl, rfl⟩ := by simpa only [Option.some.injEq, Prod.mk.injEq] using hstep
        exact .notified hphase hpermit
      · cases hstep
    | _ => simp [Conn.step, hphase] at hstep
  | writeErr =>
    simp only [Conn.step] at hstep
    split at hstep
    · next c₁ h₁ done₁ hgo =>
      split at hstep
      · next hwrites =>
        obtain ⟨rfl, rfl, rfl⟩ := by simpa only [Option.some.injEq, Prod.mk.injEq] using hstep
        exact .writeErr hgo hwrites
      · cases hstep
    · cases hstep

/-- An internal step is possible exactly where the task does not wait. -/
theorem Conn.go_eq_none_iff {limits : Limits} {fwd : Bool} {nowMs : ℕ} {c : Conn} {h : Hub} :
    Conn.go limits fwd nowMs c h = none ↔ c.phase.waits = true := by
  obtain ⟨id, rbuf, subs, phase⟩ := c
  unfold Conn.go
  cases phase with
  | top =>
    dsimp only
    split <;> simp [Phase.waits]
  | flush pending => cases pending <;> simp [Phase.waits]
  | take =>
    dsimp only
    split <;> simp [Phase.waits]
  | body typeName key acc =>
    dsimp only
    split
    · split <;> simp [Phase.waits]
    · simp [Phase.waits]
    · simp [Phase.waits]
  | _ => simp [Phase.waits]

end Frames

namespace Session

variable {E : Setting} {s s' : Session}

/-- An internal step of a session is one of its task. -/
theorem advance_go_eq_some_iff :
    s.advance E .go = some s' ↔
      ∃ c h es, Conn.go E.limits E.fwd (E.clock (s.log.countP Effect.isRegister)) s.conn s.hub =
        some (c, h, es) ∧ s' = ⟨c, h, s.log ++ es⟩ := by
  unfold advance Conn.step
  rw [Option.map_eq_some_iff]
  constructor
  · rintro ⟨⟨c, h, es⟩, hgo, rfl⟩
    exact ⟨c, h, es, hgo, rfl⟩
  · rintro ⟨c, h, es, hgo, rfl⟩
    exact ⟨(c, h, es), hgo, rfl⟩

/-- A session takes internal steps until its task waits. -/
theorem advance_go_eq_none_iff : s.advance E .go = none ↔ s.conn.phase.waits = true := by
  unfold advance Conn.step
  rw [Option.map_eq_none_iff]
  exact Conn.go_eq_none_iff

/-- Every internal step lowers the weight. -/
theorem advance_weight (h : s.advance E .go = some s') : s'.weight < s.weight := by
  obtain ⟨c, hub, es, hgo, rfl⟩ := advance_go_eq_some_iff.mp h
  exact Conn.go_weight hgo

/-- Enough steps are enough. -/
theorem settleFor_eq {n m : ℕ} (hn : s.weight ≤ n) (hm : s.weight ≤ m) :
    settleFor E n s = settleFor E m s := by
  induction n generalizing m s with
  | zero =>
    have hnone : s.advance E .go = none := by
      by_contra hne
      obtain ⟨s', hs'⟩ := Option.ne_none_iff_exists'.mp hne
      have := advance_weight hs'
      omega
    cases m with
    | zero => rfl
    | succ m => simp only [settleFor, hnone]
  | succ n ih =>
    cases hadv : s.advance E .go with
    | none => cases m <;> simp only [settleFor, hadv]
    | some s' =>
      have hlt := advance_weight hadv
      cases m with
      | zero => omega
      | succ m =>
        simp only [settleFor, hadv]
        apply ih <;> omega

/-- Settling after an internal step. -/
theorem settle_of_advance (h : s.advance E .go = some s') : settle E s = settle E s' := by
  have hlt := advance_weight h
  obtain ⟨n, hn⟩ : ∃ n, s.weight = n + 1 := ⟨s.weight - 1, by omega⟩
  unfold settle
  rw [hn]
  simp only [settleFor, h]
  apply settleFor_eq <;> omega

/-- A waiting task is settled. -/
theorem settle_of_waits (h : s.conn.phase.waits = true) : settle E s = s := by
  have hnone := (advance_go_eq_none_iff (E := E)).mpr h
  unfold settle
  cases s.weight <;> simp only [settleFor, hnone]

/-- What holds at the start of settling and is kept by internal steps holds of the settled
session, which waits. -/
theorem settle_induction {P : Session → Prop} (hstart : P s)
    (hstep : ∀ t t', P t → t.advance E .go = some t' → P t') :
    P (settle E s) ∧ (settle E s).conn.phase.waits = true := by
  induction hw : s.weight using Nat.strong_induction_on generalizing s with
  | _ n ih =>
    cases hadv : s.advance E .go with
    | none =>
      have hwait := advance_go_eq_none_iff.mp hadv
      rw [settle_of_waits hwait]
      exact ⟨hstart, hwait⟩
    | some s' =>
      rw [settle_of_advance hadv]
      exact ih s'.weight (hw ▸ advance_weight hadv) (hstep s s' hstart hadv) rfl

/-- A settled session waits. -/
theorem settle_waits (E : Setting) (s : Session) : (settle E s).conn.phase.waits = true :=
  (settle_induction (P := fun _ => True) trivial fun _ _ _ _ => trivial).2

/-- Settling only adds to the log. -/
theorem log_prefix_settle (E : Setting) (s : Session) : s.log <+: (settle E s).log := by
  refine (settle_induction (P := fun t => s.log <+: t.log) (List.prefix_refl _) ?_).1
  intro t t' ht hadv
  obtain ⟨c, h, es, _, rfl⟩ := advance_go_eq_some_iff.mp hadv
  exact ht.trans (List.prefix_append _ _)

/-- A read only adds to the log. -/
theorem log_prefix_read (E : Setting) (s : Session) (chunk : Bytes) :
    s.log <+: (read E s chunk).log := by
  unfold read
  split
  · next s' hadv =>
    refine List.IsPrefix.trans ?_ (log_prefix_settle E s')
    unfold advance at hadv
    obtain ⟨r, _, rfl⟩ := Option.map_eq_some_iff.mp hadv
    exact List.prefix_append _ _
  · exact List.prefix_refl _

end Session

end MacroBus
