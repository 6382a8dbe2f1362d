import MacroBus.Busd.FanOut

/-!
# The sequence number wraps

A daemon whose counter has gone round gives its next message a smaller number than the
first one. A subscriber that has not yet read the first message is queued both.
-/

namespace MacroBus

namespace Daemon

section Rounds

variable {limits : Limits} {fwd : Bool} {start d : Daemon} {past : List Event} {id nowMs : ℕ}
  {wake : Conn.Wake} {c c' : Conn} {h' : Hub} {done : List Effect} {typeName key : Str}

/-- The messages of this daemon in a queue add up. -/
theorem ownQueuedTo_append (past es : List Event) (id : ℕ) :
    ownQueuedTo (past ++ es) id = ownQueuedTo past id ++ ownQueuedTo (moves es) id := by
  unfold ownQueuedTo
  rw [List.filterMap_append, filterMap_moves _ es]
  intro e he
  cases e with
  | fannedOut publisher => cases he
  | _ => rfl

/-- A run goes on with a step of a task. -/
theorem run_task (hrun : Transition.Run (Daemon.step limits fwd) Transition.anyStep start d past)
    (hconn : d.conn id = some c)
    (hstep : Conn.step limits fwd nowMs wake c d.hub = some (c', h', done)) :
    ∃ past', Transition.Run (Daemon.step limits fwd) Transition.anyStep start
        ⟨h', Function.update d.conn id (some c')⟩ past' ∧
      ∀ i, ownQueuedTo past' i = ownQueuedTo past i ++ ownQueuedTo (taken d.hub id wake ++
        (calls done).flatMap fun made => fanned d.hub id (.call made)) i := by
  refine ⟨_, .step hrun trivial (step_task_eq_some_iff.mpr
    ⟨c, c', h', done, hconn, hstep, rfl, rfl⟩), fun i => ?_⟩
  rw [ownQueuedTo_append, moves_task]

/-- A connection that waits for its next command, with nothing in its buffer. -/
def waiting (id : ℕ) : Conn := { id := id, phase := .select }

/-- The octets are a `PUBLISH` with an empty body. -/
structure Publishes (limits : Limits) (chunk : Bytes) (typeName key : Str) : Prop where
  /-- They arrive in one read. -/
  short : chunk ≠ [] ∧ chunk.length ≤ READ_SIZE
  /-- The first line is the command. -/
  command : ∃ line rest dot, takeLine limits.maxCommandLineBytes chunk = (.line line, rest) ∧
    command.parse (fromUtf8Lossy line) = .ok (.publish typeName key) ∧
    takeLine limits.maxBodyLineBytes rest = (.line dot, []) ∧
    fromUtf8Lossy dot = frame.TERMINATOR

section Steps

variable {h hub : Hub} {chunk line rest dot : Bytes} {msg : Message}
variable (limits fwd id)

/-- A connection that waits reads. -/
theorem step_waiting (hne : chunk ≠ []) (hlen : chunk.length ≤ READ_SIZE) :
    Conn.step limits fwd 0 (.read chunk) (waiting id) h =
      some ({ id := id, rbuf := chunk, phase := .top }, h, []) := by
  simp [Conn.step, waiting, Nat.not_lt.mpr hlen, hne]

/-- At the top, a connection without drops has nothing to report. -/
theorem step_top {rbuf : Bytes} (hdrops : (h.chan id).drops.entries = []) :
    Conn.step limits fwd 0 .go { id := id, rbuf := rbuf, phase := .top } h =
      some ({ id := id, rbuf := rbuf, phase := .take }, h, []) := by
  simp [Conn.step, Conn.go, hdrops]

/-- A connection with nothing buffered goes on to wait. -/
theorem step_take_need : Conn.step limits fwd 0 .go { id := id, phase := .take } h =
    some (waiting id, h, []) := by
  simp [Conn.step, Conn.go, takeLine, Lines.cut, waiting]

variable {limits}

/-- A connection starts a publish. -/
theorem step_publish {held : TypeReg}
    (htake : takeLine limits.maxCommandLineBytes chunk = (.line line, rest))
    (hparse : command.parse (fromUtf8Lossy line) = .ok (.publish typeName key))
    (hheld : h.registry.types.lookup typeName = some held) (hkey : held.key = key) :
    ∃ done, Conn.step limits fwd 0 .go { id := id, rbuf := chunk, phase := .take } h =
        some ({ id := id, rbuf := rest, phase := .body typeName key {} }, h, done) ∧
      calls done = [.publishPrecheck typeName key] := by
  have hgo : Conn.step limits fwd 0 .go { id := id, rbuf := chunk, phase := .take } h =
      some ({ id := id, rbuf := rest, phase := .body typeName key {} }, h,
        [.command line, .call (.publishPrecheck typeName key),
          writeLine status.START_BODY "enter message body; end with <CRLF>.<CRLF>".toList]) := by
    simp only [Conn.step, Conn.go, htake, Conn.handleCommand, hparse, Conn.beginPublish,
      Registry.publishPrecheck, hheld, hkey, ne_eq, not_true_eq_false, if_false]
  exact ⟨_, hgo, rfl⟩

/-- A connection ends a publish at the lone dot. -/
theorem step_body (hbody : takeLine limits.maxBodyLineBytes rest = (.line dot, []))
    (hdot : fromUtf8Lossy dot = frame.TERMINATOR)
    (hpublish : h.publishLocal typeName key [] = (.ok msg, hub)) :
    ∃ done, Conn.step limits fwd 0 .go
        { id := id, rbuf := rest, phase := .body typeName key {} } h =
        some ({ id := id, phase := .top }, hub, done) ∧
      calls done = [.publishLocal typeName key []] := by
  have hgo : Conn.step limits fwd 0 .go
      { id := id, rbuf := rest, phase := .body typeName key {} } h =
      some ({ id := id, phase := .top }, hub, .bodyLine dot ::
        .call (.publishLocal typeName key []) ::
          ((if fwd then [Effect.forwardLocal msg] else []) ++
            [writeLine status.ACCEPTED "message accepted".toList])) := by
    simp only [Conn.step, Conn.go, hbody, hdot, if_true, Conn.finishPublish, BodyAcc.result,
      Bool.false_eq_true, if_false, hpublish]
  refine ⟨_, hgo, ?_⟩
  cases fwd <;> rfl

end Steps

/-- A connection publishes and waits again. -/
theorem publish_round {chunk : Bytes} (hchunk : Publishes limits chunk typeName key)
    (hrun : Transition.Run (Daemon.step limits fwd) Transition.anyStep start d past)
    (hconn : d.conn id = some (waiting id))
    (hheld : ∃ held, d.hub.registry.types.lookup typeName = some held ∧ held.key = key)
    (hstranger : id ∉ d.hub.registry.subscribers typeName)
    (hdrops : (d.hub.chan id).drops.entries = []) :
    let msg : Message := ⟨typeName, d.hub.registry.msgId, d.hub.registry.daemonId, []⟩
    ∃ d' past', Transition.Run (Daemon.step limits fwd) Transition.anyStep start d' past' ∧
      d'.conn id = some (waiting id) ∧
      d'.hub = Hub.fanoutLocked { d.hub with registry := { d.hub.registry with
        seq := (d.hub.registry.seq + 1) % u64Values
        seen := (d.hub.registry.seen.insert d.hub.registry.msgId).2 } } msg ∧
      ∀ i, ownQueuedTo past' i =
        ownQueuedTo past i ++ if i ∈ d.hub.recipients msg then [msg] else [] := by
  intro msg
  obtain ⟨⟨hne, hlen⟩, line, rest, dot, htake, hparse, hbody, hdot⟩ := hchunk
  obtain ⟨held, hlookup, hkey⟩ := hheld
  obtain ⟨hub, hhub⟩ : ∃ hub, hub = Hub.fanoutLocked { d.hub with
      registry := { d.hub.registry with
        seq := (d.hub.registry.seq + 1) % u64Values
        seen := (d.hub.registry.seen.insert d.hub.registry.msgId).2 } } msg := ⟨_, rfl⟩
  have hpublish : d.hub.publishLocal typeName key [] = (.ok msg, hub) :=
    Hub.publishLocal_eq_ok_iff.mpr ⟨⟨held, hlookup, hkey⟩, rfl, hhub⟩
  have hquiet : (hub.chan id).drops.entries = [] := by
    have hself : hub.chan id = d.hub.chan id := by
      rw [hhub, Hub.fanoutLocked_chan]
      exact if_neg hstranger
    rw [hself, hdrops]
  obtain ⟨begun, hbegin, hbegun⟩ := step_publish fwd id htake hparse hlookup hkey
  obtain ⟨ended, hend, hended⟩ := step_body fwd id hbody hdot hpublish
  obtain ⟨past₁, hrun₁, hown₁⟩ := run_task hrun hconn (step_waiting limits fwd id hne hlen)
  obtain ⟨past₂, hrun₂, hown₂⟩ :=
    run_task hrun₁ (Function.update_self _ _ _) (step_top limits fwd id hdrops)
  obtain ⟨past₃, hrun₃, hown₃⟩ := run_task hrun₂ (Function.update_self _ _ _) hbegin
  obtain ⟨past₄, hrun₄, hown₄⟩ := run_task hrun₃ (Function.update_self _ _ _) hend
  obtain ⟨past₅, hrun₅, hown₅⟩ :=
    run_task hrun₄ (Function.update_self _ _ _) (step_top limits fwd id hquiet)
  obtain ⟨past₆, hrun₆, hown₆⟩ :=
    run_task hrun₅ (Function.update_self _ _ _) (step_take_need limits fwd id)
  refine ⟨_, past₆, hrun₆, Function.update_self _ _ _, hhub, fun i => ?_⟩
  have hbegin' : fanned d.hub id (.call (.publishPrecheck typeName key)) = [] := rfl
  have hend' : fanned d.hub id (.call (.publishLocal typeName key [])) =
      [.fannedOut (some id) msg (d.hub.recipients msg)] := by
    simp only [fanned, hpublish]
  have hsent : ownQueuedTo [.fannedOut (some id) msg (d.hub.recipients msg)] i =
      if i ∈ d.hub.recipients msg then [msg] else [] := by
    unfold ownQueuedTo
    by_cases hi : i ∈ d.hub.recipients msg
    · rw [if_pos hi]
      simp [Event.ownQueuedTo, hi]
    · rw [if_neg hi]
      simp [Event.ownQueuedTo, hi]
  have hnone : ownQueuedTo [] i = [] := rfl
  have hquiet' : calls [] = [] := rfl
  rw [hown₆, hown₅, hown₄, hown₃, hown₂, hown₁, hbegun, hended]
  simp only [taken, hquiet', List.flatMap_nil, List.append_nil, List.nil_append, hnone,
    List.flatMap_singleton, hbegin', hend', hsent]

/-- A daemon has published `n` messages. One connection listens to `t` and has room, another
one may publish `t` and `u` and waits. -/
structure Counting (n : ℕ) (d : Daemon) : Prop where
  /-- The daemon has its name. -/
  name : d.hub.registry.daemonId = "d1".toList
  /-- The next number. -/
  seq : d.hub.registry.seq = (n + 1) % u64Values
  /-- Both types are registered. -/
  held : ∀ typeName ∈ ["t".toList, "u".toList], ∃ held,
    d.hub.registry.types.lookup typeName = some held ∧ held.key = "k".toList
  /-- The subscribers. -/
  subscribers : d.hub.registry.subscribers "t".toList = {1} ∧
    d.hub.registry.subscribers "u".toList = ∅
  /-- The publisher waits. -/
  waits : d.conn 2 = some (waiting 2)
  /-- It has nothing to report. -/
  drops : (d.hub.chan 2).drops.entries = []
  /-- The subscriber has room. -/
  room : (d.hub.chan 1).hasRoom = true

/-- What the publisher sends. -/
theorem publishes_t : Publishes {} (Str.asBytes "PUBLISH t k\n.\n".toList) "t".toList "k".toList :=
  ⟨by decide, _, _, _, rfl, by decide, rfl, by decide⟩

/-- What it sends otherwise. -/
theorem publishes_u : Publishes {} (Str.asBytes "PUBLISH u k\n.\n".toList) "u".toList "k".toList :=
  ⟨by decide, _, _, _, rfl, by decide, rfl, by decide⟩

/-- A message that no one listens to. -/
theorem Counting.next {n : ℕ} (h : Counting n d)
    (hrun : Transition.Run (Daemon.step {} false) Transition.anyStep start d past) :
    ∃ d' past', Transition.Run (Daemon.step {} false) Transition.anyStep start d' past' ∧
      Counting (n + 1) d' ∧ ownQueuedTo past' 1 = ownQueuedTo past 1 := by
  have hnone : ∀ i, i ∉ d.hub.registry.subscribers "u".toList := by
    intro i
    rw [h.subscribers.2]
    exact Finset.notMem_empty i
  obtain ⟨d', past', hrun', hwaits, hhub, hown⟩ := publish_round publishes_u hrun h.waits
    (h.held _ (List.mem_cons_of_mem _ List.mem_cons_self)) (hnone 2) h.drops
  have hchan : ∀ i, d'.hub.chan i = d.hub.chan i := by
    intro i
    rw [hhub, Hub.fanoutLocked_chan]
    exact if_neg (hnone i)
  refine ⟨d', past', hrun', ⟨?_, ?_, ?_, ?_, hwaits, ?_, ?_⟩, ?_⟩
  · rw [hhub, Hub.fanoutLocked_registry]
    exact h.name
  · rw [hhub, Hub.fanoutLocked_registry]
    dsimp only
    rw [h.seq, Nat.mod_add_mod]
  · rw [hhub, Hub.fanoutLocked_registry]
    exact h.held
  · rw [hhub, Hub.fanoutLocked_registry]
    exact h.subscribers
  · rw [hchan]
    exact h.drops
  · rw [hchan]
    exact h.room
  · rw [hown 1, if_neg, List.append_nil]
    exact fun hmem => hnone 1 (Finset.mem_filter.mp hmem).1

/-- Any number of messages more can be published that no one listens to. -/
theorem Counting.run {n : ℕ} (h : Counting n d)
    (hrun : Transition.Run (Daemon.step {} false) Transition.anyStep start d past) (m : ℕ) :
    ∃ d' past', Transition.Run (Daemon.step {} false) Transition.anyStep start d' past' ∧
      Counting (n + m) d' ∧ ownQueuedTo past' 1 = ownQueuedTo past 1 := by
  induction m with
  | zero => exact ⟨d, past, hrun, h, rfl⟩
  | succ m ih =>
    obtain ⟨d₁, past₁, hrun₁, hcounting, hown⟩ := ih
    obtain ⟨d₂, past₂, hrun₂, hnext, hsame⟩ := hcounting.next hrun₁
    exact ⟨d₂, past₂, hrun₂, hnext, hsame.trans hown⟩

/-- A connection subscribes, and another one registers both types and publishes. -/
def countingTrace : List Action :=
  arrival 1 ++ arrives 1 (Str.asBytes "SUBSCRIBE t\n".toList) 4 ++
    arrival 2 ++ arrives 2 (Str.asBytes "REGISTER t k\n".toList) 4 ++
    arrives 2 (Str.asBytes "REGISTER u k\n".toList) 4 ++
    arrives 2 (Str.asBytes "PUBLISH t k\n.\n".toList) 5

set_option synthInstance.maxSize 400 in
/-- The first message. -/
theorem exists_counting : ∃ d past,
    Transition.Run (Daemon.step {} false) Transition.anyStep (Daemon.start "d1".toList {}) d past ∧
      Counting 1 d ∧ (ownQueuedTo past 1).map Message.msgId = ["d1-1".toList] := by
  obtain ⟨d, past, hrun, ⟨hname, hseq, ht, hu⟩, hsubscribers, hwaits, hdrops, hroom, hown⟩ :=
    Transition.exists_run (Daemon.step {} false) (fun _ _ _ => true) (Daemon.start "d1".toList {})
      countingTrace (P := fun d past =>
        (d.hub.registry.daemonId = "d1".toList ∧ d.hub.registry.seq = 2 ∧
          (d.hub.registry.types.lookup "t".toList).map TypeReg.key = some "k".toList ∧
          (d.hub.registry.types.lookup "u".toList).map TypeReg.key = some "k".toList) ∧
        (d.hub.registry.subscribers "t".toList = {1} ∧
          d.hub.registry.subscribers "u".toList = ∅) ∧
        (d.conn 2).map (fun c => (c.id, c.rbuf, c.mySubs, c.phase)) = some (2, [], [], .select) ∧
        (d.hub.chan 2).drops.entries.isEmpty = true ∧ (d.hub.chan 1).hasRoom = true ∧
        (ownQueuedTo past 1).map Message.msgId = ["d1-1".toList]) (by decide)
  refine ⟨d, past, hrun.weaken fun _ _ _ _ => trivial,
    ⟨hname, hseq, ?_, hsubscribers, ?_, List.isEmpty_iff.mp hdrops, hroom⟩, hown⟩
  · intro typeName hmem
    simp only [List.mem_cons, List.not_mem_nil, or_false] at hmem
    rcases hmem with rfl | rfl
    · exact Option.map_eq_some_iff.mp ht
    · exact Option.map_eq_some_iff.mp hu
  · obtain ⟨c, hc, hfields⟩ := Option.map_eq_some_iff.mp hwaits
    simp only [Prod.mk.injEq] at hfields
    obtain ⟨hid, hrbuf, hsubs, hphase⟩ := hfields
    rw [hc]
    cases c
    simp_all [waiting]

/-- **Numbers do not increase for ever**: after 2^64 messages a queue holds the message with
number 0 behind the one with number 1. -/
theorem sequence_number_wraps : ∃ d past,
    Transition.Run (Daemon.step {} false) Transition.anyStep (Daemon.start "d1".toList {}) d past ∧
      ¬Increasing "d1".toList (ownQueuedTo past 1) := by
  obtain ⟨d₁, past₁, hrun₁, hcounting₁, hfirst⟩ := exists_counting
  obtain ⟨d₂, past₂, hrun₂, hcounting₂, hown₂⟩ := hcounting₁.run hrun₁ (u64Values - 2)
  have hone : ∀ i, i ∈ d₂.hub.registry.subscribers "t".toList ↔ i = 1 := by
    intro i
    rw [hcounting₂.subscribers.1]
    exact Finset.mem_singleton
  obtain ⟨d₃, past₃, hrun₃, _, _, hown₃⟩ := publish_round publishes_t hrun₂ hcounting₂.waits
    (hcounting₂.held _ List.mem_cons_self) (by rw [hone]; decide) hcounting₂.drops
  refine ⟨d₃, past₃, hrun₃, fun hincreasing => ?_⟩
  obtain ⟨first, hown₁, hid₁⟩ := List.map_eq_singleton_iff.mp hfirst
  have hround : (1 + (u64Values - 2) + 1) % u64Values = 0 := by decide
  have hid₃ : d₂.hub.registry.msgId = messageId "d1".toList 0 := by
    unfold Registry.msgId messageId
    rw [hcounting₂.name, hcounting₂.seq, hround]
  have hrecipient : 1 ∈ d₂.hub.recipients
      ⟨"t".toList, d₂.hub.registry.msgId, d₂.hub.registry.daemonId, []⟩ :=
    Finset.mem_filter.mpr ⟨(hone 1).mpr rfl, hcounting₂.room⟩
  rw [hown₃ 1, if_pos hrecipient, hown₂, hown₁] at hincreasing
  obtain ⟨n, n', hn, hn', hlt⟩ := List.rel_of_pairwise_cons hincreasing List.mem_cons_self
  have hfirst' : messageId "d1".toList 1 = messageId "d1".toList n := by
    rw [← hn, hid₁]
    decide
  have hone' := (messageId_inj hfirst').2
  have hzero := (messageId_inj (hid₃.symm.trans hn')).2
  omega

end Rounds

end Daemon

end MacroBus
