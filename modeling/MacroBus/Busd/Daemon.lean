import MacroBus.Lib.Transition
import MacroBus.Busd.FrameReader
import MacroBus.Busd.Session

/-!
# A daemon

A daemon is one registry with the connections it has accepted. The tasks of the
connections and the peer links take steps in any order, and all a step does to the
registry is at most one critical section of a call.
-/

namespace MacroBus

/-- The call of the registry an effect is. -/
def Effect.asCall : Effect → Option Call
  | .call made => some made
  | _ => none

/-- The calls of the registry among what was done. -/
def calls (done : List Effect) : List Call := done.filterMap Effect.asCall

/-- Whether a task took octets from its buffer. -/
def Effect.isTaking : Effect → Bool
  | .command _ | .bodyLine _ | .giveUp _ => true
  | _ => false

/-- Whether an effect hands something to the forwarder. -/
def Effect.isForward : Effect → Bool
  | .forwardLocal _ | .propagateRegistration .. => true
  | _ => false

/-- Taking octets is no call, writes nothing and forwards nothing. -/
theorem Effect.of_isTaking {e : Effect} (he : e.isTaking = true) :
    e.asCall = none ∧ Conn.isWrite e = false ∧ e.isForward = false := by
  cases e with
  | command | bodyLine | giveUp => exact ⟨rfl, rfl, rfl⟩
  | _ => cases he

/-- A call is made if it is among what was done. -/
theorem mem_calls {done : List Effect} {made : Call} : made ∈ calls done ↔ .call made ∈ done := by
  unfold calls
  rw [List.mem_filterMap]
  constructor
  · rintro ⟨e, he, hmade⟩
    cases e <;> simp only [Effect.asCall, Option.some.injEq, reduceCtorEq] at hmade
    exact hmade ▸ he
  · intro hmem
    exact ⟨_, hmem, rfl⟩

/-- What a call by the connection `id` does to the hub. When a connection is removed, its
end of the channel is dropped with it. -/
def Hub.execute (h : Hub) (id : ℕ) : Call → Hub
  | .registerLocal typeName key nowMs =>
    { h with registry := (h.registry.registerLocal typeName key nowMs).2 }
  | .subscribe typeName => { h with registry := h.registry.subscribe typeName id }
  | .unsubscribe typeName => { h with registry := h.registry.unsubscribe typeName id }
  | .listTypes => h
  | .publishPrecheck .. => h
  | .publishLocal typeName key body => (h.publishLocal typeName key body).2
  | .removeConn types =>
    { h with
      registry := h.registry.removeConn id types
      chan := Function.update h.chan id { h.chan id with isOpen := false } }

/-- The types in `my_subs` after a call. -/
def Call.subsAfter (mySubs : List Str) : Call → List Str
  | .subscribe typeName => mySubs.insert typeName
  | .unsubscribe typeName => mySubs.erase typeName
  | .removeConn _ => []
  | _ => mySubs

namespace Conn

/-- What the task of a connection does to its own channel. -/
inductive OwnStep (ch : Chan) : Wake → Chan → Prop
  /-- `flush_drops` drains the counters. -/
  | drain : OwnStep ch .go { ch with drops := ∅ }
  /-- An item is taken from the queue. -/
  | recv {out : Outbound} {queue : List Outbound} : ch.queue = out :: queue →
      OwnStep ch .recv { ch with queue := queue }
  /-- The permit is taken. -/
  | notified : ch.permit = true → OwnStep ch .notified { ch with permit := false }

/-- What a step of a task does to the hub: nothing, one thing to its own channel, or one
call. -/
inductive Uses (c : Conn) (h : Hub) (wake : Wake) (c' : Conn) : Hub → List Effect → Prop
  /-- The hub is left alone. -/
  | alone {done : List Effect} : wake ≠ .recv → calls done = [] → c'.mySubs = c.mySubs →
      c'.phase ≠ .gone → Uses c h wake c' h done
  /-- Its own channel changes. -/
  | channel {done : List Effect} {ch : Chan} : calls done = [] → done.any isWrite = false →
      OwnStep (h.chan c.id) wake ch → c'.mySubs = c.mySubs → c'.phase ≠ .gone →
      Uses c h wake c' { h with chan := Function.update h.chan c.id ch } done
  /-- The registry is called. -/
  | call {done : List Effect} (made : Call) : wake ≠ .recv → calls done = [made] →
      c'.mySubs = made.subsAfter c.mySubs →
      (c'.phase = .gone ↔ ∃ types, made = .removeConn types) →
      (∀ types, made = .removeConn types → types = c.mySubs) →
      Uses c h wake c' (h.execute c.id made) done

section Steps

variable {limits : Limits} {fwd : Bool} {nowMs : ℕ} {wake : Wake} {c c' : Conn} {h h' : Hub}
  {done : List Effect} {typeName key : Str}

/-- What the end of a `PUBLISH` does to the hub. -/
theorem finishPublish_uses (fwd : Bool) (c : Conn) (h : Hub) (typeName key : Str)
    (body : Option (List Str)) :
    let r := finishPublish fwd c h typeName key body
    r.1.id = c.id ∧ Uses c h .go r.1 r.2.1 r.2.2 := by
  unfold finishPublish
  cases body with
  | none => exact ⟨rfl, .alone (by simp) rfl rfl (by simp)⟩
  | some lines =>
    dsimp only
    split
    · next msg hub heq =>
      have hhub : h.execute c.id (.publishLocal typeName key lines) = hub := by
        simp only [Hub.execute, heq]
      rw [← hhub]
      refine ⟨rfl, .call (.publishLocal typeName key lines) (by simp) ?_ rfl (by simp) (by simp)⟩
      cases fwd <;> rfl
    · next e hub heq =>
      have hhub : h.execute c.id (.publishLocal typeName key lines) = hub := by
        simp only [Hub.execute, heq]
      rw [← hhub]
      exact ⟨rfl, .call (.publishLocal typeName key lines) (by simp) rfl rfl (by simp) (by simp)⟩

/-- What a command does to the hub. -/
theorem handleCommand_uses (limits : Limits) (fwd : Bool) (nowMs : ℕ) (c : Conn) (h : Hub)
    (line : Bytes) :
    let r := handleCommand limits fwd nowMs c h line
    r.1.id = c.id ∧ Uses c h .go r.1 r.2.1 r.2.2 := by
  unfold handleCommand
  split
  · exact ⟨rfl, .alone (by simp) rfl rfl (by simp)⟩
  · exact ⟨rfl, .alone (by simp) rfl rfl (by simp)⟩
  · exact ⟨rfl, .alone (by simp) rfl rfl (by simp)⟩
  · exact ⟨rfl, .alone (by simp) rfl rfl (by simp)⟩
  · exact ⟨rfl, .call .listTypes (by simp) rfl rfl (by simp) (by simp)⟩
  · next typeName key _ =>
    dsimp only
    split
    · next reg registry heq =>
      have hhub : h.execute c.id (.registerLocal typeName key nowMs) =
          { h with registry := registry } := by
        simp only [Hub.execute, heq]
      rw [← hhub]
      refine ⟨rfl, .call (.registerLocal typeName key nowMs) (by simp) ?_ rfl (by simp) (by simp)⟩
      cases reg.changed <;> cases fwd <;> rfl
    · next e registry heq =>
      have hhub : h.execute c.id (.registerLocal typeName key nowMs) =
          { h with registry := registry } := by
        simp only [Hub.execute, heq]
      rw [← hhub]
      exact ⟨rfl, .call (.registerLocal typeName key nowMs) (by simp) rfl rfl (by simp) (by simp)⟩
  · next typeName _ =>
    exact ⟨rfl, .call (.subscribe typeName) (by simp) rfl rfl (by simp) (by simp)⟩
  · next typeName _ =>
    exact ⟨rfl, .call (.unsubscribe typeName) (by simp) rfl rfl (by simp) (by simp)⟩
  · next typeName key _ =>
    unfold beginPublish
    split <;> exact ⟨rfl, .call (.publishPrecheck typeName key) (by simp) rfl rfl (by simp) (by simp)⟩

/-- Taking a line from the buffer has no part in it. -/
theorem Uses.taken {rest : Bytes} {e : Effect} (he : e.asCall = none) (hwrite : isWrite e = false)
    (huses : Uses { c with rbuf := rest } h .go c' h' done) : Uses c h .go c' h' (e :: done) := by
  have hcalls : calls (e :: done) = calls done := List.filterMap_cons_none he
  cases huses with
  | alone hwake hnone hsubs hphase => exact .alone hwake (hcalls.trans hnone) hsubs hphase
  | channel hnone hsilent hown hsubs hphase =>
    have hsilent' : (e :: done).any isWrite = false := by
      rw [List.any_cons, hwrite, hsilent, Bool.or_false]
    exact .channel (hcalls.trans hnone) hsilent' hown hsubs hphase
  | call made hwake hone hsubs hgone htypes =>
    exact .call made hwake (hcalls.trans hone) hsubs hgone htypes

/-- The end of a `PUBLISH` calls before it writes. -/
theorem finishPublish_calls_first (fwd : Bool) (c : Conn) (h : Hub) (typeName key : Str)
    (body : Option (List Str)) :
    let done := (finishPublish fwd c h typeName key body).2.2
    calls (done.takeWhile fun e => !isWrite e) = calls done := by
  unfold finishPublish
  cases body with
  | none => rfl
  | some lines =>
    dsimp only
    split
    · cases fwd <;> rfl
    · rfl

/-- A command calls before it writes, or only looks. -/
theorem handleCommand_calls_first (limits : Limits) (fwd : Bool) (nowMs : ℕ) (c : Conn) (h : Hub)
    (line : Bytes) :
    let done := (handleCommand limits fwd nowMs c h line).2.2
    calls (done.takeWhile fun e => !isWrite e) = calls done ∨
      calls done = [.listTypes] ∧ calls (done.takeWhile fun e => !isWrite e) = [] := by
  unfold handleCommand beginPublish
  split
  · exact Or.inl rfl
  · exact Or.inl rfl
  · exact Or.inl rfl
  · exact Or.inl rfl
  · exact Or.inr ⟨rfl, rfl⟩
  · dsimp only
    split
    · next reg _ _ =>
      cases reg.changed <;> cases fwd <;> exact Or.inl rfl
    · exact Or.inl rfl
  · exact Or.inl rfl
  · exact Or.inl rfl
  · split <;> exact Or.inl rfl

/-- What an internal step does to the hub. -/
theorem go_uses (hgo : go limits fwd nowMs c h = some (c', h', done)) :
    c'.id = c.id ∧ Uses c h .go c' h' done := by
  cases go_goes hgo with
  | greet | noDrops | flushed | notice | commandTooLong | commandNeed | bodyLine | bodyTooLong
  | bodyNeed => exact ⟨rfl, .alone (by simp) rfl rfl (by simp)⟩
  | drain => exact ⟨rfl, .channel rfl rfl .drain rfl (by simp)⟩
  | @command line rest =>
    obtain ⟨hid, huses⟩ := handleCommand_uses limits fwd nowMs { c with rbuf := rest } h line
    exact ⟨hid, huses.taken rfl rfl⟩
  | @deliver out => exact ⟨rfl, .alone (by simp) (by cases out <;> rfl) rfl (by simp)⟩
  | @terminator typeName key acc line rest =>
    obtain ⟨hid, huses⟩ := finishPublish_uses fwd { c with rbuf := rest } h typeName key acc.result
    exact ⟨hid, huses.taken rfl rfl⟩
  | remove => exact ⟨rfl, .call (.removeConn c.mySubs) (by simp) rfl rfl (by simp) (by simp)⟩

/-- A call comes before the first write, except where the call only looks. -/
theorem go_calls_first (hgo : go limits fwd nowMs c h = some (c', h', done)) :
    calls (done.takeWhile fun e => !isWrite e) = calls done ∨
      calls done = [.listTypes] ∧ calls (done.takeWhile fun e => !isWrite e) = [] := by
  cases go_goes hgo with
  | @command line rest =>
    exact handleCommand_calls_first limits fwd nowMs { c with rbuf := rest } h line
  | @terminator typeName key acc line rest =>
    exact Or.inl (finishPublish_calls_first fwd { c with rbuf := rest } h typeName key acc.result)
  | @deliver out => cases out <;> exact Or.inl rfl
  | _ => exact Or.inl rfl

/-- A connection is removed without a word. -/
theorem go_gone_silent (hgo : go limits fwd nowMs c h = some (c', h', done))
    (hgone : c'.phase = .gone) : done.any isWrite = false := by
  cases go_goes hgo with
  | @command line rest =>
    obtain ⟨_, _, hnext⟩ := handleCommand_conn limits fwd nowMs { c with rbuf := rest } h line
    rw [hgone] at hnext
    simp at hnext
  | terminator => simp [finishPublish_fst] at hgone
  | remove => rfl
  | _ => cases hgone

/-- A connection that is gone takes no step. -/
theorem step_gone (hgone : c.phase = .gone) : step limits fwd nowMs wake c h = none := by
  cases wake <;> simp [step, go, hgone]

/-- **What a step of a task does to the hub.** -/
theorem step_uses (hstep : step limits fwd nowMs wake c h = some (c', h', done)) :
    c'.id = c.id ∧ Uses c h wake c' h' done := by
  cases step_steps hstep with
  | go hgo => exact go_uses hgo
  | read | readBody => exact ⟨rfl, .alone (by simp) rfl rfl (by simp)⟩
  | closed _ hwake =>
    refine ⟨rfl, .alone ?_ rfl rfl (by simp)⟩
    rcases hwake with ⟨rfl, _⟩ | ⟨rfl, _⟩ <;> simp
  | closedBody _ hwake =>
    refine ⟨rfl, .alone ?_ rfl rfl (by simp)⟩
    rcases hwake with rfl | rfl <;> simp
  | recv _ hqueue => exact ⟨rfl, .channel rfl rfl (.recv hqueue) rfl (by simp)⟩
  | notified _ hpermit => exact ⟨rfl, .channel rfl rfl (.notified hpermit) rfl (by simp)⟩
  | writeErr hgo hwrites =>
    obtain ⟨hid, huses⟩ := go_uses hgo
    refine ⟨hid, ?_⟩
    have hfirst := go_calls_first hgo
    cases huses with
    | alone _ hnone hsubs _ =>
      rw [hnone] at hfirst
      exact .alone (by simp) (hfirst.resolve_right (by simp)) hsubs (by simp)
    | channel _ hsilent =>
      rw [hsilent] at hwrites
      cases hwrites
    | call made _ hone hsubs hgone htypes =>
      rw [hone] at hfirst
      rcases hfirst with hfirst | ⟨hlist, hnone⟩
      · refine .call made (by simp) hfirst hsubs ?_ htypes
        constructor
        · intro hphase
          cases hphase
        · rintro ⟨types, rfl⟩
          rw [go_gone_silent hgo (hgone.mpr ⟨types, rfl⟩)] at hwrites
          cases hwrites
      · obtain rfl := List.singleton_inj.mp hlist
        exact .alone (by simp) hnone hsubs (by simp)

end Steps

end Conn

/-- A daemon: the hub and the connections it has accepted, ended ones included. -/
structure Daemon where
  /-- The registry and the channels of its handles. -/
  hub : Hub
  /-- The connections by their ids. -/
  conn : ℕ → Option Conn

namespace Daemon

/-- A step of a daemon. -/
inductive Action
  /-- A connection is accepted under an id that was never used. -/
  | accept (id : ℕ)
  /-- The task of a connection takes a step. -/
  | task (id nowMs : ℕ) (wake : Conn.Wake)
  /-- A peer link runs a section of a call. -/
  | inbound (made : Section)
  deriving DecidableEq

/-- What is observed of a step. -/
inductive Event
  /-- The step itself. -/
  | act (a : Action)
  /-- What the task of a connection did. -/
  | did (id : ℕ) (effect : Effect)
  /-- A message from a peer was new. -/
  | ingested (msg : Message)
  /-- A message was fanned out: published by a connection, or ingested from a peer. The queues
  of these connections took it. -/
  | fannedOut (publisher : Option ℕ) (msg : Message) (queued : Finset ℕ)
  /-- The task of a connection took an item from its queue. -/
  | took (id : ℕ) (out : Outbound)
  /-- A frame is broadcast to the peers, except the one it came from. -/
  | broadcast (frame : OutFrame)
  deriving DecidableEq

/-- The fan-out of an effect, if it is a publish that succeeds. -/
def fanned (h : Hub) (id : ℕ) : Effect → List Event
  | .call (.publishLocal typeName key body) =>
    match (h.publishLocal typeName key body).1 with
    | .ok msg => [.fannedOut (some id) msg (h.recipients msg)]
    | .error _ => []
  | _ => []

/-- What is observed of an effect. -/
def observe (h : Hub) (id : ℕ) (e : Effect) : List Event := .did id e :: fanned h id e

/-- The item a wake-up takes from the queue. -/
def taken (h : Hub) (id : ℕ) : Conn.Wake → List Event
  | .recv => (h.chan id).queue.head?.toList.map (.took id)
  | _ => []

/-- What is observed of a section that a peer link runs. -/
def received (h : Hub) : Section → List Event
  | .recordSeen msg => if (h.recordSeen msg).1 then [.ingested msg] else []
  | .fanOut msg => [.fannedOut none msg (h.recipients msg), .broadcast (.feed msg)]
  | .applyRemoteRegistration typeName incoming =>
    (h.perform (.applyRemoteRegistration typeName incoming)).2.toList.map .broadcast

/-- What the task of the connection did, if the event is that. -/
def Event.effectOf (x : ℕ) : Event → Option Effect
  | .did id e => if id = x then some e else none
  | _ => none

/-- What the task of the connection did. -/
def effectsOf (x : ℕ) (es : List Event) : List Effect := es.filterMap (Event.effectOf x)

/-- The text an effect writes. -/
def written : Effect → Option Str
  | .wrote text => some text
  | _ => none

/-- What is written to the connection. -/
def replies (x : ℕ) (es : List Event) : List Str := (effectsOf x es).filterMap written

/-- A daemon that has just started. -/
def start (daemonId : Str) (limits : Limits) : Daemon where
  hub := ⟨Registry.new daemonId limits.seenCapacity, fun _ => { depth := limits.queueDepth }⟩
  conn _ := none

/-- One step of a daemon. -/
def step (limits : Limits) (fwd : Bool) (d : Daemon) : Action → Option (Daemon × List Event)
  | .accept id =>
    match d.conn id with
    | some _ => none
    | none =>
      some ({
        hub := { d.hub with
          chan := Function.update d.hub.chan id { depth := limits.queueDepth } }
        conn := Function.update d.conn id (some { id := id }) }, [.act (.accept id)])
  | .task id nowMs wake =>
    match d.conn id with
    | none => none
    | some c =>
      (Conn.step limits fwd nowMs wake c d.hub).map fun r =>
        (⟨r.2.1, Function.update d.conn id (some r.1)⟩,
          .act (.task id nowMs wake) :: (taken d.hub id wake ++ r.2.2.flatMap (observe d.hub id)))
  | .inbound made =>
    some (⟨(d.hub.perform made).1, d.conn⟩, .act (.inbound made) :: received d.hub made)

/-- A connection is accepted, greeted, and waits for its client. -/
def arrival (id : ℕ) : List Action :=
  .accept id :: List.replicate 3 (.task id 0 .go)

/-- A connection reads these octets and takes so many steps with them. -/
def arrives (id : ℕ) (chunk : Bytes) (steps : ℕ) : List Action :=
  .task id 0 (.read chunk) :: List.replicate steps (.task id 0 .go)

section Steps

variable {limits : Limits} {fwd : Bool} {d d' : Daemon} {h : Hub} {es : List Event}
  {id i nowMs : ℕ} {wake : Conn.Wake} {e e' : Effect} {x : Event}

/-- Which effects fan a message out. -/
theorem mem_fanned : x ∈ fanned h id e ↔
    ∃ typeName key body msg, e = .call (.publishLocal typeName key body) ∧
      (h.publishLocal typeName key body).1 = .ok msg ∧
      x = .fannedOut (some id) msg (h.recipients msg) := by
  unfold fanned
  split
  · next typeName key body =>
    split
    · next msg hmsg =>
      rw [List.mem_singleton]
      constructor
      · intro hx
        exact ⟨typeName, key, body, msg, rfl, hmsg, hx⟩
      · rintro ⟨_, _, _, msg', he, hmsg', rfl⟩
        cases he
        rw [Except.ok.inj (hmsg.symm.trans hmsg')]
    · next e' herror =>
      constructor
      · intro hx
        cases hx
      · rintro ⟨_, _, _, msg', he, hmsg', rfl⟩
        cases he
        cases herror.symm.trans hmsg'
  · next hother =>
    constructor
    · intro hx
      cases hx
    · rintro ⟨typeName, key, body, _, rfl, _⟩
      exact absurd rfl (hother typeName key body)

/-- A fan-out is not an effect. -/
theorem did_notMem_fanned : .did i e' ∉ fanned h id e := by
  intro hmem
  obtain ⟨_, _, _, _, _, _, hx⟩ := mem_fanned.mp hmem
  cases hx

/-- An item taken from the queue is not an effect. -/
theorem did_notMem_taken : .did i e ∉ taken h id wake := by
  unfold taken
  split <;> simp

/-- What is observed of a section that a peer link runs. -/
theorem cases_of_mem_received {made : Section} (hx : x ∈ received h made) :
    (∃ msg, x = .ingested msg) ∨ (∃ msg, x = .fannedOut none msg (h.recipients msg)) ∨
      ∃ frame, x = .broadcast frame := by
  cases made with
  | recordSeen msg =>
    unfold received at hx
    dsimp only at hx
    split at hx
    · exact Or.inl ⟨msg, List.mem_singleton.mp hx⟩
    · cases hx
  | fanOut msg =>
    rcases List.mem_pair.mp hx with rfl | rfl
    · exact Or.inr (Or.inl ⟨msg, rfl⟩)
    · exact Or.inr (Or.inr ⟨_, rfl⟩)
  | applyRemoteRegistration typeName incoming =>
    obtain ⟨frame, _, rfl⟩ := List.mem_map.mp hx
    exact Or.inr (Or.inr ⟨frame, rfl⟩)

/-- What a peer link does is not an effect. -/
theorem did_notMem_received {made : Section} : .did i e ∉ received h made := by
  intro hmem
  rcases cases_of_mem_received hmem with ⟨_, hx⟩ | ⟨_, hx⟩ | ⟨_, hx⟩ <;> cases hx

/-- No connection does anything in a step of a peer link. -/
theorem effectsOf_received (x : ℕ) (a : Action) (h : Hub) (made : Section) :
    effectsOf x (.act a :: received h made) = [] := by
  refine List.filterMap_eq_nil_iff.mpr fun ev hev => ?_
  rcases List.mem_cons.mp hev with rfl | hev
  · rfl
  · rcases cases_of_mem_received hev with ⟨_, rfl⟩ | ⟨_, rfl⟩ | ⟨_, rfl⟩ <;> rfl

/-- The effects among what is observed of a task. -/
theorem did_mem_observe {done : List Effect} :
    .did i e ∈ done.flatMap (observe h id) ↔ i = id ∧ e ∈ done := by
  simp only [List.mem_flatMap, observe, List.mem_cons, Event.did.injEq, did_notMem_fanned, or_false]
  constructor
  · rintro ⟨e', he', rfl, rfl⟩
    exact ⟨rfl, he'⟩
  · rintro ⟨rfl, he⟩
    exact ⟨e, he, rfl, rfl⟩

/-- What the task of a connection did, of all that is observed. -/
theorem effectsOf_task (x : ℕ) (a : Action) (h : Hub) (id : ℕ) (wake : Conn.Wake)
    (done : List Effect) :
    effectsOf x (.act a :: (taken h id wake ++ done.flatMap (observe h id))) =
      if id = x then done else [] := by
  have htaken : (taken h id wake).filterMap (Event.effectOf x) = [] := by
    refine List.filterMap_eq_nil_iff.mpr fun ev hev => ?_
    cases ev with
    | did i e => exact absurd hev did_notMem_taken
    | _ => rfl
  have hobserve : ∀ e, (observe h id e).filterMap (Event.effectOf x) =
      if id = x then [e] else [] := by
    intro e
    have hfanned : (fanned h id e).filterMap (Event.effectOf x) = [] := by
      refine List.filterMap_eq_nil_iff.mpr fun ev hev => ?_
      obtain ⟨_, _, _, _, _, _, rfl⟩ := mem_fanned.mp hev
      rfl
    by_cases hid : id = x
    · have hsome : Event.effectOf x (.did id e) = some e := if_pos hid
      rw [if_pos hid, observe, List.filterMap_cons_some hsome, hfanned]
    · have hnone : Event.effectOf x (.did id e) = none := if_neg hid
      rw [if_neg hid, observe, List.filterMap_cons_none hnone, hfanned]
  unfold effectsOf
  rw [List.filterMap_cons_none rfl, List.filterMap_append, htaken, List.nil_append]
  induction done with
  | nil => simp
  | cons e done ih =>
    rw [List.flatMap_cons, List.filterMap_append, hobserve, ih]
    by_cases hid : id = x <;> simp [hid]

/-- A connection is accepted. -/
theorem step_accept_eq_some_iff : step limits fwd d (.accept id) = some (d', es) ↔
    d.conn id = none ∧
      d' = ⟨{ d.hub with chan := Function.update d.hub.chan id { depth := limits.queueDepth } },
        Function.update d.conn id (some { id := id })⟩ ∧
      es = [.act (.accept id)] := by
  cases hconn : d.conn id with
  | none => simp [step, hconn, eq_comm]
  | some c => simp [step, hconn]

/-- The task of a connection takes a step. -/
theorem step_task_eq_some_iff : step limits fwd d (.task id nowMs wake) = some (d', es) ↔
    ∃ c c' h' done, d.conn id = some c ∧
      Conn.step limits fwd nowMs wake c d.hub = some (c', h', done) ∧
      d' = ⟨h', Function.update d.conn id (some c')⟩ ∧
      es = .act (.task id nowMs wake) ::
        (taken d.hub id wake ++ done.flatMap (observe d.hub id)) := by
  cases hconn : d.conn id with
  | none => simp [step, hconn]
  | some c =>
    simp only [step, hconn, Option.map_eq_some_iff, Option.some.injEq, Prod.exists, Prod.mk.injEq,
      exists_and_left, exists_eq_left']
    constructor
    · rintro ⟨c', h', done, hstep, rfl, rfl⟩
      exact ⟨c', h', done, hstep, rfl, rfl⟩
    · rintro ⟨c', h', done, hstep, rfl, rfl⟩
      exact ⟨c', h', done, hstep, rfl, rfl⟩

end Steps

end Daemon

end MacroBus
