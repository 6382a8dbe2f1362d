import MacroBus.Busd.BodyReader
import MacroBus.Busd.FanOut
import MacroBus.Busd.SeenSet

/-!
# A publish is all or nothing

Between the line of a `PUBLISH` and the terminator of its body the rest of the daemon goes
on: the owner of the type can change meanwhile. The message is published in the one step
that leaves the body, or not at all, and nothing else of a `PUBLISH` has an effect.
-/

namespace MacroBus

namespace Conn

/-- What `read_body` makes of these octets, as far as it gets: the body, `none` in its place
where a limit is exceeded, or no result yet. -/
def bodyResult (limits : Limits) (buffered : Bytes) (reads : List Bytes) :
    Option (Option (List Str)) :=
  if h : ∀ chunk ∈ reads, chunk ≠ [] then (readBody limits ⟨buffered, reads, h⟩).1 else none

/-- What a step of a task inside a body does. -/
inductive BodyStep (fwd : Bool) (typeName key : Str) (result : Option (Option (List Str)))
    (c : Conn) (h : Hub) (wake : Wake) (c' : Conn) : Hub → List Effect → Prop
  /-- The body goes on. -/
  | stays {done : List Effect} : c'.phase.inBody = true → done.all Effect.isTaking = true →
      BodyStep fwd typeName key result c h wake c' h done
  /-- The stream ends or fails. -/
  | lost : result = none → c'.phase.inBody = false →
      BodyStep fwd typeName key result c h wake c' h []
  /-- The body is read. -/
  | finished {body : Option (List Str)} {e : Effect} : result = some body → e.isTaking = true →
      wake ≠ .writeErr → c'.phase.inBody = false →
      BodyStep fwd typeName key result c h wake c' (finishPublish fwd c h typeName key body).2.1
        (e :: (finishPublish fwd c h typeName key body).2.2)
  /-- The body is read, and the answer cannot be written. -/
  | unanswered {body : Option (List Str)} {e : Effect} : result = some body → e.isTaking = true →
      wake = .writeErr → c'.phase.inBody = false →
      BodyStep fwd typeName key result c h wake c' (finishPublish fwd c h typeName key body).2.1
        (e :: (finishPublish fwd c h typeName key body).2.2.takeWhile fun e => !isWrite e)

section Steps

variable {limits : Limits} {fwd : Bool} {nowMs : ℕ} {wake : Wake} {c c' : Conn} {h h' : Hub}
  {done : List Effect} {typeName key : Str} {buffered : Bytes} {reads : List Bytes}
  {acc : BodyAcc}

/-- The result is that of what is left to read. -/
theorem Collects.result {rbuf : Bytes} (hc : Collects limits buffered reads acc rbuf) :
    bodyResult limits buffered reads = (readBodyFrom limits acc (BufReader.ofList rbuf)).1 := by
  have hall := hc.2 [] (by simpa using hc.1) (by simp)
  simp only [List.append_nil] at hall
  unfold bodyResult
  rw [dif_pos hc.1, hall]
  rfl

/-- The result, where a line is complete. -/
theorem Collects.result_line {rbuf line rest : Bytes}
    (hc : Collects limits buffered reads acc rbuf)
    (htake : takeLine limits.maxBodyLineBytes rbuf = (.line line, rest))
    (hline : fromUtf8Lossy line = frame.TERMINATOR) :
    bodyResult limits buffered reads = some acc.result := by
  rw [hc.result, BufReader.ofList, readBodyFrom_line (readLineBlocking_line htake), if_pos hline]

/-- The result, where a line is too long. -/
theorem Collects.result_tooLong {rbuf rest : Bytes}
    (hc : Collects limits buffered reads acc rbuf)
    (htake : takeLine limits.maxBodyLineBytes rbuf = (.tooLong, rest)) :
    bodyResult limits buffered reads = some none := by
  rw [hc.result, BufReader.ofList, readBodyFrom_tooLong (readLineBlocking_tooLong htake)]

/-- The result, where a line is incomplete. -/
theorem Collects.result_need {rbuf : Bytes} (hc : Collects limits buffered reads acc rbuf)
    (htake : takeLine limits.maxBodyLineBytes rbuf = (.need, rbuf)) :
    bodyResult limits buffered reads = none := by
  have heof : readLineBlocking limits.maxBodyLineBytes (BufReader.ofList rbuf) =
      (.eof, BufReader.ofList rbuf) := by
    simp only [readLineBlocking, BufReader.ofList, readLineBlockingFrom, htake]
  rw [hc.result, readBodyFrom_eof heof]

/-- An internal step inside a body. -/
theorem go_bodyStep (hinv : BodyReads limits typeName key buffered reads c)
    (hin : c.phase.inBody = true) (hgo : go limits fwd nowMs c h = some (c', h', done)) :
    c'.phase.inBody = true ∧ h' = h ∧ done.all Effect.isTaking = true ∨
      ∃ body e, bodyResult limits buffered reads = some body ∧ e.isTaking = true ∧
        c'.phase.inBody = false ∧ h' = (finishPublish fwd c h typeName key body).2.1 ∧
        done = e :: (finishPublish fwd c h typeName key body).2.2 := by
  unfold BodyReads at hinv
  cases go_goes hgo with
  | @terminator typeName' key' acc line rest hphase htake hline =>
    rw [hphase] at hinv
    obtain ⟨rfl, rfl, hc⟩ := hinv
    rw [finishPublish_rbuf]
    exact Or.inr ⟨acc.result, _, hc.result_line htake hline, rfl, by
      rw [finishPublish_fst]
      rfl, rfl, rfl⟩
  | @bodyTooLong typeName' key' acc rest hphase htake =>
    rw [hphase] at hinv
    obtain ⟨rfl, rfl, hc⟩ := hinv
    exact Or.inr ⟨none, _, hc.result_tooLong htake, rfl, rfl, rfl, rfl⟩
  | bodyLine => exact Or.inl ⟨rfl, rfl, rfl⟩
  | bodyNeed => exact Or.inl ⟨rfl, rfl, rfl⟩
  | greet hphase | noDrops hphase | drain hphase | flushed hphase | notice hphase
  | command hphase | commandTooLong hphase | commandNeed hphase | deliver hphase
  | remove hphase =>
    rw [hphase] at hin
    cases hin

/-- **A step of a task inside a body.** -/
theorem step_bodyStep (hinv : BodyReads limits typeName key buffered reads c)
    (hin : c.phase.inBody = true) (hstep : step limits fwd nowMs wake c h = some (c', h', done)) :
    BodyStep fwd typeName key (bodyResult limits buffered reads) c h wake c' h' done := by
  cases step_steps hstep with
  | go hgo =>
    rcases go_bodyStep hinv hin hgo with ⟨hin', rfl, htaking⟩ | ⟨body, e, hbody, he, hout, rfl, rfl⟩
    · exact .stays hin' htaking
    · exact .finished hbody he (by simp) hout
  | writeErr hgo hwrites =>
    rcases go_bodyStep hinv hin hgo with ⟨_, _, htaking⟩ | ⟨body, e, hbody, he, _, rfl, rfl⟩
    · obtain ⟨e, he, hwrite⟩ := List.any_eq_true.mp hwrites
      rw [(Effect.of_isTaking (List.all_eq_true.mp htaking e he)).2.1] at hwrite
      cases hwrite
    · rw [List.takeWhile_cons_of_pos (by simp [(Effect.of_isTaking he).2.1])]
      exact .unanswered hbody he rfl rfl
  | readBody => exact .stays rfl rfl
  | closedBody hphase =>
    unfold BodyReads at hinv
    rw [hphase] at hinv
    obtain ⟨_, _, hc, htake⟩ := hinv
    exact .lost (hc.result_need htake) rfl
  | read hphase | closed hphase | recv hphase | notified hphase =>
    simp [hphase, Phase.inBody] at hin

end Steps

end Conn

namespace Daemon

/-- The connection is inside the body of a `PUBLISH`. -/
def InBody (id : ℕ) (d : Daemon) : Prop := ∃ c, d.conn id = some c ∧ c.phase.inBody = true

/-- The octets a connection reads in an event. -/
def Event.readBy (id : ℕ) : Event → Option Bytes
  | .act (.task i _ (.read chunk)) => if i = id then some chunk else none
  | _ => none

/-- The octets a connection has read, one chunk a read. -/
def readsOf (id : ℕ) (es : List Event) : List Bytes := es.filterMap (Event.readBy id)

/-- What a connection has handed to the forwarder. -/
def handed (id : ℕ) (es : List Event) : List Effect := (effectsOf id es).filter Effect.isForward

/-- A message of this type is tail-dropped: the drop is counted and the writer woken. -/
structure TailDropped (typeName : Str) (ch ch' : Chan) : Prop where
  /-- The queue keeps its items. -/
  queue : ch'.queue = ch.queue
  /-- And its capacity. -/
  depth : ch'.depth = ch.depth
  /-- The connection stays. -/
  isOpen : ch'.isOpen = ch.isOpen
  /-- One more drop of the type is counted, in 64 bits. -/
  count : (ch'.drops.lookup typeName).getD 0 = ((ch.drops.lookup typeName).getD 0 + 1) % 2 ^ 64
  /-- The other counts stay. -/
  others : ∀ other, other ≠ typeName → ch'.drops.lookup other = ch.drops.lookup other
  /-- The writer is woken. -/
  permit : ch'.permit = true

/-- What becomes of the outbound state of a connection when a message is fanned out. -/
inductive FannedTo (msg : Message) (subscribed : Prop) (ch ch' : Chan) : Prop
  /-- There is room: a copy is queued, behind what is there. -/
  | queued : subscribed → ch.isOpen = true → ch.queue.length < ch.depth →
      ch' = { ch with queue := ch.queue ++ [.deliver msg] } → FannedTo msg subscribed ch ch'
  /-- There is none. -/
  | dropped : subscribed → ch.isOpen = true → ch.depth ≤ ch.queue.length →
      TailDropped msg.typeName ch ch' → FannedTo msg subscribed ch ch'
  /-- The connection is not subscribed, or has gone. -/
  | passed : ¬subscribed ∨ ch.isOpen = false → ch' = ch → FannedTo msg subscribed ch ch'

/-- A step publishes a message: it is numbered, recorded and fanned out, and handed to the
forwarder if there is one. -/
structure Published (fwd : Bool) (id : ℕ) (typeName : Str) (lines : List Str) (d d' : Daemon)
    (es : List Event) : Prop where
  /-- The number is used up and the id recorded; the tables stay. -/
  registry : d'.hub.registry = { d.hub.registry with
    seq := (d.hub.registry.seq + 1) % 2 ^ 64
    seen := (d.hub.registry.seen.insert d.hub.registry.msgId).2 }
  /-- Its id is in the seen-set. -/
  seen : d.hub.registry.msgId ∈ d'.hub.registry.seen.set
  /-- Every connection that is subscribed to the type gets a copy, or has a drop counted. -/
  chan : ∀ i, FannedTo ⟨typeName, d.hub.registry.msgId, d.hub.registry.daemonId, lines⟩
    (i ∈ d.hub.registry.subscribers typeName) (d.hub.chan i) (d'.hub.chan i)
  /-- It is fanned out once. -/
  fanOuts : fanOuts es = [⟨typeName, d.hub.registry.msgId, d.hub.registry.daemonId, lines⟩]
  /-- It is handed over once. -/
  handed : handed id es = if fwd then
    [.forwardLocal ⟨typeName, d.hub.registry.msgId, d.hub.registry.daemonId, lines⟩] else []

/-- A step of a connection has no effect: on no table, no queue and no peer link. -/
structure Untouched (id : ℕ) (d d' : Daemon) (es : List Event) : Prop where
  /-- The registry and all queues are as before. -/
  hub : d'.hub = d.hub
  /-- Nothing is fanned out. -/
  fanOuts : fanOuts es = []
  /-- Nothing is handed to the forwarder. -/
  handed : handed id es = []

/-- A step answers, unless the answer cannot be written. -/
def Answered (id : ℕ) (wake : Conn.Wake) (es : List Event) (text : Str) : Prop :=
  replies id es = if wake = .writeErr then [] else [text]

/-- How a `PUBLISH` ends in the step that leaves its body, with this result of `read_body`. -/
inductive Ends (fwd : Bool) (id : ℕ) (typeName key : Str) (d d' : Daemon) (wake : Conn.Wake)
    (es : List Event) : Option (Option (List Str)) → Prop
  /-- The message is published. -/
  | published {lines : List Str} : (∃ held, d.hub.registry.types.lookup typeName = some held ∧
        held.key = key) →
      Published fwd id typeName lines d d' es →
      Answered id wake es (statusLine status.ACCEPTED "message accepted".toList) →
      Ends fwd id typeName key d d' wake es (some (some lines))
  /-- The key is not that of the type any more. -/
  | refused {lines : List Str} (e : PublishError) :
      (¬∃ held, d.hub.registry.types.lookup typeName = some held ∧ held.key = key) →
      d.hub.registry.publishPrecheck typeName key = some e →
      Untouched id d d' es → Answered id wake es (statusLine e.code e.reason) →
      Ends fwd id typeName key d d' wake es (some (some lines))
  /-- The message is too large. -/
  | tooLarge : Untouched id d d' es →
      Answered id wake es (statusLine status.TOO_LARGE "message too large".toList) →
      Ends fwd id typeName key d d' wake es (some none)
  /-- The connection is lost. -/
  | lost : Untouched id d d' es → replies id es = [] →
      Ends fwd id typeName key d d' wake es none

section Publishing

variable {limits : Limits} {fwd : Bool} {d d' d₀ d₁ : Daemon} {past es : List Event}
  {id nowMs : ℕ} {wake : Conn.Wake} {typeName key daemonId : Str} {lines : List Str} {h h' : Hub}
  {done : List Effect}

/-- `publish_precheck` finds nothing where the table has the key. -/
theorem publishPrecheck_eq_none_iff (h : Hub) (typeName key : Str) :
    h.registry.publishPrecheck typeName key = none ↔
      ∃ held, h.registry.types.lookup typeName = some held ∧ held.key = key := by
  unfold Registry.publishPrecheck
  cases h.registry.types.lookup typeName with
  | none => simp
  | some held =>
    by_cases hkey : held.key = key
    · simp [hkey]
    · simp [hkey]

/-- **The two checks agree**: what `publish_precheck` finds is the error of `publish_local`. -/
theorem publishLocal_of_precheck {e : PublishError}
    (he : h.registry.publishPrecheck typeName key = some e) (lines : List Str) :
    h.publishLocal typeName key lines = (.error e, h) := by
  unfold Registry.publishPrecheck at he
  unfold Hub.publishLocal
  split at he
  · rw [← Option.some.inj he]
  · split at he
    · next hkey =>
      rw [← Option.some.inj he]
      exact if_pos hkey
    · cases he

/-- The seen-set of a daemon is well formed. -/
theorem seenWf_of_run
    (hrun : Transition.Run (Daemon.step limits fwd) Transition.anyStep (start daemonId limits) d
      past) : d.hub.registry.seen.Wf := by
  refine hrun.invariant (I := fun d _ => d.hub.registry.seen.Wf) (SeenSet.wf_new _)
    fun d _ a d' es hwf _ hstep => ?_
  cases a with
  | accept id =>
    obtain ⟨_, rfl, _⟩ := step_accept_eq_some_iff.mp hstep
    exact hwf
  | inbound made =>
    simp only [Daemon.step, Option.some.injEq, Prod.mk.injEq] at hstep
    obtain ⟨rfl, _⟩ := hstep
    cases made with
    | recordSeen msg => exact hwf.insert _
    | fanOut msg => simpa only [Hub.perform, Hub.fanoutLocked_registry] using hwf
    | applyRemoteRegistration typeName incoming =>
      simp only [Hub.perform]
      rcases hres : d.hub.registry.applyRemoteRegistration typeName incoming with ⟨_ | effective, r'⟩
      · obtain ⟨_, rfl⟩ := Registry.applyRemoteRegistration_eq_none_iff.mp hres
        exact hwf
      · obtain ⟨_, _, rfl⟩ := Registry.applyRemoteRegistration_eq_some_iff.mp hres
        exact hwf
  | task id nowMs wake =>
    obtain ⟨c, c', h', done, _, hconnStep, rfl, _⟩ := step_task_eq_some_iff.mp hstep
    obtain ⟨_, huses⟩ := Conn.step_uses hconnStep
    cases huses with
    | alone => exact hwf
    | channel => exact hwf
    | call made =>
      cases made with
      | registerLocal typeName key nowMs =>
        have hseen : (d.hub.registry.registerLocal typeName key nowMs).2.seen =
            d.hub.registry.seen := by
          unfold Registry.registerLocal
          split
          · rfl
          · split <;> rfl
        simpa only [Hub.execute, hseen] using hwf
      | publishLocal typeName key body =>
        simp only [Hub.execute]
        rcases hres : d.hub.publishLocal typeName key body with ⟨e | msg, h'⟩
        · rw [Hub.publishLocal_error hres]
          exact hwf
        · obtain ⟨_, _, rfl⟩ := Hub.publishLocal_eq_ok_iff.mp hres
          rw [Hub.fanoutLocked_registry]
          exact hwf.insert _
      | unsubscribe typeName =>
        simpa only [Hub.execute, (Cluster.sameTables_unsubscribe _ typeName c.id).seen] using hwf
      | removeConn types =>
        simpa only [Hub.execute, (Cluster.sameTables_removeConn _ c.id types).seen] using hwf
      | subscribe | listTypes | publishPrecheck => exact hwf

/-- What a connection reads, of all that is observed of a task. -/
theorem readsOf_task (id : ℕ) (h : Hub) (i nowMs : ℕ) (wake : Conn.Wake) (done : List Effect) :
    readsOf id (.act (.task i nowMs wake) :: (taken h i wake ++ done.flatMap (observe h i))) =
      if i = id then Conn.reads wake.received else [] := by
  have hquiet : (taken h i wake ++ done.flatMap (observe h i)).filterMap (Event.readBy id) = [] := by
    refine List.filterMap_eq_nil_iff.mpr fun e he => ?_
    rcases List.mem_append.mp he with he | he
    · unfold taken at he
      split at he
      · obtain ⟨out, _, rfl⟩ := List.mem_map.mp he
        rfl
      · cases he
    · obtain ⟨eff, _, he⟩ := List.mem_flatMap.mp he
      rcases List.mem_cons.mp he with rfl | he
      · rfl
      · obtain ⟨_, _, _, _, _, _, rfl⟩ := mem_fanned.mp he
        rfl
  unfold readsOf
  rw [List.filterMap_cons, hquiet]
  cases wake with
  | read chunk =>
    by_cases hi : i = id
    · simp [Event.readBy, Conn.Wake.received, Conn.reads, hi]
    · simp [Event.readBy, hi]
  | _ => simp [Event.readBy, Conn.Wake.received, Conn.reads]

/-- A peer link does not read from a connection. -/
theorem readsOf_received (id : ℕ) (h : Hub) (made : Section) :
    readsOf id (.act (.inbound made) :: received h made) = [] := by
  refine List.filterMap_eq_nil_iff.mpr fun e he => ?_
  rcases List.mem_cons.mp he with rfl | he
  · rfl
  · rcases cases_of_mem_received he with ⟨_, rfl⟩ | ⟨_, rfl⟩ | ⟨_, rfl⟩ <;> rfl

/-- **The task of one connection** in a run of the daemon: nothing that the daemon does
otherwise changes the connection, and what the task does is a run of the task by itself, on the
hubs that it finds. -/
theorem task_of_run {ok : Daemon → List Event → Action → Prop}
    (okTask : Conn → List Conn.Io → Hub × ℕ × Conn.Wake → Prop)
    (hok : ∀ d past nowMs wake c io, ok d past (.task id nowMs wake) → d.conn id = some c →
      c.id = id → okTask c io (d.hub, nowMs, wake))
    (hids : ∀ c, d₀.conn id = some c → c.id = id) {c₀ : Conn} (hconn : d₀.conn id = some c₀)
    (hrun : Transition.Run (Daemon.step limits fwd) ok d₀ d es) :
    ∃ c io, d.conn id = some c ∧ c.id = id ∧ Conn.reads io = readsOf id es ∧
      Conn.effects io = effectsOf id es ∧
      Transition.Run (Conn.task limits fwd) okTask c₀ c io := by
  have hreads : ∀ past es, readsOf id (past ++ es) = readsOf id past ++ readsOf id es :=
    fun past es => List.filterMap_append
  have heffects : ∀ past es, effectsOf id (past ++ es) = effectsOf id past ++ effectsOf id es :=
    fun past es => List.filterMap_append
  induction hrun with
  | init => exact ⟨c₀, [], hconn, hids c₀ hconn, rfl, rfl, .init⟩
  | @step d d' past es a _ ha hstep ih =>
    obtain ⟨c, io, hc, hself, hread, heffect, hrun⟩ := ih
    -- A step that is not one of the task leaves the connection as it is.
    have hother : d'.conn id = some c → readsOf id es = [] → effectsOf id es = [] →
        ∃ c io, d'.conn id = some c ∧ c.id = id ∧ Conn.reads io = readsOf id (past ++ es) ∧
          Conn.effects io = effectsOf id (past ++ es) ∧
          Transition.Run (Conn.task limits fwd) okTask c₀ c io := by
      intro hc' hread' heffect'
      refine ⟨c, io, hc', hself, ?_, ?_, hrun⟩
      · rw [hreads, hread', List.append_nil, hread]
      · rw [heffects, heffect', List.append_nil, heffect]
    cases a with
    | accept i =>
      obtain ⟨hnone, rfl, rfl⟩ := step_accept_eq_some_iff.mp hstep
      have hne : id ≠ i := by
        rintro rfl
        rw [hnone] at hc
        cases hc
      refine hother ?_ rfl rfl
      dsimp only
      rwa [Function.update_of_ne hne]
    | inbound made =>
      simp only [Daemon.step, Option.some.injEq, Prod.mk.injEq] at hstep
      obtain ⟨rfl, rfl⟩ := hstep
      exact hother hc (readsOf_received id _ made) (effectsOf_received id _ _ made)
    | task i nowMs wake =>
      obtain ⟨c₁, c', h', done, hconn₁, hconnStep, rfl, rfl⟩ := step_task_eq_some_iff.mp hstep
      by_cases hi : i = id
      · subst hi
        obtain rfl : c = c₁ := Option.some.inj (hc.symm.trans hconn₁)
        have htask : Conn.task limits fwd c (d.hub, nowMs, wake) =
            some (c', wake.received ++ done.map .did) := by
          simp only [Conn.task, hconnStep, Option.map_some]
        have hquiet : Conn.effects wake.received = [] := by cases wake <;> rfl
        refine ⟨c', _, by simp, (Conn.step_uses hconnStep).1.trans hself, ?_, ?_,
          .step hrun (hok _ _ _ _ _ _ ha hc hself) htask⟩
        · rw [hreads, readsOf_task, if_pos rfl, Conn.reads_append, Conn.reads_append,
            Conn.reads_did, List.append_nil, hread]
        · rw [heffects, effectsOf_task, if_pos rfl, Conn.effects_append, Conn.effects_append,
            Conn.effects_did, hquiet, List.nil_append, heffect]
      · refine hother ?_ ?_ ?_
        · dsimp only
          rwa [Function.update_of_ne (Ne.symm hi)]
        · rw [readsOf_task, if_neg hi]
        · rw [effectsOf_task, if_neg hi]

/-- What is observed of a step of a task, by its effects. -/
theorem observed_task (a : Action) (h : Hub) (id : ℕ) (wake : Conn.Wake) (done : List Effect) :
    let es := .act a :: (taken h id wake ++ done.flatMap (observe h id))
    fanOuts es = fanOuts ((calls done).flatMap fun made => fanned h id (.call made)) ∧
      handed id es = done.filter Effect.isForward ∧ replies id es = done.filterMap written := by
  have hmoves : ∀ es, fanOuts es = fanOuts (moves es) := by
    refine filterMap_moves fun e he => ?_
    cases e <;> first | rfl | cases he
  have htaken : fanOuts (taken h id wake) = [] := by
    refine List.filterMap_eq_nil_iff.mpr fun e he => ?_
    unfold taken at he
    split at he
    · obtain ⟨out, _, rfl⟩ := List.mem_map.mp he
      rfl
    · cases he
  refine ⟨?_, ?_, ?_⟩
  · rw [hmoves, moves_task]
    unfold fanOuts at htaken ⊢
    rw [List.filterMap_append, htaken, List.nil_append]
  · unfold handed
    rw [effectsOf_task, if_pos rfl]
  · unfold replies
    rw [effectsOf_task, if_pos rfl]

/-- Taking a line shows in none of these. -/
theorem observed_taking {e : Effect} (he : e.isTaking = true) (rest : List Effect) :
    calls (e :: rest) = calls rest ∧
      (e :: rest).filter Effect.isForward = rest.filter Effect.isForward ∧
      (e :: rest).filterMap written = rest.filterMap written := by
  cases e with
  | command | bodyLine | giveUp => exact ⟨rfl, rfl, rfl⟩
  | _ => cases he

/-- What `fanout_locked` does to the connections. -/
theorem fannedTo_fanoutLocked (h : Hub) (msg : Message) (i : ℕ) :
    FannedTo msg (i ∈ h.registry.subscribers msg.typeName) (h.chan i)
      ((h.fanoutLocked msg).chan i) := by
  rw [Hub.fanoutLocked_chan]
  by_cases hsub : i ∈ h.registry.subscribers msg.typeName
  · rw [if_pos hsub]
    cases hopen : (h.chan i).isOpen with
    | false => exact .passed (Or.inr hopen) (by simp [Chan.offer, Chan.hasRoom, hopen])
    | true =>
      by_cases hroom : (h.chan i).queue.length < (h.chan i).depth
      · exact .queued hsub hopen hroom (by simp [Chan.offer, Chan.hasRoom, hopen, hroom])
      · have hoffer : (h.chan i).offer msg = (h.chan i).recordDrop msg.typeName := by
          simp [Chan.offer, Chan.hasRoom, hopen, hroom]
        rw [hoffer]
        refine .dropped hsub hopen (Nat.le_of_not_lt hroom) ⟨rfl, rfl, rfl, ?_, ?_, rfl⟩
        · simp [Chan.recordDrop, AList.lookup_insert, u64Values]
        · intro other hne
          exact AList.lookup_insert_ne hne
  · rw [if_neg hsub]
    exact .passed (Or.inl hsub) rfl

/-- **How the end of a body is seen** by everyone. -/
theorem ends_of_finishPublish (hwf : d.hub.registry.seen.Wf) (fwd : Bool) (c : Conn)
    (typeName key : Str) (body : Option (List Str)) {e : Effect} (he : e.isTaking = true)
    (a : Action) (conn : ℕ → Option Conn)
    (hdone : wake ≠ .writeErr ∧
        done = e :: (Conn.finishPublish fwd c d.hub typeName key body).2.2 ∨
      wake = .writeErr ∧ done = e ::
        (Conn.finishPublish fwd c d.hub typeName key body).2.2.takeWhile fun e => !Conn.isWrite e) :
    Ends fwd id typeName key d
      ⟨(Conn.finishPublish fwd c d.hub typeName key body).2.1, conn⟩ wake
      (.act a :: (taken d.hub id wake ++ done.flatMap (observe d.hub id))) (some body) := by
  obtain ⟨hfanOuts, hhanded, hreplies⟩ := observed_task a d.hub id wake done
  -- What is called, forwarded and written, whether or not the answer can be written.
  have hview : ∀ (before : List Effect) (text : Str),
      (Conn.finishPublish fwd c d.hub typeName key body).2.2 = before ++ [.wrote text] →
      before.any Conn.isWrite = false →
      calls done = calls before ∧ done.filter Effect.isForward = before.filter Effect.isForward ∧
        done.filterMap written = if wake = .writeErr then [] else [text] := by
    intro before text heq hsilent
    have hunwritten : before.filterMap written = [] := by
      refine List.filterMap_eq_nil_iff.mpr fun e' he' => ?_
      have hwrite := List.any_eq_false.mp hsilent e' he'
      cases e' with
      | wrote => exact absurd rfl hwrite
      | _ => rfl
    rw [heq] at hdone
    rcases hdone with ⟨hwake, rfl⟩ | ⟨hwake, rfl⟩
    · obtain ⟨hcalls, hforward, hwritten⟩ := observed_taking he (before ++ [.wrote text])
      rw [hcalls, hforward, hwritten, if_neg hwake]
      unfold calls
      rw [List.filterMap_append, List.filter_append, List.filterMap_append, hunwritten]
      exact ⟨List.append_nil _, List.append_nil _, rfl⟩
    · have hstop : (before ++ [Effect.wrote text]).takeWhile (fun e => !Conn.isWrite e) = before := by
        rw [List.takeWhile_append_of_pos fun e' he' => by
          simpa using List.any_eq_false.mp hsilent e' he']
        simp [Conn.isWrite]
      obtain ⟨hcalls, hforward, hwritten⟩ := observed_taking he before
      rw [hstop, hcalls, hforward, hwritten, if_pos hwake, hunwritten]
      exact ⟨rfl, rfl, rfl⟩
  cases body with
  | none =>
    obtain ⟨hcalls, hforward, hwritten⟩ :=
      hview [] (statusLine status.TOO_LARGE "message too large".toList) rfl rfl
    exact .tooLarge ⟨rfl, by rw [hfanOuts, hcalls]; rfl, hhanded.trans hforward⟩
      (hreplies.trans hwritten)
  | some lines =>
    by_cases hheld : ∃ held, d.hub.registry.types.lookup typeName = some held ∧ held.key = key
    · obtain ⟨h', hok⟩ : ∃ h', d.hub.publishLocal typeName key lines =
          (.ok ⟨typeName, d.hub.registry.msgId, d.hub.registry.daemonId, lines⟩, h') :=
        ⟨_, Hub.publishLocal_eq_ok_iff.mpr ⟨hheld, rfl, rfl⟩⟩
      obtain ⟨_, _, hhub⟩ := Hub.publishLocal_eq_ok_iff.mp hok
      have hfinish : Conn.finishPublish fwd c d.hub typeName key (some lines) =
          ({ c with phase := .top }, h', (.call (.publishLocal typeName key lines) ::
            (if fwd then [Effect.forwardLocal
              ⟨typeName, d.hub.registry.msgId, d.hub.registry.daemonId, lines⟩] else [])) ++
            [.wrote (statusLine status.ACCEPTED "message accepted".toList)]) := by
        unfold Conn.finishPublish
        simp only [hok]
        rfl
      obtain ⟨hcalls, hforward, hwritten⟩ := hview _ _ (by rw [hfinish]) (by cases fwd <;> rfl)
      refine .published hheld ⟨?_, ?_, fun i => ?_, ?_, ?_⟩ (hreplies.trans hwritten)
      · rw [hfinish, hhub, Hub.fanoutLocked_registry]
        rfl
      · rw [hfinish, hhub, Hub.fanoutLocked_registry]
        exact hwf.mem_insert_self _
      · rw [hfinish, hhub]
        exact fannedTo_fanoutLocked { d.hub with registry := { d.hub.registry with
          seq := (d.hub.registry.seq + 1) % u64Values
          seen := (d.hub.registry.seen.insert d.hub.registry.msgId).2 } } _ i
      · have hone : calls (.call (.publishLocal typeName key lines) ::
            (if fwd then [Effect.forwardLocal
              ⟨typeName, d.hub.registry.msgId, d.hub.registry.daemonId, lines⟩] else [])) =
            [.publishLocal typeName key lines] := by
          cases fwd <;> rfl
        rw [hfanOuts, hcalls, hone]
        simp only [List.flatMap_cons, List.flatMap_nil, fanned, hok, List.append_nil]
        rfl
      · rw [hhanded, hforward]
        cases fwd <;> rfl
    · obtain ⟨err, herr⟩ := Option.ne_none_iff_exists'.mp
        ((publishPrecheck_eq_none_iff d.hub typeName key).not.mpr hheld)
      have herror := publishLocal_of_precheck herr lines
      have hfinish : Conn.finishPublish fwd c d.hub typeName key (some lines) =
          ({ c with phase := .top }, d.hub, [.call (.publishLocal typeName key lines)] ++
            [.wrote (statusLine err.code err.reason)]) := by
        unfold Conn.finishPublish
        simp only [herror]
        rfl
      obtain ⟨hcalls, hforward, hwritten⟩ := hview _ _ (by rw [hfinish]) rfl
      refine .refused err hheld herr ⟨?_, ?_, hhanded.trans hforward⟩ (hreplies.trans hwritten)
      · rw [hfinish]
      · rw [hfanOuts, hcalls]
        simp only [calls, Effect.asCall, List.filterMap_cons, List.filterMap_nil, List.flatMap_cons,
          List.flatMap_nil, fanned, herror]
        rfl

/-- **A step of the connection inside a body** is without effect and without answer, or ends
the `PUBLISH`. -/
theorem step_inBody (hwf : d.hub.registry.seen.Wf) {c : Conn} (hconn : d.conn id = some c)
    (hin : c.phase.inBody = true) {buffered : Bytes} {reads : List Bytes}
    (hinv : Conn.BodyReads limits typeName key buffered reads c)
    (hstep : Daemon.step limits fwd d (.task id nowMs wake) = some (d', es)) :
    InBody id d' ∧ Untouched id d d' es ∧ replies id es = [] ∨
      ¬InBody id d' ∧
        Ends fwd id typeName key d d' wake es (Conn.bodyResult limits buffered reads) := by
  obtain ⟨c₁, c', h', done, hconn₁, hconnStep, rfl, rfl⟩ := step_task_eq_some_iff.mp hstep
  obtain rfl : c = c₁ := Option.some.inj (hconn.symm.trans hconn₁)
  have hafter : ∀ (h : Hub), InBody id ⟨h, Function.update d.conn id (some c')⟩ ↔
      c'.phase.inBody = true := by
    intro h
    simp [InBody]
  obtain ⟨hfanOuts, hhanded, hreplies⟩ := observed_task (.task id nowMs wake) d.hub id wake done
  cases Conn.step_bodyStep hinv hin hconnStep with
  | stays hin' htaking =>
    have hnone : ∀ e ∈ done, e.asCall = none ∧ Conn.isWrite e = false ∧ e.isForward = false :=
      fun e he => Effect.of_isTaking (List.all_eq_true.mp htaking e he)
    have hcalls : calls done = [] := List.filterMap_eq_nil_iff.mpr fun e he => (hnone e he).1
    refine Or.inl ⟨(hafter _).mpr hin', ⟨rfl, ?_, ?_⟩, ?_⟩
    · rw [hfanOuts, hcalls]
      rfl
    · rw [hhanded]
      refine List.filter_eq_nil_iff.mpr fun e he => ?_
      rw [(hnone e he).2.2]
      exact Bool.false_ne_true
    · rw [hreplies]
      refine List.filterMap_eq_nil_iff.mpr fun e he => ?_
      have hwrite := (hnone e he).2.1
      cases e with
      | wrote => cases hwrite
      | _ => rfl
  | lost hresult hout =>
    rw [hresult]
    refine Or.inr ⟨fun hin' => ?_, .lost ⟨rfl, hfanOuts, hhanded⟩ hreplies⟩
    rw [hafter, hout] at hin'
    cases hin'
  | finished hresult he hwake hout =>
    rw [hresult]
    refine Or.inr ⟨fun hin' => ?_, ends_of_finishPublish hwf fwd c typeName key _ he _ _
      (Or.inl ⟨hwake, rfl⟩)⟩
    rw [hafter, hout] at hin'
    cases hin'
  | unanswered hresult he hwake hout =>
    rw [hresult]
    refine Or.inr ⟨fun hin' => ?_, ends_of_finishPublish hwf fwd c typeName key _ he _ _
      (Or.inr ⟨hwake, rfl⟩)⟩
    rw [hafter, hout] at hin'
    cases hin'

/-- **The line of a `PUBLISH`** has no effect. The body is awaited exactly where the key is
that of the type. -/
theorem publish_begins {c : Conn} {line rest : Bytes} (hconn : d.conn id = some c)
    (hphase : c.phase = .take)
    (htake : takeLine limits.maxCommandLineBytes c.rbuf = (.line line, rest))
    (hparse : command.parse (fromUtf8Lossy line) = .ok (.publish typeName key))
    (hstep : Daemon.step limits fwd d (.task id nowMs wake) = some (d₀, es)) :
    Untouched id d d₀ es ∧
      (∀ e, d.hub.registry.publishPrecheck typeName key = some e →
        ¬InBody id d₀ ∧ Answered id wake es (statusLine e.code e.reason)) ∧
      (d.hub.registry.publishPrecheck typeName key = none →
        Answered id wake es
            (statusLine status.START_BODY "enter message body; end with <CRLF>.<CRLF>".toList) ∧
          (wake = .writeErr → ¬InBody id d₀) ∧
          (wake ≠ .writeErr → d₀.conn id =
            some { c with rbuf := rest, phase := .body typeName key {} })) := by
  obtain ⟨c₁, c', h', done, hconn₁, hconnStep, rfl, rfl⟩ := step_task_eq_some_iff.mp hstep
  obtain rfl : c = c₁ := Option.some.inj (hconn.symm.trans hconn₁)
  obtain ⟨hfanOuts, hhanded, hreplies⟩ := observed_task (.task id nowMs wake) d.hub id wake done
  have hgo : Conn.go limits fwd nowMs c d.hub =
      let r := Conn.beginPublish { c with rbuf := rest } d.hub typeName key
      some (r.1, r.2.1, .command line :: r.2.2) := by
    rw [Conn.go_take hphase, htake]
    simp only [Conn.handleCommand, hparse]
  have hwake : wake = .go ∨ wake = .writeErr := by
    cases wake <;> simp [Conn.step, hphase] at hconnStep ⊢
  -- Both answers, whether or not they can be written.
  have hview : ∀ (phase : Phase) (text : Str),
      Conn.beginPublish { c with rbuf := rest } d.hub typeName key =
        ({ c with rbuf := rest, phase := phase }, d.hub,
          [.call (.publishPrecheck typeName key), .wrote text]) →
      h' = d.hub ∧ calls done = [.publishPrecheck typeName key] ∧
        done.filter Effect.isForward = [] ∧
        done.filterMap written = (if wake = .writeErr then [] else [text]) ∧
        (wake = .writeErr → c'.phase = .ended .io) ∧
        (wake ≠ .writeErr → c' = { c with rbuf := rest, phase := phase }) := by
    intro phase text hbegin
    rw [hbegin] at hgo
    rcases hwake with rfl | rfl
    · rw [Conn.step, hgo] at hconnStep
      obtain ⟨rfl, rfl, rfl⟩ := by
        simpa only [Option.some.injEq, Prod.mk.injEq] using hconnStep
      exact ⟨rfl, rfl, rfl, rfl, by simp, fun _ => rfl⟩
    · simp only [Conn.step, hgo] at hconnStep
      obtain ⟨_, rfl, rfl, rfl⟩ := by
        simpa only [Option.ite_none_right_eq_some, Option.some.injEq, Prod.mk.injEq] using hconnStep
      exact ⟨rfl, rfl, rfl, rfl, fun _ => rfl, by simp⟩
  have huntouched : calls done = [.publishPrecheck typeName key] →
      done.filter Effect.isForward = [] → h' = d.hub →
      Untouched id d ⟨h', Function.update d.conn id (some c')⟩
        (.act (.task id nowMs wake) :: (taken d.hub id wake ++ done.flatMap (observe d.hub id))) := by
    intro hcalls hforward hhub
    refine ⟨hhub, ?_, hhanded.trans hforward⟩
    rw [hfanOuts, hcalls]
    rfl
  have hafter : InBody id ⟨h', Function.update d.conn id (some c')⟩ ↔ c'.phase.inBody = true := by
    simp [InBody]
  rw [hafter]
  cases hcheck : d.hub.registry.publishPrecheck typeName key with
  | some e =>
    obtain ⟨hhub, hcalls, hforward, hwritten, herr, hok⟩ :=
      hview .top (statusLine e.code e.reason) (by simp only [Conn.beginPublish, hcheck]; rfl)
    refine ⟨huntouched hcalls hforward hhub, fun e' he' => ?_, fun hnone => by cases hnone⟩
    obtain rfl : e = e' := Option.some.inj he'
    refine ⟨fun hin => ?_, hreplies.trans hwritten⟩
    by_cases hwake' : wake = .writeErr
    · rw [herr hwake'] at hin
      cases hin
    · rw [hok hwake'] at hin
      cases hin
  | none =>
    obtain ⟨hhub, hcalls, hforward, hwritten, herr, hok⟩ :=
      hview (.body typeName key {}) (statusLine status.START_BODY
        "enter message body; end with <CRLF>.<CRLF>".toList)
        (by simp only [Conn.beginPublish, hcheck]; rfl)
    refine ⟨huntouched hcalls hforward hhub, fun e' he' => (by cases he'), fun _ =>
      ⟨hreplies.trans hwritten, fun hwake' hin => ?_, fun hwake' => ?_⟩⟩
    · rw [herr hwake'] at hin
      cases hin
    · dsimp only
      rw [Function.update_self, hok hwake']

/-- Something happens in a body only if it was entered. -/
theorem inBody_start
    (hrun : Transition.Run (Daemon.step limits fwd) (fun d _ _ => InBody id d) d₀ d₁ es)
    (hin : InBody id d₁) : InBody id d₀ := by
  induction hrun with
  | init => exact hin
  | step _ hguard _ ih => exact ih hguard

/-- A message that is published does not leave the counter alone. -/
theorem Published.not_untouched (hpub : Published fwd id typeName lines d d' es) :
    ¬Untouched id d d' es := by
  intro huntouched
  have hsame : d'.hub.registry = d.hub.registry := congrArg Hub.registry huntouched.hub
  have hcount := congrArg Registry.seq (hpub.registry.symm.trans hsame)
  dsimp only at hcount
  omega

/-- **A publish is all or nothing.** The line of a `PUBLISH` has no effect, and neither has any
step inside its body. In the step that leaves the body the message is published if and only
if `read_body` has a body and the table then has the presented key for the type; it is answered
with 250. In every other case that step has no effect either. Where the record of the type is
as it was at the 354, it is not answered with 430 or 441. -/
theorem publish_all_or_nothing {c : Conn} {line rest : Bytes}
    (hrun : Transition.Run (Daemon.step limits fwd) Transition.anyStep (start daemonId limits) d
      past)
    (hconn : d.conn id = some c) (hphase : c.phase = .take)
    (htake : takeLine limits.maxCommandLineBytes c.rbuf = (.line line, rest))
    (hparse : command.parse (fromUtf8Lossy line) = .ok (.publish typeName key))
    (hstep : Daemon.step limits fwd d (.task id nowMs wake) = some (d₀, es)) :
    Untouched id d d₀ es ∧
      (∀ e, d.hub.registry.publishPrecheck typeName key = some e →
        ¬InBody id d₀ ∧ Answered id wake es (statusLine e.code e.reason)) ∧
      (d.hub.registry.publishPrecheck typeName key = none →
        Answered id wake es
            (statusLine status.START_BODY "enter message body; end with <CRLF>.<CRLF>".toList) ∧
          (InBody id d₀ ↔ wake ≠ .writeErr)) ∧
      ∀ d₁ es₁ nowMs₂ wake₂ d₂ es₂,
        Transition.Run (Daemon.step limits fwd) (fun d _ _ => InBody id d) d₀ d₁ es₁ →
        InBody id d₁ →
        Daemon.step limits fwd d₁ (.task id nowMs₂ wake₂) = some (d₂, es₂) →
        (InBody id d₂ → Untouched id d₁ d₂ es₂ ∧ replies id es₂ = []) ∧
        (¬InBody id d₂ →
          Ends fwd id typeName key d₁ d₂ wake₂ es₂
            (Conn.bodyResult limits rest (readsOf id es₁)) ∧
          (∀ lines, Published fwd id typeName lines d₁ d₂ es₂ ↔
            Conn.bodyResult limits rest (readsOf id es₁) = some (some lines) ∧
              ∃ held, d₁.hub.registry.types.lookup typeName = some held ∧ held.key = key) ∧
          ((¬∃ lines, Published fwd id typeName lines d₁ d₂ es₂) → Untouched id d₁ d₂ es₂) ∧
          (d₁.hub.registry.types.lookup typeName = d.hub.registry.types.lookup typeName →
            replies id es₂ = [] ∨
              replies id es₂ = [statusLine status.ACCEPTED "message accepted".toList] ∨
              replies id es₂ = [statusLine status.TOO_LARGE "message too large".toList])) := by
  obtain ⟨huntouched, hrejected, hinvited⟩ := publish_begins hconn hphase htake hparse hstep
  refine ⟨huntouched, hrejected, fun hnone => ?_, ?_⟩
  · obtain ⟨hanswered, hcut, hopen⟩ := hinvited hnone
    refine ⟨hanswered, fun hin hwake => hcut hwake hin, fun hwake => ⟨_, hopen hwake, rfl⟩⟩
  · intro d₁ es₁ nowMs₂ wake₂ d₂ es₂ hbody hin hlast
    have hin₀ := inBody_start hbody hin
    have hnone : d.hub.registry.publishPrecheck typeName key = none := by
      cases hcheck : d.hub.registry.publishPrecheck typeName key with
      | none => rfl
      | some e => exact absurd hin₀ (hrejected e hcheck).1
    have hwake : wake ≠ .writeErr := fun hwake => (hinvited hnone).2.1 hwake hin₀
    have hconn₀ := (hinvited hnone).2.2 hwake
    have hreached := (Transition.Run.step hrun trivial hstep).trans hbody
    have hids₀ := (subscriptionInvariant_of_run (Transition.Run.step hrun trivial hstep)).ids
    have hinside : ∀ (d : Daemon) (past : List Event) (nowMs : ℕ) (wake : Conn.Wake) (c : Conn)
        (io : List Conn.Io), InBody id d → d.conn id = some c → c.id = id →
          c.phase.inBody = true := by
      rintro d past nowMs wake c io ⟨c', hc', hbody⟩ hc _
      obtain rfl : c = c' := Option.some.inj (hc.symm.trans hc')
      exact hbody
    obtain ⟨c₁, io, hconn₁, _, hreads, _, htask⟩ :=
      task_of_run (fun c _ _ => c.phase.inBody = true) hinside (hids₀ id) hconn₀ hbody
    have hinv := Conn.bodyReads_of_run rfl htask
    rw [hreads] at hinv
    obtain ⟨c₁', hconn₁', hin₁⟩ := hin
    obtain rfl : c₁ = c₁' := Option.some.inj (hconn₁.symm.trans hconn₁')
    rcases step_inBody (seenWf_of_run hreached) hconn₁ hin₁ hinv hlast with
      ⟨hin₂, hquiet⟩ | ⟨hout, hends⟩
    · exact ⟨fun _ => hquiet, fun hout => absurd hin₂ hout⟩
    · refine ⟨fun hin₂ => absurd hin₂ hout, fun _ => ⟨hends, ?_⟩⟩
      dsimp only at hends
      generalize Conn.bodyResult limits rest (readsOf id es₁) = result at hends ⊢
      have hheld := (publishPrecheck_eq_none_iff d.hub typeName key).mp hnone
      cases hends with
      | @published lines' held hpub hanswered =>
        refine ⟨fun lines => ⟨fun hpub' => ?_, fun ⟨hlines, _⟩ => ?_⟩,
          fun hnot => absurd ⟨lines', hpub⟩ hnot, fun _ => ?_⟩
        · have hsame := List.singleton_inj.mp (hpub.fanOuts.symm.trans hpub'.fanOuts)
          have hlines : lines' = lines := congrArg Message.body hsame
          exact ⟨by rw [hlines], held⟩
        · obtain rfl : lines' = lines := by simpa using hlines
          exact hpub
        · unfold Answered at hanswered
          split at hanswered
          · exact Or.inl hanswered
          · exact Or.inr (Or.inl hanswered)
      | refused e hnot _ hquiet =>
        refine ⟨fun lines => ⟨fun hpub => absurd hquiet hpub.not_untouched,
          fun ⟨_, held⟩ => absurd held hnot⟩, fun _ => hquiet, fun hsame => ?_⟩
        rw [hsame] at hnot
        exact absurd hheld hnot
      | tooLarge hquiet hanswered =>
        refine ⟨fun lines => ⟨fun hpub => absurd hquiet hpub.not_untouched,
          fun ⟨hlines, _⟩ => by cases hlines⟩, fun _ => hquiet, fun _ => ?_⟩
        unfold Answered at hanswered
        split at hanswered
        · exact Or.inl hanswered
        · exact Or.inr (Or.inr hanswered)
      | lost hquiet hsilent =>
        exact ⟨fun lines => ⟨fun hpub => absurd hquiet hpub.not_untouched,
          fun ⟨hlines, _⟩ => by cases hlines⟩, fun _ => hquiet, fun _ => Or.inl hsilent⟩

/-- Two connections, of which one subscribes to a type; the other registers it, and the line of a
`PUBLISH` arrives. -/
def publishArrives : List Action :=
  arrival 2 ++ arrives 2 (Str.asBytes "SUBSCRIBE t\r\n".toList) 4 ++
    arrival 1 ++ arrives 1 (Str.asBytes "REGISTER t k\r\n".toList) 4 ++
    arrives 1 (Str.asBytes "PUBLISH t k\r\n".toList) 1

/-- The body arrives, and its lines are taken up to the terminator. -/
def bodyArrives : List Action :=
  [.task 1 0 .go, .task 1 0 (.read (Str.asBytes "hi\r\n.\r\n".toList)), .task 1 0 .go]

/-- A peer takes the type over before. -/
def takeover : List Action :=
  .inbound (.applyRemoteRegistration "t".toList ⟨"z".toList, "d0".toList, 0⟩) :: bodyArrives

/-- A `PUBLISH` of which these are the steps inside the body, and at the end of which this holds. -/
theorem exists_publishing (body : List Action) (P : Daemon → Daemon → List Event → Bool)
    (htrace : ((Transition.exec (Daemon.step {} true) (fun _ _ _ => true) (start "d1".toList {}) []
      publishArrives).any fun p =>
        ((p.1.conn 1).any fun c => decide (c.phase = .take ∧
          takeLine ({} : Limits).maxCommandLineBytes c.rbuf =
            (.line (Str.asBytes "PUBLISH t k".toList), []))) &&
        (Daemon.step {} true p.1 (.task 1 0 .go)).any fun q =>
          (Transition.exec (Daemon.step {} true)
            (fun d _ _ => (d.conn 1).any fun c => c.phase.inBody) q.1 [] body).any fun r =>
              (r.1.conn 1).any (fun c => c.phase.inBody) &&
              (Daemon.step {} true r.1 (.task 1 0 .go)).any fun z =>
                !((z.1.conn 1).any fun c => c.phase.inBody) && P r.1 z.1 z.2) = true) :
    ∃ d past c d₀ es d₁ es₁ d₂ es₂,
      Transition.Run (Daemon.step {} true) Transition.anyStep (start "d1".toList {}) d past ∧
        d.conn 1 = some c ∧ c.phase = .take ∧
        takeLine ({} : Limits).maxCommandLineBytes c.rbuf =
          (.line (Str.asBytes "PUBLISH t k".toList), []) ∧
        Daemon.step {} true d (.task 1 0 .go) = some (d₀, es) ∧
        Transition.Run (Daemon.step {} true) (fun d _ _ => InBody 1 d) d₀ d₁ es₁ ∧ InBody 1 d₁ ∧
        Daemon.step {} true d₁ (.task 1 0 .go) = some (d₂, es₂) ∧ ¬InBody 1 d₂ ∧
        P d₁ d₂ es₂ = true := by
  simp only [Option.any_eq_true, Bool.and_eq_true, decide_eq_true_eq] at htrace
  obtain ⟨⟨d, past⟩, hexec, ⟨c, hconn, hphase, htake⟩, ⟨d₀, es⟩, hstep, ⟨d₁, es₁⟩, hbody, hin,
    ⟨d₂, es₂⟩, hlast, hout, hP⟩ := htrace
  have hinside : ∀ f : Daemon, ((f.conn 1).any fun c => c.phase.inBody) = true ↔ InBody 1 f := by
    intro f
    simp [InBody, Option.any_eq_true]
  refine ⟨d, past, c, d₀, es, d₁, es₁, d₂, es₂,
    (Transition.run_of_exec _ _ _ _ hexec).weaken fun _ _ _ _ => trivial, hconn, hphase, htake,
    hstep, (Transition.run_of_exec _ _ _ _ hbody).weaken fun f _ _ hf => (hinside f).mp hf,
    (hinside d₁).mp ((Option.any_eq_true _ _).mpr hin), hlast, fun hin₂ => ?_, hP⟩
  rw [(hinside d₂).mpr hin₂] at hout
  cases hout

/-- A message published at a quiet moment reaches the subscriber and is answered with 250; one
whose type is taken over meanwhile reaches nobody and is answered with 441. -/
theorem publish_all_or_nothing_ways :
    (∃ d d₀ es d₁ es₁ d₂ es₂,
      Daemon.step {} true d (.task 1 0 .go) = some (d₀, es) ∧
        Transition.Run (Daemon.step {} true) (fun d _ _ => InBody 1 d) d₀ d₁ es₁ ∧
        Daemon.step {} true d₁ (.task 1 0 .go) = some (d₂, es₂) ∧
        Published true 1 "t".toList ["hi".toList] d₁ d₂ es₂ ∧
        (d₁.hub.chan 2).queue = [] ∧
        (d₂.hub.chan 2).queue =
          [.deliver ⟨"t".toList, "d1-1".toList, "d1".toList, ["hi".toList]⟩] ∧
        replies 1 es₂ = [statusLine status.ACCEPTED "message accepted".toList]) ∧
    ∃ d d₀ es d₁ es₁ d₂ es₂,
      Daemon.step {} true d (.task 1 0 .go) = some (d₀, es) ∧
        Transition.Run (Daemon.step {} true) (fun d _ _ => InBody 1 d) d₀ d₁ es₁ ∧
        Daemon.step {} true d₁ (.task 1 0 .go) = some (d₂, es₂) ∧ Untouched 1 d₁ d₂ es₂ ∧
        replies 1 es₂ =
          [statusLine status.KEY_MISMATCH "authorization key mismatch".toList] := by
  have hparse : command.parse (fromUtf8Lossy (Str.asBytes "PUBLISH t k".toList)) =
      .ok (.publish "t".toList "k".toList) := by decide
  constructor
  · obtain ⟨d, past, c, d₀, es, d₁, es₁, d₂, es₂, hrun, hconn, hphase, htake, hstep, hbody, hin,
      hlast, hout, hP⟩ := exists_publishing bodyArrives (fun d₁ d₂ es₂ =>
        decide ((d₁.hub.chan 2).queue = [] ∧ (d₂.hub.chan 2).queue =
            [.deliver ⟨"t".toList, "d1-1".toList, "d1".toList, ["hi".toList]⟩] ∧
          (fanOuts es₂).map Message.body = [["hi".toList]] ∧
          replies 1 es₂ = [statusLine status.ACCEPTED "message accepted".toList])) (by decide)
    obtain ⟨hempty, hqueued, hfanOuts, hanswer⟩ := of_decide_eq_true hP
    obtain ⟨_, _, _, hrest⟩ := publish_all_or_nothing hrun hconn hphase htake hparse hstep
    obtain ⟨_, _, hnot, _⟩ := (hrest d₁ es₁ 0 .go d₂ es₂ hbody hin hlast).2 hout
    obtain ⟨lines, hpub⟩ : ∃ lines, Published true 1 "t".toList lines d₁ d₂ es₂ := by
      by_contra hnone
      rw [(hnot hnone).fanOuts] at hfanOuts
      cases hfanOuts
    have hlines : lines = ["hi".toList] := by
      rw [hpub.fanOuts] at hfanOuts
      exact (List.cons.inj hfanOuts).1
    rw [hlines] at hpub
    exact ⟨d, d₀, es, d₁, es₁, d₂, es₂, hstep, hbody, hlast, hpub, hempty, hqueued, hanswer⟩
  · obtain ⟨d, past, c, d₀, es, d₁, es₁, d₂, es₂, hrun, hconn, hphase, htake, hstep, hbody, hin,
      hlast, hout, hP⟩ := exists_publishing takeover (fun d₁ _ es₂ =>
        decide (d₁.hub.registry.types.lookup "t".toList = some ⟨"z".toList, "d0".toList, 0⟩ ∧
          replies 1 es₂ =
            [statusLine status.KEY_MISMATCH "authorization key mismatch".toList])) (by decide)
    obtain ⟨hheld, hanswer⟩ := of_decide_eq_true hP
    obtain ⟨_, _, _, hrest⟩ := publish_all_or_nothing hrun hconn hphase htake hparse hstep
    obtain ⟨_, hiff, hnot, _⟩ := (hrest d₁ es₁ 0 .go d₂ es₂ hbody hin hlast).2 hout
    refine ⟨d, d₀, es, d₁, es₁, d₂, es₂, hstep, hbody, hlast, hnot ?_, hanswer⟩
    rintro ⟨lines, hpub⟩
    obtain ⟨_, held, hlookup, hkey⟩ := (hiff lines).mp hpub
    rw [hheld] at hlookup
    rw [← Option.some.inj hlookup] at hkey
    exact absurd hkey (by decide)

end Publishing

end Daemon

end MacroBus
