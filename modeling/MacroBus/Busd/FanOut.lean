import MacroBus.Busd.FederationSteps
import MacroBus.Busd.MessageIds
import MacroBus.Busd.Subscriptions

/-!
# What is fanned out

A fan-out offers a message once to each connection that listens to its type. What a
connection takes from its queue and what is left there are the messages the queue took, in
the order of the fan-outs; those of this daemon are numbered in that order until the counter
has gone round.
-/

namespace MacroBus

namespace Daemon

/-- The message an event fans out. -/
def Event.fanOut : Event → Option Message
  | .fannedOut _ msg _ => some msg
  | _ => none

/-- The messages fanned out, oldest first. -/
def fanOuts (past : List Event) : List Message := past.filterMap Event.fanOut

/-- The message an event publishes on this daemon. -/
def Event.publication : Event → Option Message
  | .fannedOut (some _) msg _ => some msg
  | _ => none

/-- The messages published on this daemon, oldest first. -/
def published (past : List Event) : List Message := past.filterMap Event.publication

/-- The message an event puts into the queue of a connection. -/
def Event.queuedTo (id : ℕ) : Event → Option Message
  | .fannedOut _ msg queued => if id ∈ queued then some msg else none
  | _ => none

/-- The messages the queue of a connection took, oldest first. -/
def queuedTo (past : List Event) (id : ℕ) : List Message := past.filterMap (Event.queuedTo id)

/-- The message published on this daemon that an event puts into the queue. -/
def Event.ownQueuedTo (id : ℕ) : Event → Option Message
  | .fannedOut (some _) msg queued => if id ∈ queued then some msg else none
  | _ => none

/-- Those published on this daemon. -/
def ownQueuedTo (past : List Event) (id : ℕ) : List Message :=
  past.filterMap (Event.ownQueuedTo id)

/-- The item an event takes from the queue of a connection. -/
def Event.takenBy (id : ℕ) : Event → Option Outbound
  | .took id' out => if id' = id then some out else none
  | _ => none

/-- The items a connection has taken from its queue, oldest first. -/
def takenBy (past : List Event) (id : ℕ) : List Outbound := past.filterMap (Event.takenBy id)

/-- The id of the message with this sequence number. -/
def messageId (daemonId : Str) (n : ℕ) : Str := daemonId ++ '-' :: lowerHex n

/-- The sequence numbers of the messages increase. -/
def Increasing (daemonId : Str) (msgs : List Message) : Prop :=
  msgs.Pairwise fun msg msg' => ∃ n n', msg.msgId = messageId daemonId n ∧
    msg'.msgId = messageId daemonId n' ∧ n < n'

/-- Whether an event moves a message into a queue or out of it. -/
def Event.isMove : Event → Bool
  | .fannedOut .. | .took .. => true
  | _ => false

/-- The moves in the history. -/
def moves (past : List Event) : List Event := past.filter Event.isMove

/-- What a step can move. -/
inductive Moved (d d' : Daemon) : List Event → Prop
  /-- A connection is accepted, with a queue of its own. -/
  | accept {id : ℕ} {ch : Chan} : d.conn id = none → ch.queue = [] →
      d'.hub = { d.hub with chan := Function.update d.hub.chan id ch } → Moved d d' []
  /-- All queues stay as they are. -/
  | quiet : d'.hub.registry.daemonId = d.hub.registry.daemonId →
      d'.hub.registry.seq = d.hub.registry.seq →
      (∀ id, (d'.hub.chan id).queue = (d.hub.chan id).queue) → Moved d d' []
  /-- A connection takes an item from its queue. -/
  | took {id : ℕ} {out : Outbound} {queue : List Outbound} :
      (d.hub.chan id).queue = out :: queue →
      d'.hub = { d.hub with
        chan := Function.update d.hub.chan id { d.hub.chan id with queue := queue } } →
      Moved d d' [.took id out]
  /-- A connection publishes a message. -/
  | published {id : ℕ} {msg : Message} : msg.msgId = d.hub.registry.msgId →
      d'.hub = Hub.fanoutLocked { d.hub with registry := { d.hub.registry with
        seq := (d.hub.registry.seq + 1) % u64Values
        seen := (d.hub.registry.seen.insert d.hub.registry.msgId).2 } } msg →
      Moved d d' [.fannedOut (some id) msg (d.hub.recipients msg)]
  /-- A message from a peer is fanned out. -/
  | ingested {msg : Message} : d'.hub = d.hub.fanoutLocked msg →
      Moved d d' [.fannedOut none msg (d.hub.recipients msg)]

/-- What holds of queues and sequence numbers after every step. -/
structure QueueInvariant (daemonId : Str) (d : Daemon) (past : List Event) : Prop where
  /-- Nothing in a queue is lost, repeated or overtaken. -/
  queue : ∀ id, takenBy past id ++ (d.hub.chan id).queue = (queuedTo past id).map .deliver
  /-- The queue of a connection that was not accepted yet is untouched. -/
  fresh : ∀ id, d.conn id = none → queuedTo past id = []
  /-- The daemon keeps its name. -/
  name : d.hub.registry.daemonId = daemonId
  /-- It counts its messages. -/
  count : d.hub.registry.seq = ((published past).length + 1) % u64Values
  /-- And numbers them. -/
  ids : ∀ n msg, (published past)[n]? = some msg →
    msg.msgId = messageId daemonId ((n + 1) % u64Values)

section Histories

variable {h : Hub} {past es : List Event} {done : List Effect} {id i nowMs : ℕ}
  {wake : Conn.Wake} {a : Action} {msg : Message}

/-- The messages of this daemon in a queue are among those it has published, in their order. -/
theorem ownQueuedTo_sublist (past : List Event) (id : ℕ) :
    (ownQueuedTo past id).Sublist (published past) := by
  unfold ownQueuedTo published
  induction past with
  | nil => exact List.Sublist.slnil
  | cons e past ih =>
    cases e with
    | fannedOut publisher msg queued =>
      cases publisher with
      | none => exact ih
      | some p =>
        by_cases hid : id ∈ queued
        · simpa [Event.ownQueuedTo, Event.publication, hid] using ih
        · simpa [Event.ownQueuedTo, Event.publication, hid] using ih.cons msg
    | _ => exact ih

/-- Until the counter has gone round, messages are numbered from one. -/
theorem QueueInvariant.numbered {daemonId : Str} {d : Daemon}
    (hinv : QueueInvariant daemonId d past) (hbound : (published past).length < u64Values) {n : ℕ}
    (hn : (published past)[n]? = some msg) : msg.msgId = messageId daemonId (n + 1) := by
  obtain ⟨hlt, _⟩ := List.getElem?_eq_some_iff.mp hn
  have hid := hinv.ids n msg hn
  rwa [Nat.mod_eq_of_lt (by omega)] at hid

/-- **Numbered messages increase** until the counter has gone round. -/
theorem QueueInvariant.increasing_published {daemonId : Str} {d : Daemon}
    (hinv : QueueInvariant daemonId d past) (hbound : (published past).length < u64Values) :
    Increasing daemonId (published past) := by
  unfold Increasing
  rw [List.pairwise_iff_getElem]
  intro m n hm hn hmn
  have hidm := hinv.numbered hbound (List.getElem?_eq_getElem hm)
  have hidn := hinv.numbered hbound (List.getElem?_eq_getElem hn)
  exact ⟨m + 1, n + 1, hidm, hidn, by omega⟩

/-- Those that a queue took increase as well. -/
theorem QueueInvariant.increasing {daemonId : Str} {d : Daemon}
    (hinv : QueueInvariant daemonId d past) (hbound : (published past).length < u64Values) (id : ℕ) :
    Increasing daemonId (ownQueuedTo past id) :=
  List.Pairwise.sublist (ownQueuedTo_sublist past id) (hinv.increasing_published hbound)

/-- What only sees moves sees the moves of the history. -/
theorem filterMap_moves {β : Type} {f : Event → Option β}
    (hf : ∀ e, e.isMove = false → f e = none) (past : List Event) :
    past.filterMap f = (moves past).filterMap f := by
  unfold moves
  rw [List.filterMap_filter]
  refine List.filterMap_congr fun e _ => ?_
  cases hmove : e.isMove with
  | true => simp
  | false => simpa using hf e hmove

/-- The moves in what is observed of a task. -/
theorem moves_task : moves (.act a :: (taken h id wake ++ done.flatMap (observe h id))) =
    taken h id wake ++ (calls done).flatMap fun made => fanned h id (.call made) := by
  have htaken : (taken h id wake).filter Event.isMove = taken h id wake := by
    refine List.filter_eq_self.mpr fun e he => ?_
    unfold taken at he
    split at he
    · obtain ⟨out, _, rfl⟩ := List.mem_map.mp he
      rfl
    · cases he
  have hobserve : ∀ e, (observe h id e).filter Event.isMove = fanned h id e := by
    intro e
    have hself : (fanned h id e).filter Event.isMove = fanned h id e := by
      refine List.filter_eq_self.mpr fun x hx => ?_
      obtain ⟨_, _, _, _, _, _, rfl⟩ := mem_fanned.mp hx
      rfl
    unfold observe
    rw [List.filter_cons_of_neg (by simp [Event.isMove]), hself]
  have hdone : (done.flatMap (observe h id)).filter Event.isMove =
      (calls done).flatMap fun made => fanned h id (.call made) := by
    rw [List.filter_flatMap]
    simp only [hobserve]
    induction done with
    | nil => rfl
    | cons e done ih =>
      rw [List.flatMap_cons, ih]
      cases e <;> rfl
  unfold moves
  rw [List.filter_cons_of_neg (by simp [Event.isMove]), List.filter_append, htaken, hdone]

/-- What is taken from a queue adds up. -/
theorem takenBy_append (past es : List Event) (id : ℕ) :
    takenBy (past ++ es) id = takenBy past id ++ takenBy (moves es) id := by
  unfold takenBy
  rw [List.filterMap_append, filterMap_moves _ es]
  intro e he
  cases e <;> first | rfl | cases he

/-- What is put into it adds up. -/
theorem queuedTo_append (past es : List Event) (id : ℕ) :
    queuedTo (past ++ es) id = queuedTo past id ++ queuedTo (moves es) id := by
  unfold queuedTo
  rw [List.filterMap_append, filterMap_moves _ es]
  intro e he
  cases e <;> first | rfl | cases he

/-- Publications add up. -/
theorem published_append (past es : List Event) :
    published (past ++ es) = published past ++ published (moves es) := by
  unfold published
  rw [List.filterMap_append, filterMap_moves _ es]
  intro e he
  cases e <;> first | rfl | cases he

end Histories

section Steps

variable {limits : Limits} {fwd : Bool} {d d' : Daemon} {past es : List Event} {a : Action}
  {id nowMs : ℕ} {wake : Conn.Wake} {msg : Message}

/-- A registration keeps the name and the counter. -/
theorem registerLocal_counter (r : Registry) (typeName key : Str) (nowMs : ℕ) :
    (r.registerLocal typeName key nowMs).2.daemonId = r.daemonId ∧
      (r.registerLocal typeName key nowMs).2.seq = r.seq := by
  unfold Registry.registerLocal
  split
  · exact ⟨rfl, rfl⟩
  · split <;> exact ⟨rfl, rfl⟩

/-- What the call of a connection moves. -/
theorem moved_execute (d : Daemon) (id : ℕ) (made : Call) (conn : ℕ → Option Conn) :
    Moved d ⟨d.hub.execute id made, conn⟩ (fanned d.hub id (.call made)) := by
  cases made with
  | registerLocal typeName key nowMs =>
    obtain ⟨hname, hseq⟩ := registerLocal_counter d.hub.registry typeName key nowMs
    exact .quiet hname hseq fun _ => rfl
  | subscribe typeName => exact .quiet rfl rfl fun _ => rfl
  | unsubscribe typeName =>
    have hsame := Cluster.sameTables_unsubscribe d.hub.registry typeName id
    exact .quiet hsame.daemonId hsame.seq fun _ => rfl
  | listTypes => exact .quiet rfl rfl fun _ => rfl
  | publishPrecheck typeName key => exact .quiet rfl rfl fun _ => rfl
  | publishLocal typeName key body =>
    simp only [Hub.execute, fanned]
    rcases hres : d.hub.publishLocal typeName key body with ⟨e | msg, h'⟩
    · exact .quiet (by rw [Hub.publishLocal_error hres]) (by rw [Hub.publishLocal_error hres])
        fun _ => by rw [Hub.publishLocal_error hres]
    · obtain ⟨_, rfl, hhub⟩ := Hub.publishLocal_eq_ok_iff.mp hres
      exact .published rfl hhub
  | removeConn types =>
    have hsame := Cluster.sameTables_removeConn d.hub.registry id types
    refine .quiet hsame.daemonId hsame.seq fun i => ?_
    simp only [Hub.execute]
    by_cases hi : i = id
    · subst hi
      rw [Function.update_self]
    · rw [Function.update_of_ne hi]

/-- What a peer link moves. -/
theorem moved_perform (d : Daemon) (made : Section) :
    Moved d ⟨(d.hub.perform made).1, d.conn⟩ (moves (received d.hub made)) := by
  cases made with
  | recordSeen msg =>
    have hmoves : moves (received d.hub (.recordSeen msg)) = [] := by
      unfold received
      dsimp only
      split <;> rfl
    rw [hmoves]
    exact .quiet rfl rfl fun _ => rfl
  | fanOut msg => exact .ingested rfl
  | applyRemoteRegistration typeName incoming =>
    have hmoves : moves (received d.hub (.applyRemoteRegistration typeName incoming)) = [] := by
      refine List.filter_eq_nil_iff.mpr fun e he => ?_
      obtain ⟨_, _, rfl⟩ := List.mem_map.mp he
      exact Bool.false_ne_true
    rw [hmoves]
    simp only [Hub.perform]
    rcases hres : d.hub.registry.applyRemoteRegistration typeName incoming with ⟨_ | effective, r'⟩
    · obtain ⟨_, rfl⟩ := Registry.applyRemoteRegistration_eq_none_iff.mp hres
      exact .quiet rfl rfl fun _ => rfl
    · obtain ⟨_, _, rfl⟩ := Registry.applyRemoteRegistration_eq_some_iff.mp hres
      exact .quiet rfl rfl fun _ => rfl

/-- **What a step of the daemon moves.** -/
theorem moved_step (hids : ∀ id c, d.conn id = some c → c.id = id)
    (hstep : step limits fwd d a = some (d', es)) : Moved d d' (moves es) := by
  cases a with
  | accept id =>
    obtain ⟨hnone, rfl, rfl⟩ := step_accept_eq_some_iff.mp hstep
    exact .accept hnone rfl rfl
  | inbound made =>
    simp only [Daemon.step, Option.some.injEq, Prod.mk.injEq] at hstep
    obtain ⟨rfl, rfl⟩ := hstep
    exact moved_perform d made
  | task id nowMs wake =>
    obtain ⟨c, c', h', done, hconn, hconnStep, rfl, rfl⟩ := step_task_eq_some_iff.mp hstep
    obtain ⟨_, huses⟩ := Conn.step_uses hconnStep
    have hself := hids id c hconn
    rw [moves_task]
    have htaken : wake ≠ .recv → taken d.hub id wake = [] := by
      intro hne
      cases wake with
      | recv => exact absurd rfl hne
      | _ => rfl
    have hkept : ∀ ch : Chan, ch.queue = (d.hub.chan id).queue → ∀ i,
        (Function.update d.hub.chan id ch i).queue = (d.hub.chan i).queue := by
      intro ch hqueue i
      by_cases hi : i = id
      · subst hi
        rw [Function.update_self, hqueue]
      · rw [Function.update_of_ne hi]
    cases huses with
    | alone hwake hnone =>
      rw [htaken hwake, hnone]
      exact .quiet rfl rfl fun _ => rfl
    | channel hnone _ hown =>
      rw [hself] at hown ⊢
      rw [hnone, List.flatMap_nil, List.append_nil]
      cases hown with
      | drain => exact .quiet rfl rfl (hkept _ rfl)
      | recv hqueue =>
        simp only [taken, hqueue]
        exact .took hqueue rfl
      | notified => exact .quiet rfl rfl (hkept _ rfl)
    | call made hwake hmade hsubs hgone htypes =>
      rw [hself, htaken hwake, hmade, List.flatMap_singleton]
      exact moved_execute d id made _

/-- A step forgets no connection. -/
theorem conn_of_step (hstep : step limits fwd d a = some (d', es)) (hnone : d'.conn id = none) :
    d.conn id = none := by
  cases a with
  | accept i =>
    obtain ⟨_, rfl, _⟩ := step_accept_eq_some_iff.mp hstep
    by_cases hi : id = i
    · subst hi
      simp at hnone
    · simpa [Function.update_of_ne hi] using hnone
  | inbound made =>
    simp only [Daemon.step, Option.some.injEq, Prod.mk.injEq] at hstep
    obtain ⟨rfl, _⟩ := hstep
    exact hnone
  | task i nowMs wake =>
    obtain ⟨_, _, _, _, _, _, rfl, _⟩ := step_task_eq_some_iff.mp hstep
    by_cases hi : id = i
    · subst hi
      simp at hnone
    · simpa [Function.update_of_ne hi] using hnone

variable {daemonId : Str}

/-- The invariant holds when the daemon has started. -/
theorem queueInvariant_start (daemonId : Str) (limits : Limits) :
    QueueInvariant daemonId (start daemonId limits) [] where
  queue id := rfl
  fresh id _ := rfl
  name := rfl
  count := (by decide : 1 = (0 + 1) % u64Values)
  ids n msg h := by cases h

/-- What a fan-out puts into a queue. -/
theorem queuedTo_fannedOut (publisher : Option ℕ) (msg : Message) (queued : Finset ℕ) (id : ℕ) :
    queuedTo [.fannedOut publisher msg queued] id = if id ∈ queued then [msg] else [] := by
  unfold queuedTo
  by_cases hid : id ∈ queued
  · simp [Event.queuedTo, hid]
  · simp [Event.queuedTo, hid]

/-- A fan-out takes nothing from a queue. -/
theorem takenBy_fannedOut (publisher : Option ℕ) (msg : Message) (queued : Finset ℕ) (id : ℕ) :
    takenBy [.fannedOut publisher msg queued] id = [] := rfl

/-- What a connection takes. -/
theorem takenBy_took (i id : ℕ) (out : Outbound) :
    takenBy [.took i out] id = if i = id then [out] else [] := by
  unfold takenBy
  by_cases hi : i = id
  · simp [Event.takenBy, hi]
  · simp [Event.takenBy, hi]

/-- Taking an item puts nothing into a queue. -/
theorem queuedTo_took (i id : ℕ) (out : Outbound) : queuedTo [.took i out] id = [] := rfl

/-- The queues after a step. -/
theorem QueueInvariant.queue_step {ms : List Event} (hinv : QueueInvariant daemonId d past)
    (hmoved : Moved d d' ms) (id : ℕ) :
    takenBy past id ++ takenBy ms id ++ (d'.hub.chan id).queue =
      (queuedTo past id ++ queuedTo ms id).map .deliver := by
  have hqueue := hinv.queue id
  have hfannedOut : ∀ publisher msg, (d'.hub.chan id).queue = (d.hub.chan id).queue ++
      (if id ∈ d.hub.recipients msg then [.deliver msg] else []) →
      takenBy past id ++ takenBy [.fannedOut publisher msg (d.hub.recipients msg)] id ++
          (d'.hub.chan id).queue =
        (queuedTo past id ++
          queuedTo [.fannedOut publisher msg (d.hub.recipients msg)] id).map .deliver := by
    intro publisher msg hafter
    rw [hafter, takenBy_fannedOut, queuedTo_fannedOut, List.append_nil, List.map_append, ← hqueue,
      List.append_assoc]
    by_cases hid : id ∈ d.hub.recipients msg
    · rw [if_pos hid, if_pos hid]
      rfl
    · rw [if_neg hid, if_neg hid]
      rfl
  cases hmoved with
  | accept hnone hempty hhub =>
    rename_i i ch
    have hnothing : takenBy ([] : List Event) id = [] ∧ queuedTo [] id = [] := ⟨rfl, rfl⟩
    rw [hnothing.1, hnothing.2, List.append_nil, List.append_nil, ← hqueue, hhub]
    by_cases hi : id = i
    · subst hi
      rw [hinv.fresh id hnone] at hqueue
      have hbefore : (d.hub.chan id).queue = [] := (List.append_eq_nil_iff.mp hqueue).2
      dsimp only
      rw [Function.update_self, hempty, hbefore]
    · dsimp only
      rw [Function.update_of_ne hi]
  | quiet _ _ hsame =>
    have hnothing : takenBy ([] : List Event) id = [] ∧ queuedTo [] id = [] := ⟨rfl, rfl⟩
    rw [hnothing.1, hnothing.2, List.append_nil, List.append_nil, ← hqueue, hsame id]
  | took hitem hhub =>
    rename_i i out queue
    rw [takenBy_took, queuedTo_took, List.append_nil, ← hqueue, hhub]
    by_cases hi : id = i
    · subst hi
      dsimp only
      rw [if_pos rfl, Function.update_self, hitem, List.append_assoc]
      rfl
    · dsimp only
      rw [if_neg (fun heq => hi heq.symm), Function.update_of_ne hi, List.append_nil]
  | published hid hhub =>
    refine hfannedOut _ _ ?_
    rw [hhub]
    exact Hub.fanoutLocked_queue _ _ id
  | ingested hhub =>
    refine hfannedOut _ _ ?_
    rw [hhub]
    exact Hub.fanoutLocked_queue _ _ id

/-- **Every step keeps the queues to the fan-outs.** -/
theorem QueueInvariant.step (hinv : QueueInvariant daemonId d past)
    (hsub : SubscriptionInvariant d past) (hstep : step limits fwd d a = some (d', es)) :
    QueueInvariant daemonId d' (past ++ es) := by
  have hmoved := moved_step hsub.ids hstep
  have hstranger : ∀ id msg, d'.conn id = none → id ∉ d.hub.recipients msg := by
    intro id msg hnone hmem
    have hlistening := (hsub.listening id msg.typeName).mp (Finset.mem_filter.mp hmem).1
    exact hsub.not_listening (conn_of_step hstep hnone) msg.typeName hlistening
  obtain ⟨ms, hms⟩ : ∃ ms, moves es = ms := ⟨_, rfl⟩
  rw [hms] at hmoved
  constructor
  · intro id
    rw [takenBy_append, queuedTo_append, hms]
    exact hinv.queue_step hmoved id
  · intro id hnone
    rw [queuedTo_append, hinv.fresh id (conn_of_step hstep hnone), hms, List.nil_append]
    cases hmoved with
    | accept | quiet | took => rfl
    | published hid hhub => rw [queuedTo_fannedOut, if_neg (hstranger id _ hnone)]
    | ingested hhub => rw [queuedTo_fannedOut, if_neg (hstranger id _ hnone)]
  · cases hmoved with
    | accept _ _ hhub => rw [hhub]; exact hinv.name
    | quiet hname => rw [hname]; exact hinv.name
    | took _ hhub => rw [hhub]; exact hinv.name
    | published _ hhub => rw [hhub, Hub.fanoutLocked_registry]; exact hinv.name
    | ingested hhub => rw [hhub, Hub.fanoutLocked_registry]; exact hinv.name
  · rw [published_append, hms, List.length_append]
    cases hmoved with
    | accept _ _ hhub => rw [hhub]; exact hinv.count
    | quiet _ hseq => rw [hseq]; exact hinv.count
    | took _ hhub => rw [hhub]; exact hinv.count
    | published _ hhub =>
      rw [hhub, Hub.fanoutLocked_registry]
      dsimp only
      rw [hinv.count, Nat.mod_add_mod]
      rfl
    | ingested hhub => rw [hhub, Hub.fanoutLocked_registry]; exact hinv.count
  · intro n msg hget
    rw [published_append, hms] at hget
    have hnothing : ∀ {ms : List Event}, published ms = [] →
        (published past ++ published ms)[n]? = some msg →
        msg.msgId = messageId daemonId ((n + 1) % u64Values) := by
      intro ms hnone hget
      rw [hnone, List.append_nil] at hget
      exact hinv.ids n msg hget
    cases hmoved with
    | accept | quiet | took | ingested => exact hnothing rfl hget
    | published hid hhub =>
      rename_i i sent
      have hone : published [Event.fannedOut (some i) sent (d.hub.recipients sent)] = [sent] := rfl
      rw [hone] at hget
      rcases Nat.lt_trichotomy n (published past).length with hlt | rfl | hgt
      · rw [List.getElem?_append_left hlt] at hget
        exact hinv.ids n msg hget
      · rw [List.getElem?_concat_length] at hget
        rw [← Option.some.inj hget, hid]
        unfold Registry.msgId messageId
        rw [hinv.name, hinv.count]
      · rw [List.getElem?_eq_none (by simp; omega)] at hget
        cases hget

/-- The subscriptions of a daemon that runs. -/
theorem subscriptionInvariant_of_run
    (hrun : Transition.Run (Daemon.step limits fwd) Transition.anyStep (start daemonId limits) d
      past) : SubscriptionInvariant d past :=
  hrun.invariant (subscriptionInvariant_start daemonId limits)
    fun _ _ _ _ _ hinv _ hstep => hinv.step hstep

/-- Its queues and sequence numbers. -/
theorem queueInvariant_of_run
    (hrun : Transition.Run (Daemon.step limits fwd) Transition.anyStep (start daemonId limits) d
      past) : QueueInvariant daemonId d past :=
  hrun.invariant_of_reached (queueInvariant_start daemonId limits)
    fun _ _ _ _ _ hbefore hinv _ hstep => hinv.step (subscriptionInvariant_of_run hbefore) hstep

/-- A step fans out one message at most, and offers it once to every connection that
listens to its type. -/
theorem offered_of_fanOut (hsub : SubscriptionInvariant d past)
    (hstep : Daemon.step limits fwd d a = some (d', es)) (hmsg : msg ∈ fanOuts es) :
    fanOuts es = [msg] ∧ ∀ id,
      (Listening past id msg.typeName → d'.hub.chan id = (d.hub.chan id).offer msg) ∧
      (¬Listening past id msg.typeName → d'.hub.chan id = d.hub.chan id) := by
  have hmoved := moved_step hsub.ids hstep
  have hfanOuts : fanOuts es = fanOuts (moves es) := by
    refine filterMap_moves ?_ es
    intro e he
    cases e <;> first | rfl | cases he
  rw [hfanOuts] at hmsg ⊢
  have hoffered : ∀ sent, (∀ id, d'.hub.chan id =
      if id ∈ d.hub.registry.subscribers sent.typeName then (d.hub.chan id).offer sent
      else d.hub.chan id) → ∀ id,
      (Listening past id sent.typeName → d'.hub.chan id = (d.hub.chan id).offer sent) ∧
        (¬Listening past id sent.typeName → d'.hub.chan id = d.hub.chan id) := by
    intro sent hchan id
    rw [hchan id, ← hsub.listening]
    exact ⟨fun h => if_pos h, fun h => if_neg h⟩
  obtain ⟨ms, hms⟩ : ∃ ms, moves es = ms := ⟨_, rfl⟩
  rw [hms] at hmoved hmsg ⊢
  cases hmoved with
  | accept | quiet | took => cases hmsg
  | published _ hhub =>
    obtain rfl := List.mem_singleton.mp hmsg
    refine ⟨rfl, hoffered msg fun id => ?_⟩
    rw [hhub]
    exact Hub.fanoutLocked_chan _ msg id
  | ingested hhub =>
    obtain rfl := List.mem_singleton.mp hmsg
    refine ⟨rfl, hoffered msg fun id => ?_⟩
    rw [hhub]
    exact Hub.fanoutLocked_chan _ msg id

/-- **The subscriber table refines its reference model.** A fan-out offers one copy to
each connection that listens and none to the others; queues keep the order of the fan-outs,
and the sequence numbers increase until the counter has gone round; a connection knows its
own subscriptions; none is left when it is gone; and no type has an empty set. -/
theorem subscriber_table_refines_reference
    (hrun : Transition.Run (Daemon.step limits fwd) Transition.anyStep (start daemonId limits) d
      past) :
    (∀ a d' es msg, Daemon.step limits fwd d a = some (d', es) → msg ∈ fanOuts es →
      fanOuts es = [msg] ∧ ∀ id,
        (Listening past id msg.typeName → d'.hub.chan id = (d.hub.chan id).offer msg) ∧
        (¬Listening past id msg.typeName → d'.hub.chan id = d.hub.chan id)) ∧
      (∀ id, takenBy past id ++ (d.hub.chan id).queue = (queuedTo past id).map .deliver ∧
        ((published past).length < u64Values → Increasing daemonId (ownQueuedTo past id))) ∧
      (∀ id c, d.conn id = some c → ∀ typeName,
        typeName ∈ c.mySubs ↔ id ∈ d.hub.registry.subscribers typeName) ∧
      (∀ id c, d.conn id = some c → c.phase = .gone → ∀ typeName,
        id ∉ d.hub.registry.subscribers typeName) ∧
      ∀ typeName, d.hub.registry.subs.lookup typeName ≠ some ∅ := by
  have hsub := subscriptionInvariant_of_run hrun
  have hqueue := queueInvariant_of_run hrun
  refine ⟨fun a d' es msg hstep hmsg => offered_of_fanOut hsub hstep hmsg,
    fun id => ⟨hqueue.queue id, fun hbound => hqueue.increasing hbound id⟩,
    fun id c hconn => (hsub.mySubs id c hconn).2, fun id c hconn hgone typeName hmem => ?_,
    hsub.nonempty⟩
  exact ((hsub.listening id typeName).mp hmem).1 ((hsub.gone id c hconn).mp hgone)

/-- A connection subscribes, and another one registers the type and publishes. -/
def publishTrace : List Action :=
  arrival 1 ++ arrives 1 (Str.asBytes "SUBSCRIBE t\r\n".toList) 4 ++
    arrival 2 ++ arrives 2 (Str.asBytes "REGISTER t k\r\n".toList) 4 ++
    arrives 2 (Str.asBytes "PUBLISH t k\r\nhi\r\n.\r\n".toList) 6 ++ [.task 1 0 .recv]

/-- The subscriber takes the message, as the reference model says. -/
theorem subscriber_table_refines_reference_published : ∃ d past,
    Transition.Run (Daemon.step {} false) Transition.anyStep (start "d1".toList {}) d past ∧
      takenBy past 1 =
        [.deliver ⟨"t".toList, "d1-1".toList, "d1".toList, ["hi".toList]⟩] ∧
      takenBy past 1 ++ (d.hub.chan 1).queue = (queuedTo past 1).map .deliver ∧
      Increasing "d1".toList (ownQueuedTo past 1) ∧
      ∀ typeName, d.hub.registry.subs.lookup typeName ≠ some ∅ := by
  obtain ⟨d, past, hrun, htaken, hbound⟩ :=
    Transition.exists_run (Daemon.step {} false) (fun _ _ _ => true) (start "d1".toList {})
      publishTrace (P := fun _ past => takenBy past 1 =
        [.deliver ⟨"t".toList, "d1-1".toList, "d1".toList, ["hi".toList]⟩] ∧
        (published past).length < u64Values) (by decide)
  have hrun' : Transition.Run (Daemon.step {} false) Transition.anyStep (start "d1".toList {}) d past :=
    hrun.weaken fun _ _ _ _ => trivial
  obtain ⟨_, hqueues, _, _, hnonempty⟩ := subscriber_table_refines_reference hrun'
  obtain ⟨hqueue, hincreasing⟩ := hqueues 1
  exact ⟨d, past, hrun', htaken, hqueue, hincreasing hbound, hnonempty⟩

end Steps

end Daemon

end MacroBus
