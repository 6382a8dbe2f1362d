import MacroBus.Busd.Refinement
import MacroBus.Busd.Convergence

/-!
# From client to client

What a connection is sent, at the end of a network of octets, is what a client has published at
its other end. A message is published under the key of its type and passes daemons, links and
queues as it is; while the seen-sets remember, it arrives at most once. And when no octet is on
its way, the daemons agree about the owner of every type.
-/

namespace MacroBus

open Transition Connected

/-- A frame is queued toward a peer, or dropped. -/
def Event.isTransfer {ι : Type} : Event ι → Bool
  | .sent .. | .dropped .. => true
  | _ => false

namespace Network

variable {ι : Type} [DecidableEq ι]

/-- What happens at the daemon, if the event is that. -/
def Event.at (i : ι) : Event ι → Option Daemon.Event
  | .daemon k e => if k = i then some e else none
  | .cluster _ => none

/-- All that has happened at a daemon. -/
def historyOf (past : List (Event ι)) (i : ι) : List Daemon.Event := past.filterMap (Event.at i)

/-- What is observed of a step. -/
inductive Observed (C : Cluster ι) (n : Network ι) : List (Event ι) → Prop
  /-- The task of a connection takes a step. -/
  | task {i : ι} {id nowMs : ℕ} {wake : Conn.Wake} (done : List Effect) :
    Observed C n ((.act (.task id nowMs wake) :: (Daemon.taken (n.daemon i).hub id wake ++
      done.flatMap (Daemon.observe (n.daemon i).hub id))).map (.daemon i) ++
        ((calls done).flatMap fun made =>
          shown (n.daemon i).hub i (.did id (.call made))).map .cluster)
  /-- A peer link begins a call of the registry. -/
  | inbound {i peer : ι} (made : Inbound) :
    Observed C n ((.act (.inbound made.first) ::
        Daemon.received (n.daemon i).hub made.first).map (.daemon i) ++
      (shownInbound (n.daemon i).hub i peer made).map .cluster)
  /-- A peer link fans out a message. -/
  | fanOut {i : ι} (msg : Message) :
    Observed C n ((.act (.inbound (.fanOut msg)) ::
        Daemon.received (n.daemon i).hub (.fanOut msg)).map (.daemon i) ++
      [MacroBus.Event.fannedOut i msg ((n.daemon i).hub.recipients msg)].map .cluster)
  /-- A client connects. -/
  | accept {i : ι} {id : ℕ} : Observed C n [.daemon i (.act (.accept id))]
  /-- Frames are queued toward peers, if anything is observed. -/
  | quiet {es : List (Event ι)} (hquiet : ∀ e ∈ es, ∃ e', e = .cluster e' ∧ e'.isTransfer = true) :
    Observed C n es
  /-- A daemon restarts. -/
  | restart {i : ι} : Observed C n [.cluster (.restarted i)]

/-- What leads to an event that the cluster sees. -/
inductive Source (n : Network ι) (es : List (Event ι)) : MacroBus.Event ι → Prop
  /-- A call by a connection. -/
  | call {k : ι} {x : ℕ} {made : Call} {e : MacroBus.Event ι}
    (hcall : .daemon k (.did x (.call made)) ∈ es)
    (hshown : e ∈ shown (n.daemon k).hub k (.did x (.call made))) : Source n es e
  /-- A call by a peer link. -/
  | inbound {k peer : ι} {made : Inbound} {e : MacroBus.Event ι}
    (hshown : e ∈ shownInbound (n.daemon k).hub k peer made) : Source n es e
  /-- A fan-out by a peer link. -/
  | fanOut {k : ι} {msg : Message} :
    Source n es (.fannedOut k msg ((n.daemon k).hub.recipients msg))
  /-- A frame that is offered to a peer. -/
  | transfer {e : MacroBus.Event ι} (htransfer : e.isTransfer = true) : Source n es e
  /-- A restart. -/
  | restart {i : ι} : Source n es (.restarted i)

section Steps

variable {C : Cluster ι} {n n' : Network ι} {es past : List (Event ι)} {a : Action ι} {i : ι} {id : ℕ}

omit [DecidableEq ι] in
/-- **Every event has a source.** -/
theorem Observed.source (h : Observed C n es) {e : MacroBus.Event ι} (hmem : .cluster e ∈ es) :
    Source n es e := by
  have hnone : ∀ (k : ι) (done : List Daemon.Event), .cluster e ∉ done.map (Event.daemon k) := by
    intro k done hdone
    obtain ⟨_, _, heq⟩ := List.mem_map.mp hdone
    cases heq
  cases h with
  | @task k x nowMs wake done =>
    rcases List.mem_append.mp hmem with hmem | hmem
    · exact absurd hmem (hnone k _)
    · obtain ⟨_, hshown, heq⟩ := List.mem_map.mp hmem
      obtain rfl := Event.cluster.inj heq
      obtain ⟨made, hmade, hshown⟩ := List.mem_flatMap.mp hshown
      refine .call (List.mem_append_left _ (List.mem_map.mpr ⟨_, ?_, rfl⟩)) hshown
      refine List.mem_cons_of_mem _ (List.mem_append_right _ ?_)
      exact Daemon.did_mem_observe.mpr ⟨rfl, mem_calls.mp hmade⟩
  | @inbound k peer made =>
    rcases List.mem_append.mp hmem with hmem | hmem
    · exact absurd hmem (hnone k _)
    · obtain ⟨_, hshown, heq⟩ := List.mem_map.mp hmem
      obtain rfl := Event.cluster.inj heq
      exact .inbound hshown
  | @fanOut k msg =>
    rcases List.mem_append.mp hmem with hmem | hmem
    · exact absurd hmem (hnone k _)
    · obtain rfl := Event.cluster.inj (List.mem_singleton.mp hmem)
      exact .fanOut
  | accept => simp at hmem
  | quiet hquiet =>
    obtain ⟨_, heq, htransfer⟩ := hquiet _ hmem
    obtain rfl := Event.cluster.inj heq
    exact .transfer htransfer
  | restart =>
    obtain rfl := Event.cluster.inj (List.mem_singleton.mp hmem)
    exact .restart

omit [DecidableEq ι] in
/-- Nothing may be observed. -/
theorem Observed.nothing : Observed C n [] := .quiet (by simp)

/-- What is observed of a turn. -/
theorem observed_perform {m : Network ι} {peer : ι} {fromPeer : Str} {made : Option Inbound}
    (h : m.perform C i peer fromPeer made = some (n', es)) (hsame : m.daemon = n.daemon) :
    Observed C n es := by
  cases made with
  | none =>
    obtain ⟨_, rfl⟩ := Prod.mk.inj (Option.some.inj h)
    exact .nothing
  | some made =>
    simp only [perform, act, Option.map_eq_some_iff, Prod.mk.injEq, hsame] at h
    obtain ⟨⟨d, done⟩, hdaemon, _, rfl⟩ := h
    simp only [Daemon.step, Option.some.injEq, Prod.mk.injEq] at hdaemon
    obtain ⟨_, rfl⟩ := hdaemon
    exact .inbound made

/-- **What is observed of every step.** -/
theorem observed (hstep : n.step C a = some (n', es)) : Observed C n es := by
  cases a with
  | accept i id =>
    simp only [step, act, Option.map_eq_some_iff, Prod.mk.injEq] at hstep
    obtain ⟨⟨d, done⟩, hdaemon, _, rfl⟩ := hstep
    obtain ⟨_, _, rfl⟩ := Daemon.step_accept_eq_some_iff.mp hdaemon
    exact .accept
  | task i id nowMs wake =>
    simp only [step, act, Option.map_eq_some_iff, Prod.mk.injEq] at hstep
    obtain ⟨⟨d, done⟩, hdaemon, _, rfl⟩ := hstep
    obtain ⟨_, _, _, effects, _, _, _, rfl⟩ := Daemon.step_task_eq_some_iff.mp hdaemon
    dsimp only
    rw [shown_task]
    exact .task effects
  | fanOut i k =>
    simp only [step, fanOut] at hstep
    split at hstep
    · next msg exclude hk =>
      obtain ⟨⟨d, done⟩, hdaemon, heq⟩ := Option.map_eq_some_iff.mp hstep
      obtain ⟨_, rfl⟩ := Prod.mk.inj heq
      simp only [Daemon.step, Option.some.injEq, Prod.mk.injEq] at hdaemon
      obtain ⟨_, rfl⟩ := hdaemon
      exact .fanOut msg
    · cases hstep
  | broadcast i k =>
    simp only [step] at hstep
    split at hstep
    · obtain ⟨_, rfl⟩ := Prod.mk.inj (Option.some.inj hstep)
      refine .quiet fun e he => ?_
      obtain ⟨j, _, rfl⟩ := List.mem_map.mp he
      refine ⟨_, rfl, ?_⟩
      split <;> rfl
    · cases hstep
  | readBack i j =>
    simp only [step] at hstep
    split at hstep
    · exact observed_perform hstep rfl
    · cases hstep
  | read i peer k =>
    simp only [step] at hstep
    split at hstep
    · obtain ⟨p, _, hperform⟩ := Option.bind_eq_some_iff.mp hstep
      exact observed_perform hperform rfl
    · cases hstep
  | restart i kept =>
    simp only [step, Option.some.injEq, Prod.mk.injEq] at hstep
    obtain ⟨_, rfl⟩ := hstep
    exact .restart
  | push i j =>
    simp only [step] at hstep
    split at hstep
    · obtain ⟨_, rfl⟩ := Prod.mk.inj (Option.some.inj hstep)
      refine .quiet fun e he => ⟨_, List.mem_singleton.mp he, ?_⟩
      split <;> rfl
    · cases hstep
  | greet i peer k =>
    simp only [step] at hstep
    split at hstep
    · obtain ⟨p, _, heq⟩ := Option.map_eq_some_iff.mp hstep
      obtain ⟨_, rfl⟩ := Prod.mk.inj heq
      exact .nothing
    · cases hstep
  | fail i peer k =>
    obtain ⟨p, _, heq⟩ := Option.map_eq_some_iff.mp hstep
    obtain ⟨_, rfl⟩ := Prod.mk.inj heq
    exact .nothing
  | lose i j m =>
    simp only [step] at hstep
    split at hstep
    · cases hstep
    · obtain ⟨_, rfl⟩ := Prod.mk.inj (Option.some.inj hstep)
      exact .nothing
  | _ =>
    simp only [step] at hstep
    split at hstep
    · obtain ⟨_, rfl⟩ := Prod.mk.inj (Option.some.inj hstep)
      exact .nothing
    · cases hstep

omit [DecidableEq ι] in
/-- What the cluster sees has happened. -/
theorem mem_seen {e : MacroBus.Event ι} : e ∈ past.filterMap Event.seen ↔ .cluster e ∈ past := by
  constructor
  · intro h
    obtain ⟨e', he', hseen⟩ := List.mem_filterMap.mp h
    cases e' with
    | daemon => cases hseen
    | cluster e' =>
      obtain rfl := Option.some.inj hseen
      exact he'
  · exact fun h => List.mem_filterMap.mpr ⟨_, h, rfl⟩

/-- Histories add up. -/
theorem historyOf_append (past es : List (Event ι)) (i : ι) :
    historyOf (past ++ es) i = historyOf past i ++ historyOf es i := List.filterMap_append

/-- What a daemon does is in its history only. -/
theorem historyOf_act (i k : ι) (es : List Daemon.Event) (shown : List (MacroBus.Event ι)) :
    historyOf (es.map (Event.daemon i) ++ shown.map Event.cluster) k = if i = k then es else [] := by
  have hcluster : (shown.map Event.cluster).filterMap (Event.at k) = [] := by
    refine List.filterMap_eq_nil_iff.mpr fun e he => ?_
    obtain ⟨_, _, rfl⟩ := List.mem_map.mp he
    rfl
  unfold historyOf
  rw [List.filterMap_append, hcluster, List.append_nil, List.filterMap_map]
  by_cases hi : i = k
  · rw [if_pos hi]
    have hsome : (Event.at k ∘ Event.daemon i) = some := funext fun e => if_pos hi
    rw [hsome, List.filterMap_some]
  · rw [if_neg hi]
    exact List.filterMap_eq_nil_iff.mpr fun e _ => if_neg hi

/-- A life is the last part of a history. -/
theorem lifeOf_suffix (past : List (Event ι)) (i : ι) : lifeOf past i <:+ historyOf past i := by
  induction past using List.reverseRecOn with
  | nil => exact List.suffix_rfl
  | append_singleton past e ih =>
    rw [lifeOf_append, historyOf_append, List.foldl_cons, List.foldl_nil]
    obtain ⟨before, hbefore⟩ := ih
    cases e with
    | daemon k e =>
      refine ⟨before, ?_⟩
      by_cases hk : k = i
      · have hone : historyOf [Event.daemon k e] i = [e] := by simp [historyOf, Event.at, hk]
        simp only [lifeStep, if_pos hk]
        rw [hone, ← hbefore, List.append_assoc]
      · have hnone : historyOf [Event.daemon k e] i = [] := by simp [historyOf, Event.at, hk]
        simp only [lifeStep, if_neg hk]
        rw [hnone, ← hbefore, List.append_nil]
    | cluster e =>
      have hnone : historyOf [Event.cluster e] i = [] := rfl
      rw [hnone, List.append_nil]
      cases e with
      | restarted k =>
        simp only [lifeStep]
        split
        · exact List.nil_suffix
        · exact ⟨before, hbefore⟩
      | _ => exact ⟨before, hbefore⟩

/-- **A call is queued as the cluster sees it.** -/
theorem queuedTo_fanned (h : Hub) (k i : ι) (x id : ℕ) (made : Call) :
    deliveries (shown h k (.did x (.call made))) i id =
      if k = i then Daemon.queuedTo (Daemon.fanned h x (.call made)) id else [] := by
  cases made with
  | publishLocal typeName key body =>
    simp only [shown, Daemon.fanned]
    rcases hres : (h.publishLocal typeName key body).1 with e | msg
    · simp [deliveries, Daemon.queuedTo]
    · obtain ⟨⟨held, hheld, _⟩, _, _⟩ := Hub.publishLocal_eq_ok_iff.mp (Prod.ext hres rfl)
      rw [hheld]
      by_cases hk : k = i <;> by_cases hid : id ∈ h.recipients msg <;>
        simp [deliveries, Daemon.queuedTo, Event.delivery, Daemon.Event.queuedTo, hk, hid]
  | registerLocal typeName key nowMs =>
    simp only [shown, Daemon.fanned]
    split <;> simp [deliveries, Daemon.queuedTo, Event.delivery]
  | _ => simp [shown, Daemon.fanned, deliveries, Daemon.queuedTo]

omit [DecidableEq ι] in
/-- Nothing is queued when a peer link begins a call. -/
theorem queuedTo_first (h : Hub) (id : ℕ) (made : Inbound) :
    Daemon.queuedTo (.act (.inbound made.first) :: Daemon.received h made.first) id = [] := by
  refine List.filterMap_eq_nil_iff.mpr fun e he => ?_
  rcases List.mem_cons.mp he with rfl | he
  · rfl
  · cases made with
    | ingestRemote msg =>
      simp only [Inbound.first, Daemon.received] at he
      split at he
      · rw [List.mem_singleton.mp he]
        rfl
      · cases he
    | applyRemoteRegistration typeName incoming =>
      obtain ⟨_, _, rfl⟩ := List.mem_map.mp he
      rfl

/-- Nor does the cluster see anything queued. -/
theorem deliveries_shownInbound (h : Hub) (k peer i : ι) (id : ℕ) (made : Inbound) :
    deliveries (shownInbound h k peer made) i id = [] := by
  cases made with
  | ingestRemote msg => rfl
  | applyRemoteRegistration typeName incoming =>
    refine List.filterMap_eq_nil_iff.mpr fun e he => ?_
    obtain ⟨reg, _, rfl⟩ := Option.map_eq_some_iff.mp (Option.mem_toList.mp he)
    rfl

/-- **A message from a peer is queued as the cluster sees it.** -/
theorem queuedTo_received (h : Hub) (k i : ι) (id : ℕ) (msg : Message) :
    deliveries [.fannedOut k msg (h.recipients msg)] i id =
      if k = i then Daemon.queuedTo (.act (.inbound (.fanOut msg)) ::
        Daemon.received h (.fanOut msg)) id else [] := by
  by_cases hk : k = i <;> by_cases hqueued : id ∈ h.recipients msg <;>
    simp [Daemon.received, deliveries, Event.delivery, Daemon.queuedTo, Daemon.Event.queuedTo,
      List.filterMap_cons, hk, hqueued]

/-- **What a step queues for a connection** is what the cluster sees of it. -/
theorem Observed.queuedTo (h : Observed C n es) (i : ι) (id : ℕ) :
    Daemon.queuedTo (historyOf es i) id = deliveries (es.filterMap Event.seen) i id := by
  cases h with
  | @task k x nowMs wake done =>
    rw [historyOf_act, seen_act]
    have hmoves := Daemon.queuedTo_append [] (.act (.task x nowMs wake) ::
      (Daemon.taken (n.daemon k).hub x wake ++
        done.flatMap (Daemon.observe (n.daemon k).hub x))) id
    have htaken : Daemon.queuedTo (Daemon.taken (n.daemon k).hub x wake) id = [] := by
      refine List.filterMap_eq_nil_iff.mpr fun e he => ?_
      unfold Daemon.taken at he
      split at he
      · obtain ⟨_, _, rfl⟩ := List.mem_map.mp he
        rfl
      · cases he
    rw [List.nil_append, Daemon.moves_task] at hmoves
    have hcalls : deliveries ((calls done).flatMap fun made =>
        shown (n.daemon k).hub k (.did x (.call made))) i id =
        if k = i then Daemon.queuedTo ((calls done).flatMap fun made =>
          Daemon.fanned (n.daemon k).hub x (.call made)) id else [] := by
      unfold deliveries Daemon.queuedTo
      rw [List.filterMap_flatMap, List.filterMap_flatMap]
      by_cases hk : k = i
      · rw [if_pos hk]
        refine List.flatMap_congr fun made _ => ?_
        have hmade := queuedTo_fanned (n.daemon k).hub k i x id made
        rwa [if_pos hk] at hmade
      · rw [if_neg hk]
        refine List.flatMap_eq_nil_iff.mpr fun made _ => ?_
        have hmade := queuedTo_fanned (n.daemon k).hub k i x id made
        rwa [if_neg hk] at hmade
    rw [hcalls]
    split
    · rw [hmoves]
      unfold Daemon.queuedTo at htaken ⊢
      rw [List.filterMap_append, htaken, List.nil_append]
      rfl
    · rfl
  | @inbound k peer made =>
    rw [historyOf_act, seen_act, deliveries_shownInbound]
    split
    · exact queuedTo_first _ id made
    · rfl
  | @fanOut k msg =>
    rw [historyOf_act, seen_act, queuedTo_received]
    split <;> rfl
  | @accept k x =>
    have hnone : Daemon.queuedTo (historyOf [.daemon k (.act (.accept x))] i) id = [] := by
      by_cases hk : k = i <;>
        simp [historyOf, Event.at, hk, Daemon.queuedTo, Daemon.Event.queuedTo]
    rw [hnone]
    rfl
  | quiet hquiet =>
    have hhistory : historyOf es i = [] := by
      refine List.filterMap_eq_nil_iff.mpr fun e he => ?_
      obtain ⟨_, rfl, _⟩ := hquiet e he
      rfl
    rw [hhistory, deliveries_quiet]
    · rfl
    · intro e he
      obtain ⟨e', he', hseen⟩ := List.mem_filterMap.mp he
      obtain ⟨transfer, rfl, htransfer⟩ := hquiet e' he'
      obtain rfl := Option.some.inj hseen
      cases transfer with
      | sent | dropped => rfl
      | _ => cases htransfer
  | restart => rfl

/-- **What is queued for a connection** is what the cluster sees of it. -/
theorem queuedTo_of_run {ok : Network ι → List (Event ι) → Action ι → Prop}
    (hrun : Run (fun n a => n.step C a) ok (initial C) n past) (i : ι) (id : ℕ) :
    Daemon.queuedTo (historyOf past i) id = deliveries (past.filterMap Event.seen) i id := by
  refine Run.invariant (I := fun _ past => Daemon.queuedTo (historyOf past i) id =
    deliveries (past.filterMap Event.seen) i id) rfl ?_ hrun
  intro n past a n' es ih _ hstep
  have hes := (observed hstep).queuedTo i id
  unfold Daemon.queuedTo at ih hes ⊢
  rw [historyOf_append, List.filterMap_append, List.filterMap_append, deliveries_append, ih, hes]

/-- Without restarts, a history is one life. -/
theorem lifeOf_eq_historyOf (halive : ∀ k, .cluster (.restarted k) ∉ past) (i : ι) :
    lifeOf past i = historyOf past i := by
  induction past using List.reverseRecOn with
  | nil => rfl
  | append_singleton past e ih =>
    have hbefore : ∀ k, .cluster (.restarted k) ∉ past :=
      fun k hk => halive k (List.mem_append_left _ hk)
    rw [lifeOf_append, historyOf_append, List.foldl_cons, List.foldl_nil, ih hbefore]
    cases e with
    | daemon k e => by_cases hk : k = i <;> simp [lifeStep, historyOf, Event.at, hk]
    | cluster e =>
      have hnone : historyOf [Event.cluster e] i = [] := rfl
      rw [hnone, List.append_nil]
      cases e with
      | restarted k => exact absurd (List.mem_append_right _ (List.mem_singleton_self _)) (halive k)
      | _ => rfl

end Steps

/-- A client of the daemon has published the message, with the key under which the table held its
type at that moment. -/
def PublishedAt (C : Cluster ι) (past : List (Event ι)) (j : ι) (msg : Message) : Prop :=
  ∃ n before a n' es after client key held,
    Run (fun n a => n.step C a) clocked (initial C) n before ∧ n.step C a = some (n', es) ∧
    past = before ++ (es ++ after) ∧
    .daemon j (.did client (.call (.publishLocal msg.typeName key msg.body))) ∈ es ∧
    msg.origin = (C.config j).daemonId ∧
    (n.daemon j).hub.registry.types.lookup msg.typeName = some held ∧ held.key = key

section Published

variable {C : Cluster ι} {n : Network ι} {s : Net ι} {es past : List (Event ι)} {i j : ι} {id : ℕ}
  {msg : Message}

/-- What holds of messages on their way, whether daemons restart or not. -/
structure OnlyPublished (s : Net ι) (past : List (MacroBus.Event ι)) : Prop where
  /-- Frames on links carry published messages. -/
  links : ∀ a b msg, (s.link a b).Holds (.feed msg) → WasPublished past msg
  /-- So do frames about to be broadcast. -/
  tasks : ∀ a msg, s.Pending a (.feed msg) → WasPublished past msg
  /-- Only published messages are queued for connections. -/
  queued : ∀ i id, ∀ msg ∈ deliveries past i id, WasPublished past msg

/-- A step puts only published messages on their way. -/
theorem OnlyPublished.step {s' : Net ι} {a : MacroBus.Action ι} {past es : List (MacroBus.Event ι)}
    (hinv : OnlyPublished s past) (hstep : C.step s a = some (s', es)) :
    OnlyPublished s' (past ++ es) := by
  have hstepped := Cluster.stepped C hstep
  refine ⟨?_, ?_, ?_⟩
  · intro x y msg hheld
    rcases hstepped.holds hheld with hheld | hpending | ⟨_, _, _, _, heq⟩
    · exact (hinv.links x y msg hheld).append es
    · exact (hinv.tasks x msg hpending).append es
    · cases heq
  · intro x msg hpending
    rcases hstepped.pending hpending with hpending | hannounced
    · exact (hinv.tasks x msg hpending).append es
    · cases hannounced with
      | published hevent => exact ⟨_, _, _, _, List.mem_append_right past hevent⟩
      | ingested hevent hheld => exact (hinv.links _ _ _ hheld).append es
  · intro i id msg hmsg
    rw [deliveries_append] at hmsg
    rcases List.mem_append.mp hmsg with hmsg | hmsg
    · exact (hinv.queued i id msg hmsg).append es
    · obtain ⟨e, he, hdelivery⟩ := List.mem_filterMap.mp hmsg
      have hmessages := hstepped.messages
      cases e with
      | published k key held msg' queued =>
        simp only [Event.delivery] at hdelivery
        split at hdelivery
        · obtain rfl := Option.some.inj hdelivery
          exact ⟨k, key, held, queued, List.mem_append_right past he⟩
        · cases hdelivery
      | fannedOut k msg' queued =>
        simp only [Event.delivery] at hdelivery
        split at hdelivery
        · obtain rfl := Option.some.inj hdelivery
          cases hmessages with
          | quiet hhub hingesting hes => cases hes _ he
          | fanOut haction hbefore =>
            obtain ⟨rfl, rfl, rfl⟩ := Event.fannedOut.inj (List.mem_singleton.mp he)
            exact (hinv.tasks _ _ ⟨_, List.mem_of_getElem? hbefore, rfl⟩).append _
          | publish | ingest | duplicate | restart => simp at he
        · cases hdelivery
      | _ => cases hdelivery

/-- In every run, messages on their way have been published. -/
theorem onlyPublished_of_run {ok : Net ι → List (MacroBus.Event ι) → MacroBus.Action ι → Prop}
    {past : List (MacroBus.Event ι)} (hrun : Run C.step ok C.initial s past) :
    OnlyPublished s past := by
  refine Run.invariant (I := OnlyPublished) ⟨?_, ?_, ?_⟩ ?_ hrun
  · intro a b msg h
    rcases h with h | h | h <;> cases h
  · intro a msg h
    obtain ⟨t, ht, _⟩ := h
    cases ht
  · intro i id msg hmsg
    cases hmsg
  · exact fun _ _ _ _ _ hinv _ hstep => hinv.step hstep

omit [DecidableEq ι] in
/-- **A publish that the cluster sees is a call by a client.** -/
theorem Observed.published (h : Observed C n es) {key : Str} {held : TypeReg} {queued : Finset ℕ}
    (hmem : .cluster (.published j key held msg queued) ∈ es) :
    (∃ client, .daemon j (.did client (.call (.publishLocal msg.typeName key msg.body))) ∈ es) ∧
      msg.origin = (n.daemon j).hub.registry.daemonId ∧
      (n.daemon j).hub.registry.types.lookup msg.typeName = some held ∧ held.key = key := by
  cases h.source hmem with
  | @call k x made _ hcall hshown =>
    cases made with
    | publishLocal typeName key' body =>
      simp only [shown] at hshown
      rcases hres : (n.daemon k).hub.publishLocal typeName key' body with ⟨e | msg', h'⟩
      · simp [hres] at hshown
      · obtain ⟨⟨held', hheld, hkey⟩, hmsg, _⟩ := Hub.publishLocal_eq_ok_iff.mp hres
        simp only [hres, hheld] at hshown
        obtain ⟨rfl, rfl, rfl, rfl, rfl⟩ := Event.published.inj (List.mem_singleton.mp hshown)
        subst hmsg
        exact ⟨⟨x, hcall⟩, rfl, hheld, hkey⟩
    | registerLocal typeName key' nowMs' =>
      simp only [shown] at hshown
      split at hshown <;> simp at hshown
    | _ => cases hshown
  | @inbound k peer made _ hshown =>
    cases made with
    | ingestRemote msg' => simp [shownInbound] at hshown
    | applyRemoteRegistration typeName incoming => simp [shownInbound] at hshown
  | transfer htransfer => cases htransfer

/-- Daemons keep their names. -/
theorem name_of_run (hrun : Run (fun n a => n.step C a) clocked (initial C) n past) (j : ι) :
    (n.daemon j).hub.registry.daemonId = (C.config j).daemonId := by
  obtain ⟨s, hcluster, hR⟩ := refines_of_run hrun
  have hplain : Run C.step anyStep C.initial s _ := hcluster.weaken fun _ _ _ _ => trivial
  rw [← (hR.hub j).registry]
  exact names_of_run hplain j

/-- **Every message that the cluster sees published was published by a client.** -/
theorem publishedAt_of_run (hrun : Run (fun n a => n.step C a) clocked (initial C) n past)
    (h : WasPublished (past.filterMap Event.seen) msg) : ∃ j, PublishedAt C past j msg := by
  obtain ⟨j, key, held, queued, hseen⟩ := h
  have hmem := mem_seen.mp hseen
  obtain ⟨m, before, a, m', es, after, hbefore, _, hstep, rfl, he⟩ := hrun.exists_step hmem
  obtain ⟨⟨client, hcall⟩, horigin, hheld, hkey⟩ := (observed hstep).published he
  refine ⟨j, m, before, a, m', es, after, client, key, held, hbefore, hstep, rfl, hcall, ?_, hheld,
    hkey⟩
  rw [horigin, name_of_run hbefore j]

/-- What a connection has taken in the life of its daemon, or finds in its queue, was queued for
it. -/
theorem queued_of_mem (hrun : Run (fun n a => n.step C a) clocked (initial C) n past)
    {out : Outbound}
    (hout : out ∈ Daemon.takenBy (lifeOf past i) id ++ ((n.daemon i).hub.chan id).queue) :
    ∃ msg ∈ deliveries (past.filterMap Event.seen) i id, out = .deliver msg := by
  obtain ⟨s, _, hR⟩ := refines_of_run hrun
  have hplain : Run _ anyStep _ _ _ := (hR.life i).weaken fun _ _ _ _ => trivial
  rw [(Daemon.queueInvariant_of_run hplain).queue id] at hout
  obtain ⟨msg, hmsg, rfl⟩ := List.mem_map.mp hout
  refine ⟨msg, ?_, rfl⟩
  rw [← queuedTo_of_run hrun]
  obtain ⟨e, he, hdelivery⟩ := List.mem_filterMap.mp hmsg
  exact List.mem_filterMap.mpr ⟨e, (lifeOf_suffix past i).mem he, hdelivery⟩

end Published

/-- A frame is at least its line end. -/
theorem asBytes_serialize_ne_nil (f : OutFrame) : Str.asBytes f.serialize ≠ [] := by
  rw [← federation.octets_item]
  cases f <;> simp [federation.item, federation.Item.octets]

/-- No frame is on its way: none is queued or awaits its broadcast, and every connection is read to
its end. -/
structure Drained (n : Network ι) : Prop where
  /-- No call has still to broadcast. -/
  tasks : ∀ i, n.tasks i = []
  /-- No frame is queued or half written. -/
  queues : ∀ i j, (n.wire i j).queue = [] ∧ (n.wire i j).writing = []
  /-- Connections are read, and nothing on them is unread. -/
  pipes : ∀ i j p, (n.wire i j).pipe = some p → ∃ fromPeer, p = ⟨.reading fromPeer, []⟩
  /-- Every dialer is up or down. -/
  phases : ∀ i j, (n.wire i j).phase = .up ∨ (n.wire i j).phase = .down

omit [DecidableEq ι] in
/-- A network whose connections are either down or read by these names is drained. -/
theorem Drained.of_pipes {n : Network ι} {name : ι → Str} (htasks : ∀ i, n.tasks i = [])
    (hqueues : ∀ i j, (n.wire i j).queue = [] ∧ (n.wire i j).writing = [])
    (hpipes : ∀ i j, (n.wire i j).pipe = none ∨ (n.wire i j).pipe = some ⟨.reading (name i), []⟩)
    (hphases : ∀ i j, (n.wire i j).phase = .up ∨ (n.wire i j).phase = .down) : n.Drained := by
  refine ⟨htasks, hqueues, fun i j p hp => ?_, hphases⟩
  rcases hpipes i j with hnone | hsome
  · rw [hnone] at hp
    cases hp
  · rw [hsome] at hp
    exact ⟨_, (Option.some.inj hp).symm⟩

section Results

variable {C : Cluster ι} {n : Network ι} {s : Net ι} {past : List (Event ι)} {i : ι} {id : ℕ}

/-- Where no octet is on its way, the cluster has no frame on its way. -/
theorem Refines.drained (hR : Refines C n past s) (hdrained : n.Drained)
    (henabled : ∀ i, (C.config i).federationEnabled = true) :
    (∀ i j, (s.link i j).queue = [] ∧ (s.link i j).wire = []) ∧ ∀ i, s.tasks i = [] := by
  refine ⟨fun i j => ?_, fun i => ?_⟩
  · have hw := hR.link i j
    obtain ⟨hqueue, hwriting⟩ := hdrained.queues i j
    refine ⟨hw.queue.trans hqueue, ?_⟩
    cases hp : (n.wire i j).pipe with
    | none => exact (hw.idle hp).1
    | some p =>
      obtain ⟨fromPeer, rfl⟩ := hdrained.pipes i j p hp
      have hoctets := (hw.wire _ hp).octets (by simp)
      rw [hwriting] at hoctets
      cases hframes : (s.link i j).wire with
      | nil => rfl
      | cons g frames =>
        have hstream : frameStream (g :: frames) = [] := by
          rw [← hframes]
          exact hoctets.symm
        rw [frameStream_cons] at hstream
        exact absurd (List.append_eq_nil_iff.mp hstream).1 (asBytes_serialize_ne_nil g)
  · have htasks := hR.tasks i
    rw [hdrained.tasks i, if_pos (henabled i)] at htasks
    exact List.map_eq_nil_iff.mp htasks.symm

/-- Where no octet is on its way, the cluster is settled. -/
theorem Refines.settled (hR : Refines C n past s) (hdrained : n.Drained)
    (henabled : ∀ i, (C.config i).federationEnabled = true) : Cluster.Settled s := by
  obtain ⟨hlinks, htasks⟩ := hR.drained hdrained henabled
  refine ⟨fun i j f hf => ?_, fun i t ht => ?_, fun i j => ?_⟩
  · rw [(hlinks i j).1, (hlinks i j).2] at hf
    cases hf
  · rw [htasks i] at ht
    cases ht
  · rw [(hR.link i j).phase]
    exact hdrained.phases i j

end Results

section Converged

variable {C : Cluster ι} {s : Net ι} {past : List (MacroBus.Event ι)}

/-- Registrations are as they should be in every run without losses. -/
theorem registrationInvariant_of_run (hrun : Run C.step anyStep C.initial s past)
    (hloss : ∀ e ∈ past, e.isLoss = false) : Cluster.RegistrationInvariant C s past := by
  refine Run.invariant_of_history (I := Cluster.RegistrationInvariant C)
    (H := fun past => ∀ e ∈ past, e.isLoss = false) ?_ Cluster.registrationInvariant_initial ?_
    hrun hloss
  · exact fun past es h e he => h e (List.mem_append_left es he)
  · intro s past a s' es hinv _ hstep hes
    exact hinv.step (Cluster.stepped C hstep) fun e he => hes e (List.mem_append_right past he)

omit [DecidableEq ι] in
/-- Where the cluster is settled, no record that was ever created ranks before what a daemon
holds. -/
theorem rank_le_created (hinv : Cluster.RegistrationInvariant C s past)
    (hsettled : Cluster.Settled s)
    (hconnected : StronglyConnected fun i j => (s.link i j).phase = .up) (i : ι) {typeName : Str}
    {reg : TypeReg} (hcreated : Cluster.Created past typeName reg) :
    (s.hub i).registry.rank typeName ≤ reg.tuple := by
  obtain ⟨k, hk⟩ := hcreated
  refine hconnected.everywhere (P := fun j => (s.hub j).registry.rank typeName ≤ reg.tuple) ?_
    (hinv.created k typeName reg hk).2.2.2 i
  intro a b hup hle
  rcases hinv.covered a b typeName (by rw [hup]; rfl) with hcovered | ⟨_, hcarried, _⟩
  · exact hcovered.trans hle
  · exact absurd hcarried (hsettled.not_carried hup)

end Converged

end Network

section Results

variable {ι : Type} [DecidableEq ι] {C : Cluster ι} {n : Network ι}
  {past : List (Network.Event ι)}

/-- **What a subscriber is sent, a client has published.** In every run of the network, however
its octets are cut, whether connections are lost or daemons restart: what a connection takes from
its queue is a message that a client published, at the daemon that its origin names, under the key
with which the table of that daemon held its type. -/
theorem received_was_published
    (hrun : Run (fun n a => n.step C a) Network.clocked (Network.initial C) n past) {i : ι} {id : ℕ}
    {out : Outbound} (htook : out ∈ Daemon.takenBy (Network.lifeOf past i) id) :
    ∃ j msg, out = .deliver msg ∧ Network.PublishedAt C past j msg := by
  obtain ⟨s, hcluster, _⟩ := Network.refines_of_run hrun
  obtain ⟨msg, hmsg, rfl⟩ := Network.queued_of_mem hrun (List.mem_append_left _ htook)
  obtain ⟨j, hpublished⟩ := Network.publishedAt_of_run hrun
    ((Network.onlyPublished_of_run hcluster).queued i id msg hmsg)
  exact ⟨j, msg, rfl, hpublished⟩

/-- A message is received. -/
theorem received_was_published_delivered : ∃ (n : Network Bool) (past : List (Network.Event Bool)),
    Run (fun n a => n.step pair a) Network.clocked (Network.initial pair) n past ∧
      Daemon.takenBy (Network.lifeOf past true) 1 = [.deliver Network.delivered] ∧
      ∃ j msg, Outbound.deliver Network.delivered = .deliver msg ∧
        Network.PublishedAt pair past j msg := by
  obtain ⟨n, past, hrun, htaken⟩ := Network.exists_delivery
  have htook : .deliver Network.delivered ∈ Daemon.takenBy (Network.lifeOf past true) 1 := by
    rw [htaken]
    exact List.mem_singleton_self _
  exact ⟨n, past, hrun, htaken, received_was_published hrun htook⟩

/-- **A subscriber is sent no message twice.** In every run of the network without restarts, as
long as no counter goes round and ids that come back are still remembered, the messages that a
connection takes from its queue have distinct ids. -/
theorem received_at_most_once
    (hrun : Run (fun n a => n.step C a) Network.clocked (Network.initial C) n past)
    (halive : ∀ k, .cluster (.restarted k) ∉ past)
    (hcount : ∀ k, (publications (past.filterMap Network.Event.seen) k).length ≤ u64Values)
    (htimely : Timely C (past.filterMap Network.Event.seen)) (i : ι) (id : ℕ) :
    ∃ msgs : List Message, Daemon.takenBy (Network.lifeOf past i) id = msgs.map .deliver ∧
      (msgs.map Message.msgId).Nodup := by
  obtain ⟨s, hcluster, hR⟩ := Network.refines_of_run hrun
  have hplain : Run C.step anyStep C.initial s _ := hcluster.weaken fun _ _ _ _ => trivial
  have hseen : ∀ k, .restarted k ∉ past.filterMap Network.Event.seen :=
    fun k hmem => halive k (Network.mem_seen.mp hmem)
  have hhorizon := horizonInvariant_of_run hplain ⟨hseen, hcount, htimely⟩
  have hnodup : ((deliveries (past.filterMap Network.Event.seen) i id).map Message.msgId).Nodup :=
    hhorizon.deliveries.nodup (hhorizon.records.once i) id
  have hlife : Run _ anyStep _ _ _ := (hR.life i).weaken fun _ _ _ _ => trivial
  have hqueue := (Daemon.queueInvariant_of_run hlife).queue id
  rw [Network.lifeOf_eq_historyOf halive i, Network.queuedTo_of_run hrun] at hqueue
  obtain ⟨msgs, rest, hsplit, htaken, _⟩ := List.map_eq_append_iff.mp hqueue.symm
  rw [hsplit, List.map_append] at hnodup
  rw [Network.lifeOf_eq_historyOf halive i]
  exact ⟨msgs, htaken.symm, (List.nodup_append.mp hnodup).1⟩

/-- The message of a run is received once. -/
theorem received_at_most_once_delivered : ∃ (n : Network Bool) (past : List (Network.Event Bool)),
    Run (fun n a => n.step pair a) Network.clocked (Network.initial pair) n past ∧
      Daemon.takenBy (Network.lifeOf past true) 1 = [.deliver Network.delivered] ∧
      ∃ msgs : List Message, Daemon.takenBy (Network.lifeOf past true) 1 = msgs.map .deliver ∧
        (msgs.map Message.msgId).Nodup := by
  obtain ⟨n, past, hrun, htaken, halive, hcount, hlength⟩ := exists_run
    (fun n a => n.step pair a) (fun _ _ a => Network.onTime a) (Network.initial pair)
    Network.deliveryTrace (P := fun n past =>
      Daemon.takenBy (Network.lifeOf past true) 1 = [.deliver Network.delivered] ∧
      (∀ k, .cluster (.restarted k) ∉ past) ∧
      (∀ k, (publications (past.filterMap Network.Event.seen) k).length ≤ u64Values) ∧
      (past.filterMap Network.Event.seen).length ≤ 10) (by decide +kernel)
  have hrun' : Run (fun n a => n.step pair a) Network.clocked (Network.initial pair) n past :=
    hrun.weaken fun _ _ _ hok => Network.clocked_of_onTime hok
  have htimely : Timely pair (past.filterMap Network.Event.seen) := timely_of_length fun i =>
    hlength.trans (show 10 ≤ max 65536 1 by decide)
  exact ⟨n, past, hrun', htaken, received_at_most_once hrun' halive hcount htimely true 1⟩

/-- **The daemons agree when no octet is on its way.** In every run of the network without restarts
and without dropped frames, however often connections are lost and made again: whenever every
octet has been read and the dialers that are up connect all daemons, every daemon holds for every
type the record that ranks first among all that were created. -/
theorem ownership_converges_over_octets
    (hrun : Run (fun n a => n.step C a) Network.clocked (Network.initial C) n past)
    (hloss : ∀ e ∈ past.filterMap Network.Event.seen, e.isLoss = false) (hdrained : n.Drained)
    (henabled : ∀ i, (C.config i).federationEnabled = true)
    (hconnected : StronglyConnected fun i j => (n.wire i j).phase = .up) (i : ι)
    (typeName : Str) (reg : TypeReg) :
    (n.daemon i).hub.registry.types.lookup typeName = some reg ↔
      Cluster.IsFirst (past.filterMap Network.Event.seen) typeName reg := by
  obtain ⟨s, hcluster, hR⟩ := Network.refines_of_run hrun
  have hplain : Run C.step anyStep C.initial s _ := hcluster.weaken fun _ _ _ _ => trivial
  have hup : StronglyConnected fun i j => (s.link i j).phase = .up := by
    simp only [(hR.link _ _).phase]
    exact hconnected
  have hinv := Network.registrationInvariant_of_run hplain hloss
  have hbound := fun reg' (h : Cluster.Created (past.filterMap Network.Event.seen) typeName reg') =>
    Network.rank_le_created hinv (hR.settled hdrained henabled) hup i h
  rw [← (hR.hub i).registry]
  constructor
  · intro hlookup
    refine ⟨hinv.held i typeName reg hlookup, fun reg' hcreated => ?_⟩
    have hle := hbound reg' hcreated
    rw [Registry.rank_of_lookup hlookup] at hle
    exact WithTop.coe_le_coe.mp hle
  · rintro ⟨hcreated, hfirst⟩
    have hle := hbound reg hcreated
    obtain ⟨held, hheld⟩ : ∃ held, (s.hub i).registry.types.lookup typeName = some held := by
      refine Option.ne_none_iff_exists'.mp fun hnone => ?_
      rw [Registry.rank_eq_top_iff.mpr hnone] at hle
      exact absurd (WithTop.coe_lt_top _) (not_lt.mpr hle)
    rw [Registry.rank_of_lookup hheld] at hle
    have hknown := hinv.held i typeName held hheld
    have htuple := le_antisymm (WithTop.coe_le_coe.mp hle) (hfirst held hknown)
    rw [hheld, hinv.eq_of_tuple hknown hcreated htuple]

/-- A client registers a type at each daemon. -/
def registeringTrace : List (Network.Action Bool) :=
  (Daemon.arrival 1 ++ Daemon.arrives 1 (Str.asBytes "REGISTER t k\r\n".toList) 4).filterMap
      (Network.clientDoes false) ++
    (Daemon.arrival 1 ++ Daemon.arrives 1 (Str.asBytes "REGISTER t k2\r\n".toList) 4).filterMap
      (Network.clientDoes true)

/-- The daemons of a pair are connected, after each type has been claimed. -/
def settlingTrace : List (Network.Action Bool) :=
  [.broadcast false 0, .broadcast true 0,
    .connect false true, .insert false true, .snapshot false true, .push false true,
    .start false true, .take false true, .write false true 9, .lose false true 2,
    .connect false true, .insert false true, .snapshot false true, .push false true,
    .start false true, .take false true, .write false true 100,
    .connect true false, .insert true false, .snapshot true false, .push true false,
    .start true false, .take true false, .write true false 100,
    .greet true false none, .read true false none, .greet false true none, .read false true none,
    .broadcast true 0]

/-- The record of the one daemon wins at both, though its first connection is lost. -/
theorem ownership_converges_over_octets_settled :
    ∃ (n : Network Bool) (past : List (Network.Event Bool)),
      Run (fun n a => n.step pair a) Network.clocked (Network.initial pair) n past ∧
      n.Drained ∧ StronglyConnected (fun i j => (n.wire i j).phase = .up) ∧
      Cluster.IsFirst (past.filterMap Network.Event.seen) "t".toList ⟨"k".toList, "d1".toList, 0⟩ ∧
      ∀ i, (n.daemon i).hub.registry.types.lookup "t".toList =
        some ⟨"k".toList, "d1".toList, 0⟩ := by
  obtain ⟨n, past, hrun, hloss, htasks, hqueues, hpipes, hphases, hup, hlookup⟩ := exists_run
    (fun n a => n.step pair a) (fun _ _ a => Network.onTime a) (Network.initial pair)
    (registeringTrace ++ settlingTrace)
    (P := fun n past => (∀ e ∈ past.filterMap Network.Event.seen, e.isLoss = false) ∧
      (∀ i, n.tasks i = []) ∧ (∀ i j, (n.wire i j).queue = [] ∧ (n.wire i j).writing = []) ∧
      (∀ i j, (n.wire i j).pipe = none ∨ (n.wire i j).pipe = some ⟨.reading (pair.name i), []⟩) ∧
      (∀ i j, (n.wire i j).phase = .up ∨ (n.wire i j).phase = .down) ∧
      (∀ i, (n.wire i !i).phase = .up) ∧
      (n.daemon true).hub.registry.types.lookup "t".toList =
        some ⟨"k".toList, "d1".toList, 0⟩) (by decide +kernel)
  have hrun' : Run (fun n a => n.step pair a) Network.clocked (Network.initial pair) n past :=
    hrun.weaken fun _ _ _ hok => Network.clocked_of_onTime hok
  have hdrained : n.Drained := .of_pipes htasks hqueues hpipes hphases
  have hconnected : StronglyConnected fun i j => (n.wire i j).phase = .up := by
    intro i j
    by_cases hij : j = i
    · rw [hij]
    · have hj : j = !i := by cases i <;> cases j <;> simp_all
      exact .single (hj ▸ hup i)
  have hconverged := ownership_converges_over_octets hrun' hloss hdrained (by decide) hconnected
  have hfirst := (hconverged true "t".toList _).mp hlookup
  exact ⟨n, past, hrun', hdrained, hconnected, hfirst, fun i => (hconverged i "t".toList _).mpr hfirst⟩

end Results

end MacroBus
