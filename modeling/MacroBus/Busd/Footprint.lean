import MacroBus.Busd.Completeness
import MacroBus.Busd.Circulation
import MacroBus.Busd.Holding

/-!
# What a daemon holds

Whatever clients and peers do, a daemon holds no more for a connection than its limits say: the octets
that are not yet taken for lines, the lines of a body, and the messages that wait. It remembers no
more ids than it is configured to, and keeps no more frames for a peer than its queue is deep.
-/

namespace MacroBus

open Transition

namespace Daemon

variable {limits : Limits} {fwd : Bool} {daemonId : Str} {d d' : Daemon} {a : Action}
  {es past : List Event}

/-- What a daemon holds for its connections. -/
structure Footprint (limits : Limits) (d : Daemon) : Prop where
  /-- What they have sent. -/
  conns : ∀ id c, d.conn id = some c → c.Bounded limits
  /-- What waits for them. -/
  queues : ∀ id, (d.hub.chan id).queue.length ≤ limits.queueDepth

/-- A fan-out does not overfill a queue. -/
theorem length_fanoutLocked {h : Hub} {id : ℕ} (msg : Message)
    (hdepth : (h.chan id).depth = limits.queueDepth)
    (hqueue : (h.chan id).queue.length ≤ limits.queueDepth) :
    ((h.fanoutLocked msg).chan id).queue.length ≤ limits.queueDepth := by
  rw [Hub.fanoutLocked_queue, List.length_append]
  by_cases hmem : id ∈ h.recipients msg
  · have hroom : (h.chan id).hasRoom = true := (Finset.mem_filter.mp (Finset.mem_coe.mp hmem)).2
    simp only [Chan.hasRoom, Bool.and_eq_true, decide_eq_true_eq, hdepth] at hroom
    rw [if_pos hmem, List.length_singleton]
    omega
  · rw [if_neg hmem]
    exact hqueue

/-- **Every step keeps within it.** -/
theorem Footprint.step (hd : d.Footprint limits) (hchans : ChanInvariant limits d)
    (hids : ∀ id c, d.conn id = some c → c.id = id)
    (hstep : Daemon.step limits fwd d a = some (d', es)) : d'.Footprint limits := by
  constructor
  · intro id c hconn
    cases a with
    | accept i =>
      obtain ⟨_, rfl, _⟩ := step_accept_eq_some_iff.mp hstep
      by_cases hi : id = i
      · subst hi
        obtain rfl : { id := id } = c := by simpa using hconn
        exact Conn.bounded_of_le rfl (by simp) (Nat.zero_le _)
      · exact hd.conns id c (by simpa [Function.update_of_ne hi] using hconn)
    | inbound made =>
      simp only [Daemon.step, Option.some.injEq, Prod.mk.injEq] at hstep
      obtain ⟨rfl, _⟩ := hstep
      exact hd.conns id c hconn
    | task i nowMs wake =>
      obtain ⟨c₁, c', h', done, hconn₁, hconnStep, rfl, _⟩ := step_task_eq_some_iff.mp hstep
      by_cases hi : id = i
      · subst hi
        obtain rfl : c' = c := by simpa using hconn
        exact (hd.conns id c₁ hconn₁).step hconnStep
      · exact hd.conns id c (by simpa [Function.update_of_ne hi] using hconn)
  · intro id
    have hbefore := hd.queues id
    have hmoved := moved_step hids hstep
    generalize moves es = ms at hmoved
    cases hmoved with
    | @accept i ch _ hempty hhub =>
      rw [hhub]
      by_cases hi : id = i
      · subst hi
        simp [hempty]
      · simpa [Function.update_of_ne hi] using hbefore
    | quiet _ _ hqueue =>
      rw [hqueue id]
      exact hbefore
    | @took i out queue hqueue hhub =>
      rw [hhub]
      by_cases hi : id = i
      · subst hi
        rw [hqueue, List.length_cons] at hbefore
        simp only [Function.update_self]
        omega
      · simpa [Function.update_of_ne hi] using hbefore
    | @published i msg _ hhub =>
      rw [hhub]
      exact length_fanoutLocked msg (hchans.depth id) hbefore
    | @ingested msg hhub =>
      rw [hhub]
      exact length_fanoutLocked msg (hchans.depth id) hbefore

/-- No run leaves it. -/
theorem footprint_of_run
    (hrun : Run (Daemon.step limits fwd) anyStep (start daemonId limits) d past) :
    d.Footprint limits := by
  refine hrun.invariant_of_reached (I := fun d _ => d.Footprint limits)
    ⟨fun _ _ hconn => (by cases hconn), fun _ => Nat.zero_le _⟩ ?_
  intro d past a d' es hbefore hd _ hstep
  exact hd.step (chanInvariant_of_run hbefore) (subscriptionInvariant_of_run hbefore).ids hstep

end Daemon

section Peers

variable {ι : Type} [DecidableEq ι] {C : Cluster ι} {s s' : Net ι} {a : Action ι}
  {past es : List (Event ι)} {i j peer : ι} {msg : Message} {src : Option ι} {f : OutFrame}

/-- A message is within the limit of the daemon. -/
def Cluster.Admits (C : Cluster ι) (i : ι) (msg : Message) : Prop :=
  bodySize msg.body ≤ (C.config i).limits.maxMessageBytes

/-- What a daemon holds for its peers, and what it has accepted. -/
structure Within (C : Cluster ι) (s : Net ι) (past : List (Event ι)) : Prop where
  /-- Only messages within the limit are accepted. -/
  accepted : ∀ i msg src, (msg, src) ∈ acceptances past i → C.Admits i msg
  /-- Only such messages are queued for connections. -/
  queued : ∀ i id, ∀ msg ∈ deliveries past i id, C.Admits i msg
  /-- Calls go on with such messages only. -/
  tasks : ∀ i, ∀ t ∈ s.tasks i, ∀ msg, t.frame = .feed msg → C.Admits i msg
  /-- Queues are bounded. -/
  depth : ∀ i j, (s.link i j).queue.length ≤ PEER_QUEUE_DEPTH
  /-- Only such messages are in them. -/
  queues : ∀ i j msg, .feed msg ∈ (s.link i j).queue → C.Admits i msg

/-- A message that is ingested is within the limit. -/
theorem Cluster.admits_of_handle {k p : ι}
    (h : .ingested k p msg true ∈ (C.handle s i peer f).2) : C.Admits k msg := by
  cases f with
  | feed got =>
    unfold Cluster.handle Cluster.handleFeed at h
    dsimp only at h
    split at h
    · cases h
    · split at h
      · cases h
      · next hsize =>
        split at h
        · obtain ⟨rfl, rfl, rfl, _⟩ := Event.ingested.inj (List.mem_singleton.mp h)
          exact not_lt.mp hsize
        · cases (Event.ingested.inj (List.mem_singleton.mp h)).2.2.2
  | rreg typeName reg =>
    unfold Cluster.handle Cluster.handleRreg at h
    dsimp only at h
    split at h
    · cases h
    · split at h
      · cases List.mem_singleton.mp h
      · cases h

/-- **Only messages within the limit are accepted.** -/
theorem Cluster.admits_of_accepted (hstep : C.step s a = some (s', es))
    (haccepted : (msg, src) ∈ acceptances es i) : C.Admits i msg := by
  rcases mem_acceptances.mp haccepted with ⟨_, key, held, queued, hevent⟩ |
    ⟨peer, _, hevent⟩
  · have haction := ((Cluster.stepped C hstep).published hevent).action
    subst haction
    simp only [Cluster.step] at hstep
    split at hstep
    · next hguard =>
      simp only [Bool.and_eq_true, decide_eq_true_eq] at hguard
      exact hguard.2
    · cases hstep
  · -- Only a frame that is handled is ingested.
    cases Cluster.stepped C hstep with
    | receive haction hread hhandled =>
      rcases haction with ⟨rfl, _⟩ | ⟨k, rfl, _⟩
      · simp only [Cluster.step] at hstep
        split at hstep
        · cases hstep
        · rw [← (Prod.mk.inj (Option.some.inj hstep)).2] at hevent
          exact Cluster.admits_of_handle hevent
      · simp only [Cluster.step, Option.map_eq_some_iff] at hstep
        obtain ⟨g, _, hhandle⟩ := hstep
        rw [← (Prod.mk.inj hhandle).2] at hevent
        exact Cluster.admits_of_handle hevent
    | broadcast =>
      obtain ⟨b, _, heq⟩ := List.mem_map.mp hevent
      split at heq <;> cases heq
    | push =>
      have heq := List.mem_singleton.mp hevent
      split at heq <;> cases heq
    | _ => simp at hevent

/-- **How a queue for a peer changes**: frames are taken from its front, or one is offered that a
call broadcasts or that a snapshot holds. -/
theorem Cluster.Stepped.queue (h : C.Stepped s a s' es) (i j : ι) :
    (s'.link i j).queue <:+ (s.link i j).queue ∨
      ∃ f, (s'.link i j).queue = ((s.link i j).offer f).queue ∧
        ((∃ t ∈ s.tasks i, t.frame = f) ∨ f.isFeed = false) := by
  -- A step on one link leaves the queues of the others as they are.
  have hset : ∀ (x y : ι) (l : Link), (i = x ∧ j = y → l.queue <:+ (s.link i j).queue) →
      ((s.setLink x y l).link i j).queue <:+ (s.link i j).queue := by
    intro x y l hl
    rw [Net.setLink_link]
    split
    · next heq => exact hl heq
    · exact List.suffix_refl _
  cases h with
  | connection | publish | create | fanOut => exact Or.inl (List.suffix_refl _)
  | broadcast htask hdone =>
    rename_i x k t
    rw [Cluster.broadcast_link, Net.setTasks_link]
    split
    · next hx => exact Or.inr ⟨t.frame, rfl, Or.inl ⟨t, hx.1 ▸ List.mem_of_getElem? htask, rfl⟩⟩
    · exact Or.inl (List.suffix_refl _)
  | push hpushing =>
    rename_i x y typeName reg rest
    rw [Net.setLink_link]
    split
    · next heq =>
      obtain ⟨rfl, rfl⟩ := heq
      exact Or.inr ⟨.rreg typeName reg, rfl, Or.inr rfl⟩
    · exact Or.inl (List.suffix_refl _)
  | insert | lose => exact Or.inl (hset _ _ _ fun _ => List.nil_suffix)
  | snapshot | start | vanish =>
    refine Or.inl (hset _ _ _ ?_)
    rintro ⟨rfl, rfl⟩
    exact List.suffix_refl _
  | write hup hqueue =>
    refine Or.inl (hset _ _ _ ?_)
    rintro ⟨rfl, rfl⟩
    rw [hqueue]
    exact List.suffix_cons _ _
  | receive haction hread hhandled =>
    rw [hhandled.link]
    refine Or.inl (hset _ _ _ ?_)
    rintro ⟨rfl, rfl⟩
    rw [hread.queue]
  | restart =>
    simp only [Net.linksWithout]
    split
    · exact Or.inl List.nil_suffix
    · split
      · exact Or.inl List.nil_suffix
      · exact Or.inl (List.suffix_refl _)

/-- **What a step queues** is accepted with it, or was left to be fanned out. -/
theorem Cluster.Stepped.queued (h : C.Stepped s a s' es) {id : ℕ} (hmem : msg ∈ deliveries es i id) :
    (∃ src, (msg, src) ∈ acceptances es i) ∨ ∃ t ∈ s.tasks i, t.frame = .feed msg := by
  obtain ⟨e, he, hdelivery⟩ := List.mem_filterMap.mp hmem
  have hmessages := h.messages
  cases e with
  | published k key held sent queued =>
    simp only [Event.delivery] at hdelivery
    split at hdelivery
    · next hqueued =>
      obtain rfl := Option.some.inj hdelivery
      exact Or.inl ⟨none, mem_acceptances.mpr (Or.inl ⟨rfl, key, held, queued, hqueued.1 ▸ he⟩)⟩
    · cases hdelivery
  | fannedOut k sent queued =>
    simp only [Event.delivery] at hdelivery
    split at hdelivery
    · next hqueued =>
      obtain rfl := Option.some.inj hdelivery
      cases hmessages with
      | quiet hhub hingesting hes => cases hes _ he
      | fanOut haction hbefore =>
        obtain ⟨rfl, rfl, rfl⟩ := Event.fannedOut.inj (List.mem_singleton.mp he)
        exact Or.inr ⟨_, hqueued.1 ▸ List.mem_of_getElem? hbefore, rfl⟩
      | publish | ingest | duplicate | restart => simp at he
    · cases hdelivery
  | _ => cases hdelivery

/-- **Every step** keeps within the limits. -/
theorem Within.step (h : Within C s past) (hstep : C.step s a = some (s', es)) :
    Within C s' (past ++ es) := by
  have hstepped := Cluster.stepped C hstep
  refine ⟨?_, ?_, ?_, ?_, ?_⟩
  · intro i msg src haccepted
    rw [acceptances_append] at haccepted
    rcases List.mem_append.mp haccepted with hbefore | hnow
    · exact h.accepted i msg src hbefore
    · exact Cluster.admits_of_accepted hstep hnow
  · intro i id msg hmsg
    rw [deliveries_append] at hmsg
    rcases List.mem_append.mp hmsg with hbefore | hnow
    · exact h.queued i id msg hbefore
    · rcases hstepped.queued hnow with ⟨src, haccepted⟩ | ⟨t, ht, hframe⟩
      · exact Cluster.admits_of_accepted hstep haccepted
      · exact h.tasks i t ht msg hframe
  · intro i t ht msg hframe
    rcases hstepped.task ht hframe with ⟨t₀, ht₀, hframe₀, _⟩ | hnow
    · exact h.tasks i t₀ ht₀ msg hframe₀
    · exact Cluster.admits_of_accepted hstep hnow
  · intro i j
    rcases hstepped.queue i j with hsuffix | ⟨f, hqueue, _⟩
    · exact hsuffix.length_le.trans (h.depth i j)
    · rw [hqueue]
      exact Link.offer_length (h.depth i j) f
  · intro i j msg hmem
    rcases hstepped.queue i j with hsuffix | ⟨f, hqueue, hsource⟩
    · exact h.queues i j msg (hsuffix.subset hmem)
    · rw [hqueue, Link.offer_queue] at hmem
      split at hmem
      · rcases List.mem_append.mp hmem with hbefore | hnow
        · exact h.queues i j msg hbefore
        · obtain rfl := List.mem_singleton.mp hnow
          rcases hsource with ⟨t, ht, hframe⟩ | hrecord
          · exact h.tasks i t ht msg hframe
          · cases hrecord
      · exact h.queues i j msg hmem

/-- No run leaves them. -/
theorem within_of_run {ok : Net ι → List (Event ι) → Action ι → Prop}
    (hrun : Run C.step ok C.initial s past) : Within C s past := by
  refine Run.invariant (I := Within C) ⟨?_, ?_, ?_, ?_, ?_⟩ ?_ hrun
  · intro i msg src haccepted
    cases haccepted
  · intro i id msg hmsg
    cases hmsg
  · intro i t ht
    cases ht
  · exact fun i j => Nat.zero_le _
  · intro i j msg hmem
    cases hmem
  · exact fun _ _ _ _ _ h _ hstep => h.step hstep

/-- Seen-sets are sound in every run. -/
theorem sound_seen_of_run {ok : Net ι → List (Event ι) → Action ι → Prop}
    (hrun : Run C.step ok C.initial s past) : Sound C s :=
  Run.invariant (I := fun s _ => Sound C s) sound_initial
    (fun _ _ _ _ _ h _ hstep => h.step (Cluster.stepped C hstep)) hrun

end Peers

section Result

variable {ι : Type} [DecidableEq ι] {C : Cluster ι} {n : Network ι}
  {past : List (Network.Event ι)}

/-- **What a daemon holds is bounded by its configuration**, whatever its clients and peers send,
in whatever pieces and however slowly they read. For a connection it holds no more octets than the
longest line and one read, of a body no more than the largest message, and in its queue no more
messages than the queue is deep, each within the limit. For a peer it holds no more frames than
the queue for it is deep, each message of them within its limit. And it remembers no more ids than
it is configured to. -/
theorem what_a_daemon_holds_is_bounded
    (hrun : Run (fun n a => n.step C a) Network.clocked (Network.initial C) n past) (i : ι) :
    (∀ id c, (n.daemon i).conn id = some c →
      c.rbuf.length ≤ max (C.config i).limits.maxCommandLineBytes
        (C.config i).limits.maxBodyLineBytes + READ_SIZE ∧
      ∀ typeName key acc, c.phase = .body typeName key acc ∨ c.phase = .bodyRead typeName key acc →
        bodySize acc.lines ≤ (C.config i).limits.maxMessageBytes) ∧
    (∀ id, ((n.daemon i).hub.chan id).queue.length ≤ (C.config i).limits.queueDepth ∧
      ∀ out ∈ ((n.daemon i).hub.chan id).queue, ∃ msg : Message,
        out = .deliver msg ∧ bodySize msg.body ≤ (C.config i).limits.maxMessageBytes) ∧
    (∀ j, (n.wire i j).queue.length ≤ PEER_QUEUE_DEPTH ∧
      ∀ msg, .feed msg ∈ (n.wire i j).queue →
        bodySize msg.body ≤ (C.config i).limits.maxMessageBytes) ∧
    (n.daemon i).hub.registry.seen.order.length ≤ max (C.config i).limits.seenCapacity 1 := by
  obtain ⟨s, hcluster, hR⟩ := Network.refines_of_run hrun
  have hlife : Run _ anyStep _ _ _ := (hR.life i).weaken fun _ _ _ _ => trivial
  have hfootprint := Daemon.footprint_of_run hlife
  have hwithin := within_of_run hcluster
  have hsound := sound_seen_of_run hcluster
  refine ⟨?_, ?_, ?_, ?_⟩
  · intro id c hconn
    have hconn := hfootprint.conns id c hconn
    refine ⟨hconn.buffer.trans (Phase.room_le _ _), fun typeName key acc hphase => ?_⟩
    exact (hconn.lines typeName key acc hphase).lines
  · intro id
    refine ⟨hfootprint.queues id, fun out hout => ?_⟩
    obtain ⟨msg, hmsg, rfl⟩ := Network.queued_of_mem hrun (List.mem_append_right _ hout)
    exact ⟨msg, rfl, hwithin.queued i id msg hmsg⟩
  · intro j
    rw [← (hR.link i j).queue]
    exact ⟨hwithin.depth i j, hwithin.queues i j⟩
  · rw [← (hR.hub i).registry, ← hsound.cap i]
    exact (hsound.wf i).length_le

/-- A message was delivered, and the daemon that delivered it holds no more than that. -/
theorem what_a_daemon_holds_is_bounded_delivered :
    ∃ (n : Network Bool) (past : List (Network.Event Bool)),
      Run (fun n a => n.step pair a) Network.clocked (Network.initial pair) n past ∧
      Daemon.takenBy (Network.lifeOf past true) 1 = [.deliver Network.delivered] ∧
      ((n.daemon true).hub.chan 1).queue.length ≤ 1024 ∧
      (n.daemon true).hub.registry.seen.order.length ≤ 65536 := by
  obtain ⟨n, past, hrun, htaken⟩ := Network.exists_delivery
  obtain ⟨_, hqueues, _, hseen⟩ := what_a_daemon_holds_is_bounded hrun true
  exact ⟨n, past, hrun, htaken, (hqueues 1).1, hseen⟩

end Result

end MacroBus
