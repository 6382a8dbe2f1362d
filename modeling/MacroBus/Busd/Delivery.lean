import MacroBus.Busd.SeenSet
import MacroBus.Busd.Publications

/-!
# At-most-once delivery

A daemon fans a message out once for each time it has recorded the id. As long as an id
that comes back is still in the window of the seen-set, no id is recorded twice, and so
no connection is queued a message twice.
-/

namespace MacroBus

variable {ι : Type}

/-- The id that the daemon newly records with this event. -/
def Event.record [DecidableEq ι] (i : ι) : Event ι → Option Str
  | .published k _ _ msg _ => if k = i then some msg.msgId else none
  | .ingested k _ msg new => if k = i ∧ new = true then some msg.msgId else none
  | _ => none

/-- The ids a daemon has newly recorded in its seen-set, oldest first. -/
def recorded [DecidableEq ι] (past : List (Event ι)) (i : ι) : List Str :=
  past.filterMap (Event.record i)

/-- The message that is queued to a connection of the daemon with this event. -/
def Event.delivery [DecidableEq ι] (i : ι) (conn : ℕ) : Event ι → Option Message
  | .published k _ _ msg queued => if k = i ∧ conn ∈ queued then some msg else none
  | .fannedOut k msg queued => if k = i ∧ conn ∈ queued then some msg else none
  | _ => none

/-- The messages queued to a connection so far, oldest first. -/
def deliveries [DecidableEq ι] (past : List (Event ι)) (i : ι) (conn : ℕ) : List Message :=
  past.filterMap (Event.delivery i conn)

/-- Whenever an id is received again, fewer others have been recorded since than the seen-set
holds. -/
def Timely [DecidableEq ι] (C : Cluster ι) (past : List (Event ι)) : Prop :=
  ∀ i peer msg new before after, past = before ++ .ingested i peer msg new :: after →
    ∀ older newer, recorded before i = older ++ msg.msgId :: newer →
      newer.length < max (C.config i).limits.seenCapacity 1

/-- The message was published by the daemon named by its origin, for the key its table held
at that moment. -/
def Authentic [DecidableEq ι] (C : Cluster ι) (past : List (Event ι)) (msg : Message) : Prop :=
  ∃ s before after i key held queued, Transition.Run C.step Transition.anyStep C.initial s before ∧
    past = before ++ .published i key held msg queued :: after ∧
    msg.origin = (C.config i).daemonId ∧
    (s.hub i).registry.types.lookup msg.typeName = some held ∧ held.key = key

open Transition

section Histories

variable [DecidableEq ι] {past es : List (Event ι)} {i : ι} {conn : ℕ}

/-- Records add up. -/
theorem recorded_append (past es : List (Event ι)) (i : ι) :
    recorded (past ++ es) i = recorded past i ++ recorded es i := List.filterMap_append

/-- Deliveries add up. -/
theorem deliveries_append (past es : List (Event ι)) (i : ι) (conn : ℕ) :
    deliveries (past ++ es) i conn = deliveries past i conn ++ deliveries es i conn :=
  List.filterMap_append

/-- Events that are not about messages record nothing. -/
theorem recorded_quiet (hes : ∀ e ∈ es, e.isMessage = false) : recorded es i = [] := by
  refine List.filterMap_eq_nil_iff.mpr ?_
  intro e he
  cases e with
  | published | ingested => cases hes _ he
  | _ => rfl

/-- Events that are not about messages deliver nothing. -/
theorem deliveries_quiet (hes : ∀ e ∈ es, e.isMessage = false) :
    deliveries es i conn = [] := by
  refine List.filterMap_eq_nil_iff.mpr ?_
  intro e he
  cases e with
  | published | fannedOut => cases hes _ he
  | _ => rfl

end Histories

/-- What a step does to a seen-set. -/
inductive RecordStep [DecidableEq ι] (s s' : Net ι) (past es : List (Event ι)) (i : ι) : Prop
  /-- No message is new there. -/
  | keep (hrecorded : recorded es i = [])
      (hseen : (s'.hub i).registry.seen = (s.hub i).registry.seen)
  /-- A message is new there. -/
  | record {msg : Message} (hrecorded : recorded es i = [msg.msgId])
      (hseen : (s'.hub i).registry.seen = ((s.hub i).registry.seen.insert msg.msgId).2)
      (hsource : (msg.msgId = (s.hub i).registry.msgId ∧ publications es i = [msg]) ∨
        msg.msgId ∉ (s.hub i).registry.seen.set ∧ WasPublished past msg ∧
          ∃ peer, es = [.ingested i peer msg true])

/-- What a step does to the queues of a daemon, and to what it still has to fan out. -/
inductive DeliveryStep [DecidableEq ι] (s s' : Net ι) (past es : List (Event ι)) (i : ι) : Prop
  /-- Nothing is queued. -/
  | keep (hdeliveries : ∀ conn, deliveries es i conn = [])
      (hqueue : ∀ conn, ((s'.hub i).chan conn).queue <:+ ((s.hub i).chan conn).queue)
      (hingesting : (s'.ingesting i).Perm (s.ingesting i))
  /-- A message is published. -/
  | publish {msg : Message} (hrecorded : recorded es i = [msg.msgId])
      (hdeliveries : ∀ conn, deliveries es i conn =
        if conn ∈ (s.hub i).recipients msg then [msg] else [])
      (hqueue : ∀ conn, ((s'.hub i).chan conn).queue = ((s.hub i).chan conn).queue ++
        if conn ∈ (s.hub i).recipients msg then [.deliver msg] else [])
      (hingesting : s'.ingesting i = s.ingesting i) (hone : publications es i = [msg])
  /-- A message is recorded, and not yet queued. -/
  | ingest {msg : Message} (hrecorded : recorded es i = [msg.msgId])
      (hdeliveries : ∀ conn, deliveries es i conn = [])
      (hqueue : ∀ conn, ((s'.hub i).chan conn).queue <:+ ((s.hub i).chan conn).queue)
      (hingesting : s'.ingesting i = s.ingesting i ++ [msg]) (hpublished : WasPublished past msg)
  /-- A message that was recorded is fanned out. -/
  | fanOut {msg : Message}
      (hdeliveries : ∀ conn, deliveries es i conn =
        if conn ∈ (s.hub i).recipients msg then [msg] else [])
      (hqueue : ∀ conn, ((s'.hub i).chan conn).queue = ((s.hub i).chan conn).queue ++
        if conn ∈ (s.hub i).recipients msg then [.deliver msg] else [])
      (hingesting : (msg :: s'.ingesting i).Perm (s.ingesting i))

section Steps

variable [DecidableEq ι] {C : Cluster ι} {s s' : Net ι} {a : Action ι} {past es : List (Event ι)}

/-- A message that is being published was published, at the latest now. -/
theorem wasPublished_of_publications {i : ι} {msg : Message} (hone : publications es i = [msg]) :
    WasPublished (past ++ es) msg := by
  refine wasPublished_iff.mpr ⟨i, ?_⟩
  rw [publications_append, hone]
  exact List.mem_append_right _ (List.mem_singleton_self msg)

/-- A message that is new somewhere was published, at the latest now. -/
theorem published_of_source {i : ι} {msg : Message}
    (hsource : (msg.msgId = (s.hub i).registry.msgId ∧ publications es i = [msg]) ∨
      msg.msgId ∉ (s.hub i).registry.seen.set ∧ WasPublished past msg ∧
        ∃ peer, es = [.ingested i peer msg true]) :
    WasPublished (past ++ es) msg := by
  rcases hsource with ⟨_, hone⟩ | ⟨_, hpublished, _⟩
  · exact wasPublished_of_publications hone
  · exact hpublished.append es

/-- **What every step does to a seen-set.** -/
theorem MessageStep.records (h : MessageStep C s a s' es) (halive : ∀ i, .restarted i ∉ es)
    (hlinks : ∀ a b msg, (s.link a b).Holds (.feed msg) → WasPublished past msg) (i : ι) :
    RecordStep s s' past es i := by
  cases h with
  | quiet hhub hingesting hes => exact .keep (recorded_quiet hes) (hhub i).seen
  | publish haction hid horigin hheld hkey hself hqueue hothers htask =>
    rename_i k key held msg
    by_cases hi : k = i
    · subst hi
      exact .record (show recorded _ k = [msg.msgId] by simp [recorded, Event.record])
        (by rw [hself]) (Or.inl ⟨hid, by simp [MacroBus.publications, Event.publication]⟩)
    · exact .keep (by simp [recorded, Event.record, hi]) (by rw [hothers i (Ne.symm hi)])
  | ingest hnew hheld hself hchan hothers htask =>
    rename_i k peer msg
    by_cases hi : k = i
    · subst hi
      exact .record (show recorded _ k = [msg.msgId] by simp [recorded, Event.record])
        (by rw [hself]) (Or.inr ⟨hnew, hlinks _ _ _ hheld, peer, rfl⟩)
    · exact .keep (by simp [recorded, Event.record, hi]) (by rw [hothers i (Ne.symm hi)])
  | fanOut haction hbefore hself hqueue hothers htask =>
    rename_i k n msg exclude
    refine .keep rfl ?_
    by_cases hi : k = i
    · rw [← hi, hself]
    · rw [hothers i (Ne.symm hi)]
  | duplicate hseen hheld hhub htask =>
    exact .keep (by simp [recorded, Event.record]) (by rw [hhub])
  | restart => exact absurd (List.mem_singleton_self _) (halive _)

/-- **What every step does to the queues of a daemon.** -/
theorem MessageStep.delivers (h : MessageStep C s a s' es) (halive : ∀ i, .restarted i ∉ es)
    (hlinks : ∀ a b msg, (s.link a b).Holds (.feed msg) → WasPublished past msg) (i : ι) :
    DeliveryStep s s' past es i := by
  -- A step at another daemon.
  have hother : ∀ {k : ι} {ts : List (Task ι)}, i ≠ k → (∀ conn, deliveries es i conn = []) →
      s'.hub i = s.hub i → s'.tasks = Function.update s.tasks k ts →
      DeliveryStep s s' past es i := by
    intro k ts hi hnone hhub htask
    refine .keep hnone (fun conn => by rw [hhub]) (.of_eq ?_)
    exact (Net.ingesting_update htask i).trans (if_neg hi)
  cases h with
  | quiet hhub hingesting hes =>
    exact .keep (fun conn => deliveries_quiet hes) (hhub i).queue (hingesting i)
  | publish haction hid horigin hheld hkey hself hqueue hothers htask =>
    rename_i k key held msg
    by_cases hi : i = k
    · subst hi
      refine .publish (show recorded _ i = [msg.msgId] by simp [recorded, Event.record]) ?_ hqueue
        (Net.ingesting_append htask i) (by simp [MacroBus.publications, Event.publication])
      intro conn
      by_cases hconn : conn ∈ (s.hub i).recipients msg <;>
        simp [deliveries, Event.delivery, hconn]
    · exact hother hi (fun conn => by simp [deliveries, Event.delivery, Ne.symm hi])
        (hothers i hi) htask
  | ingest hnew hheld hself hchan hothers htask =>
    rename_i k peer msg
    by_cases hi : i = k
    · subst hi
      exact .ingest (show recorded _ i = [msg.msgId] by simp [recorded, Event.record])
        (fun conn => rfl) (fun conn => by rw [hchan]) (Net.ingesting_record htask)
        (hlinks _ _ _ hheld)
    · exact hother hi (fun conn => rfl) (hothers i hi) htask
  | fanOut haction hbefore hself hqueue hothers htask =>
    rename_i k n msg exclude
    by_cases hi : i = k
    · subst hi
      refine .fanOut ?_ hqueue (Net.ingesting_fanOut hbefore htask)
      intro conn
      by_cases hconn : conn ∈ (s.hub i).recipients msg <;>
        simp [deliveries, Event.delivery, hconn]
    · exact hother hi (fun conn => by simp [deliveries, Event.delivery, Ne.symm hi])
        (hothers i hi) htask
  | duplicate hseen hheld hhub htask =>
    exact .keep (fun conn => rfl) (fun conn => by rw [hhub]) (.of_eq (Net.ingesting_congr htask i))
  | restart => exact absurd (List.mem_singleton_self _) (halive _)

/-- The seen-set against the ids recorded. -/
structure RecordInvariant (C : Cluster ι) (s : Net ι) (past : List (Event ι)) : Prop where
  /-- Seen-sets are well formed. -/
  wf : ∀ i, (s.hub i).registry.seen.Wf
  /-- They have the configured capacity. -/
  cap : ∀ i, (s.hub i).registry.seen.cap = max (C.config i).limits.seenCapacity 1
  /-- They hold the last ids recorded. -/
  order : ∀ i, (s.hub i).registry.seen.order =
    SeenSet.window (s.hub i).registry.seen.cap (recorded past i)
  /-- No id is recorded twice. -/
  once : ∀ i, (recorded past i).Nodup
  /-- Recorded ids are ids of published messages. -/
  published : ∀ i, ∀ id ∈ recorded past i, ∃ msg, WasPublished past msg ∧ msg.msgId = id

/-- Nothing is recorded when all daemons have started. -/
theorem recordInvariant_initial : RecordInvariant C C.initial [] where
  wf i := SeenSet.wf_new _
  cap i := rfl
  order i := (List.drop_nil (i := 0 - (C.initial.hub i).registry.seen.cap)).symm
  once i := List.nodup_nil
  published i id hid := by cases hid

/-- An id that was recorded recently is still in the set. -/
theorem RecordInvariant.mem_set (hinv : RecordInvariant C s past) {i : ι} {older newer : List Str}
    {id : Str} (hrecorded : recorded past i = older ++ id :: newer)
    (hrecent : newer.length < max (C.config i).limits.seenCapacity 1) :
    id ∈ (s.hub i).registry.seen.set := by
  rw [(hinv.wf i).mem_set, hinv.order i, hinv.cap i, hrecorded]
  unfold SeenSet.window
  have hle : (older ++ id :: newer).length - max (C.config i).limits.seenCapacity 1 ≤
      older.length := by
    rw [List.length_append, List.length_cons]
    omega
  rw [List.drop_append_of_le_length hle]
  exact List.mem_append_right _ List.mem_cons_self

/-- A step that records no id again keeps the invariant. -/
theorem RecordInvariant.step (hinv : RecordInvariant C s past)
    (hsteps : ∀ i, RecordStep s s' past es i)
    (hnew : ∀ i id, recorded es i = [id] → id ∉ recorded past i) :
    RecordInvariant C s' (past ++ es) := by
  have hset : ∀ i id, recorded es i = [id] → id ∉ (s.hub i).registry.seen.set := by
    intro i id hid hmem
    rw [(hinv.wf i).mem_set, hinv.order i] at hmem
    exact hnew i id hid (List.mem_of_mem_drop hmem)
  constructor
  · intro i
    cases hsteps i with
    | keep hrecorded hseen => exact hseen ▸ hinv.wf i
    | record hrecorded hseen hsource =>
      obtain ⟨kept, hinsert, hwf, _⟩ := (hinv.wf i).insert_of_notMem (hset i _ hrecorded)
      rw [hseen, hinsert]
      exact hwf
  · intro i
    cases hsteps i with
    | keep hrecorded hseen => exact hseen ▸ hinv.cap i
    | record hrecorded hseen hsource =>
      obtain ⟨kept, hinsert, _, hcap, _⟩ := (hinv.wf i).insert_of_notMem (hset i _ hrecorded)
      rw [hseen, hinsert, ← hinv.cap i]
      exact hcap
  · intro i
    rw [recorded_append]
    cases hsteps i with
    | keep hrecorded hseen =>
      rw [hrecorded, List.append_nil, hseen]
      exact hinv.order i
    | record hrecorded hseen hsource =>
      obtain ⟨kept, hinsert, _, hcap, horder⟩ :=
        (hinv.wf i).insert_window (hinv.order i) (hset i _ hrecorded)
      rw [hseen, hinsert, hrecorded]
      exact hcap ▸ horder
  · intro i
    rw [recorded_append]
    cases hsteps i with
    | keep hrecorded hseen =>
      rw [hrecorded, List.append_nil]
      exact hinv.once i
    | record hrecorded hseen hsource =>
      rw [hrecorded, List.nodup_append_comm, List.singleton_append]
      exact List.nodup_cons.mpr ⟨hnew i _ hrecorded, hinv.once i⟩
  · intro i id hid
    rw [recorded_append] at hid
    have hbefore : id ∈ recorded past i → ∃ msg, WasPublished (past ++ es) msg ∧ msg.msgId = id := by
      intro hmem
      obtain ⟨msg, hpublished, hmsg⟩ := hinv.published i id hmem
      exact ⟨msg, hpublished.append es, hmsg⟩
    cases hsteps i with
    | keep hrecorded hseen =>
      rw [hrecorded, List.append_nil] at hid
      exact hbefore hid
    | record hrecorded hseen hsource =>
      rename_i msg
      rw [hrecorded] at hid
      rcases List.mem_append.mp hid with hid | hid
      · exact hbefore hid
      · exact ⟨msg, published_of_source hsource, (List.mem_singleton.mp hid).symm⟩

/-- The queues against the ids recorded. -/
structure DeliveryInvariant (s : Net ι) (past : List (Event ι)) : Prop where
  /-- An id is queued to a connection, or is to be fanned out, as often as it was recorded at the
  daemon, at most. -/
  count : ∀ i conn id, ((deliveries past i conn).map Message.msgId).count id +
    ((s.ingesting i).map Message.msgId).count id ≤ (recorded past i).count id
  /-- What is queued to a connection was published. -/
  published : ∀ i conn, ∀ msg ∈ deliveries past i conn, WasPublished past msg
  /-- What is to be fanned out was published. -/
  ingesting : ∀ i, ∀ msg ∈ s.ingesting i, WasPublished past msg
  /-- The queue of a connection is the end of what was queued to it. -/
  queue : ∀ i conn, ((s.hub i).chan conn).queue <:+
    (deliveries past i conn).map Outbound.deliver

/-- Nothing is queued when all daemons have started. -/
theorem deliveryInvariant_initial : DeliveryInvariant C.initial ([] : List (Event ι)) where
  count i conn id := le_rfl
  published i conn msg hmsg := by cases hmsg
  ingesting i msg hmsg := by cases hmsg
  queue i conn := List.suffix_refl _

/-- No id is queued to a connection twice where none is recorded twice. -/
theorem DeliveryInvariant.nodup (hinv : DeliveryInvariant s past) {i : ι}
    (honce : (recorded past i).Nodup) (conn : ℕ) :
    ((deliveries past i conn).map Message.msgId).Nodup := by
  refine List.nodup_iff_count_le_one.mpr fun id => ?_
  have hcount := hinv.count i conn id
  have hone := List.nodup_iff_count_le_one.mp honce id
  omega

/-- Every step keeps the queues to the ids recorded. -/
theorem DeliveryInvariant.count_step (hinv : DeliveryInvariant s past) {i : ι}
    (hstep : DeliveryStep s s' past es i) (conn : ℕ) (id : Str) :
    ((deliveries (past ++ es) i conn).map Message.msgId).count id +
      ((s'.ingesting i).map Message.msgId).count id ≤ (recorded (past ++ es) i).count id := by
  have hcount := hinv.count i conn id
  rw [deliveries_append, recorded_append, List.map_append, List.count_append, List.count_append]
  -- A message that is fanned out is queued to a connection once, at most.
  have honce : ∀ msg : Message, ((if conn ∈ (s.hub i).recipients msg then [msg] else []).map
      Message.msgId).count id ≤ [msg.msgId].count id := by
    intro msg
    split
    · exact le_rfl
    · exact Nat.zero_le _
  cases hstep with
  | keep hdeliveries hqueue hingesting =>
    rw [hdeliveries conn, (hingesting.map Message.msgId).count_eq id, List.map_nil, List.count_nil]
    omega
  | @publish msg hrecorded hdeliveries hqueue hingesting hone =>
    rw [hrecorded, hdeliveries conn, hingesting]
    have hle := honce msg
    omega
  | ingest hrecorded hdeliveries hqueue hingesting hpublished =>
    rw [hrecorded, hdeliveries conn, hingesting, List.map_append, List.count_append, List.map_nil,
      List.count_nil, List.map_singleton]
    omega
  | @fanOut msg hdeliveries hqueue hingesting =>
    have hperm := (hingesting.map Message.msgId).count_eq id
    rw [List.map_cons, ← List.singleton_append, List.count_append] at hperm
    rw [hdeliveries conn]
    have hle := honce msg
    omega

/-- Every step keeps the queues in order. -/
theorem DeliveryInvariant.step (hinv : DeliveryInvariant s past)
    (hsteps : ∀ i, DeliveryStep s s' past es i) : DeliveryInvariant s' (past ++ es) := by
  constructor
  · exact fun i => hinv.count_step (hsteps i)
  · intro i conn msg hmsg
    rw [deliveries_append] at hmsg
    rcases List.mem_append.mp hmsg with hmsg | hmsg
    · exact (hinv.published i conn msg hmsg).append es
    · cases hsteps i with
      | keep hdeliveries => rw [hdeliveries conn] at hmsg; cases hmsg
      | publish hrecorded hdeliveries hqueue hingesting hone =>
        rw [hdeliveries conn] at hmsg
        split at hmsg
        · rw [List.mem_singleton.mp hmsg]
          exact wasPublished_of_publications hone
        · cases hmsg
      | ingest hrecorded hdeliveries => rw [hdeliveries conn] at hmsg; cases hmsg
      | fanOut hdeliveries hqueue hingesting =>
        rw [hdeliveries conn] at hmsg
        split at hmsg
        · rw [List.mem_singleton.mp hmsg]
          exact (hinv.ingesting i _ (hingesting.subset List.mem_cons_self)).append es
        · cases hmsg
  · intro i msg hmsg
    cases hsteps i with
    | keep hdeliveries hqueue hingesting =>
      exact (hinv.ingesting i msg (hingesting.subset hmsg)).append es
    | publish hrecorded hdeliveries hqueue hingesting =>
      exact (hinv.ingesting i msg (hingesting ▸ hmsg)).append es
    | ingest hrecorded hdeliveries hqueue hingesting hpublished =>
      rw [hingesting] at hmsg
      rcases List.mem_append.mp hmsg with hmsg | hmsg
      · exact (hinv.ingesting i msg hmsg).append es
      · rw [List.mem_singleton.mp hmsg]
        exact hpublished.append es
    | fanOut hdeliveries hqueue hingesting =>
      exact (hinv.ingesting i msg (hingesting.subset (List.mem_cons_of_mem _ hmsg))).append es
  · intro i conn
    rw [deliveries_append, List.map_append]
    -- What is queued comes behind what is in the queue.
    have hbehind : ∀ msg : Message, ((s'.hub i).chan conn).queue = ((s.hub i).chan conn).queue ++
        (if conn ∈ (s.hub i).recipients msg then [.deliver msg] else []) →
        deliveries es i conn = (if conn ∈ (s.hub i).recipients msg then [msg] else []) →
        ((s'.hub i).chan conn).queue <:+
          (deliveries past i conn).map .deliver ++ (deliveries es i conn).map .deliver := by
      intro msg hqueue hdeliveries
      obtain ⟨taken, htaken⟩ := hinv.queue i conn
      refine ⟨taken, ?_⟩
      rw [hqueue, hdeliveries, ← htaken, List.append_assoc]
      split <;> rfl
    cases hsteps i with
    | keep hdeliveries hqueue | ingest hrecorded hdeliveries hqueue =>
      rw [hdeliveries conn, List.map_nil, List.append_nil]
      exact (hqueue conn).trans (hinv.queue i conn)
    | publish hrecorded hdeliveries hqueue => exact hbehind _ (hqueue conn) (hdeliveries conn)
    | fanOut hdeliveries hqueue => exact hbehind _ (hqueue conn) (hdeliveries conn)

/-- Daemons keep their names. -/
theorem names_of_run (hrun : Run C.step anyStep C.initial s past) (i : ι) :
    (s.hub i).registry.daemonId = (C.config i).daemonId := by
  refine Run.invariant (I := fun s _ => ∀ i, (s.hub i).registry.daemonId = (C.config i).daemonId)
    (fun _ => rfl) ?_ hrun i
  intro s past a s' es hnames _ hstep
  exact (Cluster.stepped C hstep).messages.names hnames

/-- **Every published message is authentic.** -/
theorem authentic_of_run (hrun : Run C.step anyStep C.initial s past) {msg : Message}
    (h : WasPublished past msg) : Authentic C past msg := by
  refine Run.invariant_of_reached
    (I := fun _ past => ∀ msg, WasPublished past msg → Authentic C past msg) ?_ ?_ hrun msg h
  · rintro msg ⟨_, _, _, _, hmem⟩
    cases hmem
  · rintro s past a s' es hbefore ih _ hstep msg ⟨i, key, held, queued, hmem⟩
    rcases List.mem_append.mp hmem with hmem | hmem
    · obtain ⟨s₀, before, after, k, key, held, queued, hrun, rfl, hrest⟩ :=
        ih msg ⟨i, key, held, queued, hmem⟩
      refine ⟨s₀, before, after ++ es, k, key, held, queued, hrun, ?_, hrest⟩
      rw [List.append_assoc, List.cons_append]
    · cases (Cluster.stepped C hstep).messages with
      | quiet hhub hingesting hes => cases hes _ hmem
      | publish haction hid horigin hheld hkey =>
        obtain ⟨rfl, rfl, rfl, rfl, rfl⟩ := Event.published.inj (List.mem_singleton.mp hmem)
        exact ⟨s, past, [], _, _, _, _, hbefore, rfl, horigin.trans (names_of_run hbefore _),
          hheld, hkey⟩
      | ingest => simp at hmem
      | fanOut => simp at hmem
      | duplicate => simp at hmem
      | restart => simp at hmem

/-- What is assumed of a run: no daemon restarts, no counter goes round, and ids that come back
are still remembered. -/
structure WithinHorizon (C : Cluster ι) (past : List (Event ι)) : Prop where
  /-- No daemon restarts. -/
  alive : ∀ i, .restarted i ∉ past
  /-- No counter goes round. -/
  count : ∀ i, (publications past i).length ≤ u64Values
  /-- Ids that come back are still remembered. -/
  timely : Timely C past

/-- What is assumed of a run holds of every part of it. -/
theorem WithinHorizon.of_append (h : WithinHorizon C (past ++ es)) : WithinHorizon C past where
  alive i hmem := h.alive i (List.mem_append_left es hmem)
  count i := by
    have hcount := h.count i
    rw [publications_append, List.length_append] at hcount
    omega
  timely := by
    rintro i peer msg new before after rfl older newer hrecorded
    refine h.timely i peer msg new before (after ++ es) ?_ older newer hrecorded
    rw [List.append_assoc, List.cons_append]

/-- The invariants of a run within the horizon. -/
structure HorizonInvariant (C : Cluster ι) (s : Net ι) (past : List (Event ι)) : Prop where
  /-- Messages are numbered. -/
  publications : PublicationInvariant C s past
  /-- Ids are recorded once. -/
  records : RecordInvariant C s past
  /-- Queues follow the records. -/
  deliveries : DeliveryInvariant s past

/-- A step within the horizon keeps the invariants. -/
theorem HorizonInvariant.step (hinv : HorizonInvariant C s past) (hstep : C.step s a = some (s', es))
    (hhorizon : WithinHorizon C (past ++ es)) : HorizonInvariant C s' (past ++ es) := by
  have hstepped := Cluster.stepped C hstep
  have halive : ∀ i, .restarted i ∉ es := fun i hmem =>
    hhorizon.alive i (List.mem_append_right past hmem)
  have hsteps := hstepped.messages.records halive hinv.publications.links
  refine ⟨hinv.publications.step hstepped halive, ?_,
    hinv.deliveries.step (hstepped.messages.delivers halive hinv.publications.links)⟩
  refine hinv.records.step hsteps ?_
  intro i id hid hold
  cases hsteps i with
  | keep hrecorded => rw [hrecorded] at hid; cases hid
  | record hrecorded hseen hsource =>
    rename_i msg
    obtain rfl := List.singleton_inj.mp (hrecorded.symm.trans hid)
    rcases hsource with ⟨hnext, hone⟩ | ⟨hunseen, _, peer, rfl⟩
    · -- An id that is assigned has not been assigned before.
      obtain ⟨old, hpublished, heq⟩ := hinv.records.published i _ hold
      have hcount := hhorizon.count i
      rw [publications_append, hone, List.length_append, List.length_singleton] at hcount
      exact hinv.publications.fresh (by omega) hpublished (heq.trans hnext)
    · -- An id that comes back is still in the set.
      obtain ⟨older, newer, hrecord⟩ := List.append_of_mem hold
      have hrecent := hhorizon.timely i peer msg true past [] rfl older newer hrecord
      exact hunseen (hinv.records.mem_set hrecord hrecent)

/-- The invariants hold in every run within the horizon. -/
theorem horizonInvariant_of_run (hrun : Run C.step anyStep C.initial s past)
    (hhorizon : WithinHorizon C past) : HorizonInvariant C s past := by
  refine Run.invariant_of_history (H := WithinHorizon C) (I := HorizonInvariant C) ?_ ?_ ?_
    hrun hhorizon
  · exact fun past es h => h.of_append
  · exact ⟨publicationInvariant_initial, recordInvariant_initial, deliveryInvariant_initial⟩
  · intro s past a s' es hinv _ hstep hhorizon
    exact hinv.step hstep hhorizon

/-- **Delivery at most once, and of what was published.** In every run without restarts in
which no counter goes round and ids that come back are still remembered, no connection is
queued a message id twice, every message queued to it was published by the daemon named by
its origin for the key that daemon's table held, and its queue holds nothing else. -/
theorem delivered_at_most_once (hrun : Run C.step anyStep C.initial s past)
    (halive : ∀ k, .restarted k ∉ past) (hcount : ∀ k, (publications past k).length ≤ u64Values)
    (htimely : Timely C past) (i : ι) (conn : ℕ) :
    ((deliveries past i conn).map Message.msgId).Nodup ∧
      (∀ msg ∈ deliveries past i conn, Authentic C past msg) ∧
      ((s.hub i).chan conn).queue <:+ (deliveries past i conn).map Outbound.deliver := by
  have hinv := horizonInvariant_of_run hrun ⟨halive, hcount, htimely⟩
  refine ⟨?_, ?_, hinv.deliveries.queue i conn⟩
  · exact hinv.deliveries.nodup (hinv.records.once i) conn
  · intro msg hmsg
    exact authentic_of_run hrun (hinv.deliveries.published i conn msg hmsg)

/-- A short history is timely. -/
theorem timely_of_length (h : ∀ i, past.length ≤ max (C.config i).limits.seenCapacity 1) :
    Timely C past := by
  rintro i peer msg new before after rfl older newer hrecorded
  have hfilter : (recorded before i).length ≤ before.length := List.length_filterMap_le _ _
  have hlength := h i
  rw [hrecorded, List.length_append, List.length_cons] at hfilter
  rw [List.length_append, List.length_cons] at hlength
  omega

/-- A message of a pair that is published and forwarded. -/
def forwardTrace : List (Action Bool) :=
  [.register false "t".toList "k".toList 1, .broadcast false 0,
    .insert false true, .snapshot false true, .push false true, .start false true,
    .subscribe false 7 "t".toList, .subscribe true 0 "t".toList,
    .publish false "t".toList "k".toList ["a".toList], .broadcast false 0,
    .write false true, .write false true, .read true false, .broadcast true 0,
    .read true false, .fanOut true 0]

/-- A message that is published and forwarded is delivered at both daemons. -/
theorem delivered_at_most_once_forwarded : ∃ (s : Net Bool) (past : List (Event Bool)),
    Run pair.step anyStep pair.initial s past ∧
      (deliveries past true 0).map Message.msgId = ["d1-1".toList] ∧
      ((deliveries past true 0).map Message.msgId).Nodup ∧
      ∀ msg ∈ deliveries past true 0, Authentic pair past msg := by
  obtain ⟨s, past, hrun, halive, hcount, hlength, hdeliveries⟩ :=
    exists_run pair.step (fun _ _ _ => true) pair.initial forwardTrace
      (P := fun _ past => (∀ k, .restarted k ∉ past) ∧
        (∀ k, (publications past k).length ≤ u64Values) ∧ past.length ≤ 10 ∧
        (deliveries past true 0).map Message.msgId = ["d1-1".toList]) (by decide)
  have hrun' : Run pair.step anyStep pair.initial s past := hrun.weaken fun _ _ _ _ => trivial
  have htimely : Timely pair past := timely_of_length fun i =>
    hlength.trans (show 10 ≤ max 65536 1 by decide)
  obtain ⟨hnodup, hauthentic, _⟩ := delivered_at_most_once hrun' halive hcount htimely true 0
  exact ⟨s, past, hrun', hdeliveries, hnodup, hauthentic⟩

section RoundAbout

/-- A daemon has published `n` messages to a subscriber that takes them at once. -/
structure Publishing (C : Cluster ι) (i : ι) (n : ℕ) (s : Net ι) : Prop where
  /-- The daemon has its name. -/
  name : (s.hub i).registry.daemonId = (C.config i).daemonId
  /-- The next number. -/
  seq : (s.hub i).registry.seq = (n + 1) % u64Values
  /-- The type is registered. -/
  held : ∃ reg, (s.hub i).registry.types.lookup "t".toList = some reg ∧ reg.key = "k".toList
  /-- The connection is subscribed. -/
  subscribed : (s.hub i).registry.subscribers "t".toList = {0}
  /-- It has room. -/
  room : ((s.hub i).chan 0).isOpen = true ∧ ((s.hub i).chan 0).queue = [] ∧
    0 < ((s.hub i).chan 0).depth

/-- One more message is published. -/
theorem Publishing.next {i : ι} {n : ℕ} (h : Publishing C i n s)
    (hrun : Run C.step anyStep C.initial s past) :
    ∃ s' key held msg, Run C.step anyStep C.initial s' (past ++ [.published i key held msg {0}]) ∧
      msg.msgId = C.messageId i n ∧ Publishing C i (n + 1) s' := by
  obtain ⟨held, hheld, hkey⟩ := h.held
  obtain ⟨hopen, hempty, hdepth⟩ := h.room
  have hroom : ((s.hub i).chan 0).hasRoom = true := by
    simp [Chan.hasRoom, hopen, hempty, hdepth]
  generalize hmsg : Message.mk "t".toList (s.hub i).registry.msgId (s.hub i).registry.daemonId [] =
    msg
  generalize hhub : Hub.fanoutLocked { s.hub i with registry := { (s.hub i).registry with
    seq := ((s.hub i).registry.seq + 1) % u64Values
    seen := ((s.hub i).registry.seen.insert (s.hub i).registry.msgId).2 } } msg = hub
  have hpublish := Hub.publishLocal_eq_ok_iff.mpr
    ⟨⟨held, hheld, hkey⟩, hmsg.symm, hhub.symm⟩
  have hrecipients : (s.hub i).recipients msg = {0} := by
    unfold Hub.recipients
    rw [← hmsg, h.subscribed, Finset.filter_singleton, if_pos hroom]
  have hregistry : hub.registry = { (s.hub i).registry with
      seq := ((s.hub i).registry.seq + 1) % u64Values
      seen := ((s.hub i).registry.seen.insert (s.hub i).registry.msgId).2 } := by
    rw [← hhub, Hub.fanoutLocked_registry]
  have hchan : hub.chan 0 =
      { (s.hub i).chan 0 with queue := [.deliver msg] } := by
    have hsubscribed : 0 ∈ (s.hub i).registry.subscribers msg.typeName := by
      rw [← hmsg, h.subscribed]
      exact Finset.mem_singleton_self 0
    rw [← hhub, Hub.fanoutLocked_chan]
    refine (if_pos hsubscribed).trans ?_
    unfold Chan.offer
    rw [if_pos hroom, hempty, List.nil_append]
  have hstep := Cluster.step_publish (C := C) (by decide) (by decide) (Nat.zero_le _) hheld hpublish
  rw [hrecipients] at hstep
  have hrecv : C.step ((s.setHub i hub).addTask i ⟨.feed msg, none, false⟩) (.recv i 0) = some
      (((s.setHub i hub).addTask i ⟨.feed msg, none, false⟩).setHub i { hub with
        chan := Function.update hub.chan 0 { (s.hub i).chan 0 with queue := [] } }, []) := by
    simp only [Cluster.step, Net.addTask_hub, Net.setHub_hub_self, hchan]
  have hnext := Run.step (Run.step hrun trivial hstep) trivial hrecv
  rw [List.append_nil] at hnext
  refine ⟨_, _, _, _, hnext, ?_, ?_⟩
  · rw [← hmsg]
    unfold Registry.msgId Cluster.messageId
    rw [h.name, h.seq]
  · constructor
    · rw [Net.setHub_hub_self, hregistry]
      exact h.name
    · rw [Net.setHub_hub_self, hregistry, h.seq, Nat.mod_add_mod]
    · rw [Net.setHub_hub_self, hregistry]
      exact h.held
    · rw [Net.setHub_hub_self, hregistry]
      exact h.subscribed
    · rw [Net.setHub_hub_self]
      dsimp only
      rw [Function.update_self]
      exact ⟨hopen, rfl, hdepth⟩

/-- Any number of messages more can be published. -/
theorem Publishing.run {i : ι} {n : ℕ} (h : Publishing C i n s)
    (hrun : Run C.step anyStep C.initial s past) (m : ℕ) :
    ∃ s' es, Run C.step anyStep C.initial s' (past ++ es) ∧ Publishing C i (n + m) s' ∧
      ∀ e ∈ es, ∃ key held msg, e = .published i key held msg {0} := by
  induction m with
  | zero => exact ⟨s, [], by rwa [List.append_nil], h, by simp⟩
  | succ m ih =>
    obtain ⟨s', es, hrun', hpublishing, hes⟩ := ih
    obtain ⟨s'', key, held, msg, hrun'', _, hnext⟩ := hpublishing.next hrun'
    refine ⟨s'', es ++ [.published i key held msg {0}], by rwa [← List.append_assoc], hnext, ?_⟩
    intro e he
    rcases List.mem_append.mp he with he | he
    · exact hes e he
    · exact ⟨key, held, msg, List.mem_singleton.mp he⟩

/-- A subscriber before the first message. -/
theorem exists_publishing (C : Cluster ι) (i : ι) :
    ∃ s past, Run C.step anyStep C.initial s past ∧ Publishing C i 0 s ∧
      ∀ e ∈ past, ∃ typeName reg, e = .created i typeName reg := by
  have hregister := Cluster.step_register (C := C) (s := C.initial) (i := i)
    (show validate.isValidType "t".toList = true by decide)
    (show validate.isValidKey "k".toList = true by decide) (show 0 < u64Values by decide) rfl
  generalize hreg : TypeReg.mk "k".toList (C.initial.hub i).registry.daemonId 0 = reg at hregister
  generalize hs : (C.initial.setHub i _).addTask i _ = s at hregister
  have hhub : s.hub i = { C.freshHub i with registry := { (C.freshHub i).registry with
      types := (C.freshHub i).registry.types.insert "t".toList reg } } := by
    rw [← hs, Net.addTask_hub, Net.setHub_hub_self]
    rfl
  have hopen : ((s.hub i).chan 0).isOpen = true := by
    rw [hhub]
    rfl
  have hsubscribe : C.step s (.subscribe i 0 "t".toList) = _ := Cluster.step_subscribe hopen
  rw [hhub] at hsubscribe
  have hdepth : 0 < (C.config i).limits.queueDepth :=
    Nat.pos_of_ne_zero ((Config.validate_eq_ok_iff _).mp (C.valid i)).2.2
  refine ⟨_, _, .step (.step .init trivial hregister) trivial hsubscribe, ?_, ?_⟩
  · constructor
    · rw [Net.setHub_hub_self]
      rfl
    · rw [Net.setHub_hub_self]
      exact (by decide : 1 = (0 + 1) % u64Values)
    · rw [Net.setHub_hub_self]
      exact ⟨reg, AList.lookup_insert _, by rw [← hreg]⟩
    · rw [Net.setHub_hub_self]
      rfl
    · rw [Net.setHub_hub_self]
      exact ⟨rfl, rfl, hdepth⟩
  · intro e he
    simp only [List.nil_append, List.append_nil, List.mem_singleton] at he
    exact ⟨_, _, he⟩

/-- **A counter that goes round repeats its ids**, and a subscriber is queued an id twice. -/
theorem counter_goes_round (C : Cluster ι) (i : ι) :
    ∃ s past, Run C.step anyStep C.initial s past ∧ (∀ k, .restarted k ∉ past) ∧
      Timely C past ∧ ¬((deliveries past i 0).map Message.msgId).Nodup := by
  obtain ⟨s₀, past, hrun₀, hpublishing₀, hpast⟩ := exists_publishing C i
  obtain ⟨s₁, key₁, held₁, msg₁, hrun₁, hid₁, hpublishing₁⟩ := hpublishing₀.next hrun₀
  obtain ⟨s₂, es, hrun₂, hpublishing₂, hes⟩ := hpublishing₁.run hrun₁ (u64Values - 1)
  obtain ⟨s₃, key₃, held₃, msg₃, hrun₃, hid₃, _⟩ := hpublishing₂.next hrun₂
  have hevents : ∀ e ∈ past ++ [.published i key₁ held₁ msg₁ {0}] ++ es ++
      [.published i key₃ held₃ msg₃ {0}],
      (∃ typeName reg, e = .created i typeName reg) ∨
        ∃ key held msg, e = .published i key held msg {0} := by
    intro e he
    simp only [List.mem_append, List.mem_singleton] at he
    rcases he with ((he | rfl) | he) | rfl
    · exact Or.inl (hpast e he)
    · exact Or.inr ⟨_, _, _, rfl⟩
    · exact Or.inr (hes e he)
    · exact Or.inr ⟨_, _, _, rfl⟩
  refine ⟨s₃, _, hrun₃, ?_, ?_, ?_⟩
  · intro k hmem
    rcases hevents _ hmem with ⟨_, _, h⟩ | ⟨_, _, _, h⟩ <;> cases h
  · intro j peer msg new before after heq
    have hmem : Event.ingested j peer msg new ∈ past ++
        [.published i key₁ held₁ msg₁ {0}] ++ es ++ [.published i key₃ held₃ msg₃ {0}] := by
      rw [heq]
      exact List.mem_append_right _ List.mem_cons_self
    rcases hevents _ hmem with ⟨_, _, h⟩ | ⟨_, _, _, h⟩ <;> cases h
  · have hone : ∀ key held msg, deliveries [Event.published i key held msg {0}] i 0 = [msg] := by
      intro key held msg
      simp [deliveries, Event.delivery]
    have hsame : msg₃.msgId = msg₁.msgId := by
      rw [hid₁, hid₃]
      unfold Cluster.messageId
      have hround : (0 + 1 + (u64Values - 1) + 1) % u64Values = (0 + 1) % u64Values := by decide
      rw [hround]
    simp only [deliveries_append, hone, List.map_append, List.map_singleton]
    intro hnodup
    have hdisjoint := (List.nodup_append'.mp hnodup).2.2
    refine hdisjoint (a := msg₁.msgId) ?_ (List.mem_singleton.mpr hsame.symm)
    exact List.mem_append_left _ (List.mem_append_right _ (List.mem_singleton_self _))

/-- A subscriber is queued an id twice after 2^64 messages. -/
theorem id_is_queued_twice : ∃ (s : Net Bool) (past : List (Event Bool)),
    Run pair.step anyStep pair.initial s past ∧ (∀ k, .restarted k ∉ past) ∧
      Timely pair past ∧ ¬((deliveries past false 0).map Message.msgId).Nodup :=
  counter_goes_round pair false

end RoundAbout

end Steps

end MacroBus
