import MacroBus.Busd.DropNotices

/-!
# One queue for all types

A connection has one queue for all its subscriptions. Whether a message is tail-dropped for it
depends on the messages of its type, on what the connection takes from the queue, and on the
messages of other types that are in the queue, and on nothing else. The reference model is a
lane: a bounded queue that only counts.
-/

namespace MacroBus

namespace Daemon

/-- What in a history matters to the messages of one type for one connection. -/
inductive Sight
  /-- The connection subscribed to the type, or unsubscribed. -/
  | command (on : Bool)
  /-- The connection ended. -/
  | ended
  /-- The connection took an item from its queue. -/
  | read
  /-- The queue took a message of another type. -/
  | other
  /-- A message of the type was published. -/
  | publish
  deriving DecidableEq

/-- What of it an event is. -/
def Event.sight (id : ℕ) (typeName : Str) : Event → Option Sight
  | .did id' (.call (.removeConn _)) => if id' = id then some .ended else none
  | .did id' (.call made) => if id' = id then (made.subscription typeName).map .command else none
  | .took id' _ => if id' = id then some .read else none
  | .fannedOut _ msg queued =>
    if msg.typeName = typeName then some .publish else if id ∈ queued then some .other else none
  | _ => none

/-- All of it, oldest first. -/
def sights (past : List Event) (id : ℕ) (typeName : Str) : List Sight :=
  past.filterMap (Event.sight id typeName)

/-- Whether an event is the end of the connection. -/
def Event.isEnd (id : ℕ) : Event → Bool
  | .did id' (.call (.removeConn _)) => id' = id
  | _ => false

/-- The connection has ended if one of the events is its end. -/
theorem any_isEnd_iff {past : List Event} {id : ℕ} :
    past.any (Event.isEnd id) = true ↔ Ended past id := by
  unfold Ended
  rw [List.any_eq_true]
  constructor
  · rintro ⟨e, he, hend⟩
    unfold Event.isEnd at hend
    split at hend
    · next id' types =>
      obtain rfl := of_decide_eq_true hend
      exact ⟨types, he⟩
    · cases hend
  · rintro ⟨types, he⟩
    exact ⟨_, he, decide_eq_true rfl⟩

/-- Whether a connection has ended can be seen in the history. -/
instance (past : List Event) (id : ℕ) : Decidable (Ended past id) :=
  decidable_of_iff _ any_isEnd_iff

/-- Whether a connection listens can be seen in the history. -/
instance (past : List Event) (id : ℕ) (typeName : Str) : Decidable (Listening past id typeName) :=
  inferInstanceAs (Decidable (_ ∧ _))

/-- Whether an event after this history is a message of the type, and whether it is
tail-dropped: the connection listens and its queue does not take it. -/
def Event.fate (past : List Event) (id : ℕ) (typeName : Str) : Event → Option Bool
  | .fannedOut _ msg queued =>
    if msg.typeName = typeName then some (decide (Listening past id typeName ∧ id ∉ queued))
    else none
  | _ => none

/-- Whether the messages of a type among these events are tail-dropped, one by one. -/
def fatesAfter (id : ℕ) (typeName : Str) : List Event → List Event → List Bool
  | _, [] => []
  | past, e :: es => (e.fate past id typeName).toList ++ fatesAfter id typeName (past ++ [e]) es

/-- Whether the messages of a type in the history were tail-dropped, oldest first. -/
def fates (past : List Event) (id : ℕ) (typeName : Str) : List Bool := fatesAfter id typeName [] past

/-- A bounded queue that only counts, and one type on it. -/
structure Lane where
  /-- The last command for the type. -/
  last : Option Bool := none
  /-- The connection has ended. -/
  ended : Bool := false
  /-- How many messages the queue took, of all types. -/
  queued : ℕ := 0
  /-- How many items were taken from it. -/
  taken : ℕ := 0
  /-- Whether the messages of the type were tail-dropped. -/
  fates : List Bool := []

/-- Whether the connection listens to the type. -/
def Lane.listens (l : Lane) : Bool := !l.ended && l.last = some true

/-- The lane after it has seen this. -/
def Lane.next (depth : ℕ) (l : Lane) : Sight → Lane
  | .command on => { l with last := some on }
  | .ended => { l with ended := true }
  | .read => { l with taken := l.taken + 1 }
  | .other => { l with queued := l.queued + 1 }
  | .publish =>
    if l.listens && l.queued < l.taken + depth then
      { l with queued := l.queued + 1, fates := l.fates ++ [false] }
    else { l with fates := l.fates ++ [l.listens] }

/-- The lane after all of this. -/
def Lane.run (depth : ℕ) (seen : List Sight) : Lane := seen.foldl (Lane.next depth) {}

/-- Every fan-out of the history reached the queue of the connection exactly if the
connection listened and fewer items than `depth` waited. -/
def Decided (depth id : ℕ) (past : List Event) : Prop :=
  ∀ before publisher msg queued after, past = before ++ .fannedOut publisher msg queued :: after →
    (id ∈ queued ↔ Listening before id msg.typeName ∧
      (queuedTo before id).length < (takenBy before id).length + depth)

section Histories

variable {past es : List Event} {id depth : ℕ} {typeName : Str} {e : Event}

/-- The fates add up. -/
theorem fatesAfter_append (past es es' : List Event) :
    fatesAfter id typeName past (es ++ es') =
      fatesAfter id typeName past es ++ fatesAfter id typeName (past ++ es) es' := by
  induction es generalizing past with
  | nil => simp [fatesAfter]
  | cons e es ih => simp [fatesAfter, ih]

/-- One more event adds its fate. -/
theorem fates_concat (past : List Event) (e : Event) :
    fates (past ++ [e]) id typeName =
      fates past id typeName ++ (e.fate past id typeName).toList := by
  unfold fates
  rw [fatesAfter_append]
  simp [fatesAfter]

/-- What was decided before is decided. -/
theorem Decided.of_append (h : Decided depth id (past ++ es)) : Decided depth id past := by
  intro before publisher msg queued after hpast
  exact h before publisher msg queued (after ++ es) (by rw [hpast]; simp)

/-- More is decided, one event at a time. -/
theorem Decided.append (h : Decided depth id past)
    (hes : ∀ pre publisher msg queued post, es = pre ++ .fannedOut publisher msg queued :: post →
      (id ∈ queued ↔ Listening (past ++ pre) id msg.typeName ∧
        (queuedTo (past ++ pre) id).length < (takenBy (past ++ pre) id).length + depth)) :
    Decided depth id (past ++ es) := by
  intro before publisher msg queued after heq
  rcases List.append_eq_append_iff.mp heq with ⟨mid, rfl, hmid⟩ | ⟨mid, rfl, hmid⟩
  · exact hes mid publisher msg queued after hmid
  · cases mid with
    | nil => simpa using hes [] publisher msg queued after (by simpa using hmid.symm)
    | cons e mid =>
      obtain ⟨rfl, rfl⟩ := List.cons.inj hmid
      exact h before publisher msg queued mid rfl

/-- The lane that a history leaves. -/
structure Lane.Follows (l : Lane) (past : List Event) (id : ℕ) (typeName : Str) : Prop where
  /-- It knows the last command. -/
  last : l.last = lastCommand past id typeName
  /-- It knows whether the connection has ended. -/
  ended : l.ended = true ↔ Ended past id
  /-- It counts what the queue took. -/
  queued : l.queued = (queuedTo past id).length
  /-- It counts what was taken from it. -/
  taken : l.taken = (takenBy past id).length
  /-- It knows the fates of the messages. -/
  fates : l.fates = Daemon.fates past id typeName

/-- A lane knows whether its connection listens. -/
theorem Lane.Follows.listens {l : Lane} (h : l.Follows past id typeName) :
    l.listens = true ↔ Listening past id typeName := by
  unfold Lane.listens Listening
  rw [← h.last, ← h.ended]
  simp

/-- One more event, seen through a partial function. -/
theorem filterMap_concat {β : Type} (f : Event → Option β) (past : List Event) (e : Event) :
    (past ++ [e]).filterMap f = past.filterMap f ++ (f e).toList := by
  rw [List.filterMap_append]
  cases he : f e with
  | none => rw [List.filterMap_cons_none he]; rfl
  | some b => rw [List.filterMap_cons_some he]; rfl

/-- What the lane has to know after one more event. -/
theorem Lane.Follows.concat {l l' : Lane} (h : l.Follows past id typeName)
    (hlast : l'.last = (e.subscription id typeName).or l.last)
    (hended : l'.ended = (l.ended || e.isEnd id))
    (hqueued : l'.queued = l.queued + (e.queuedTo id).toList.length)
    (htaken : l'.taken = l.taken + (e.takenBy id).toList.length)
    (hfates : l'.fates = l.fates ++ (e.fate past id typeName).toList) :
    l'.Follows (past ++ [e]) id typeName where
  last := by
    rw [hlast, h.last]
    unfold lastCommand
    rw [filterMap_concat, List.getLast?_append]
    cases e.subscription id typeName <;> rfl
  ended := by
    rw [hended, ← any_isEnd_iff, List.any_append, Bool.or_eq_true, h.ended, Bool.or_eq_true,
      any_isEnd_iff]
    simp
  queued := by
    rw [hqueued, h.queued]
    unfold queuedTo
    rw [filterMap_concat, List.length_append]
  taken := by
    rw [htaken, h.taken]
    unfold takenBy
    rw [filterMap_concat, List.length_append]
  fates := by rw [hfates, h.fates, fates_concat]

/-- The lane follows a message of the type. -/
theorem Lane.Follows.publish {l : Lane} (h : l.Follows past id typeName) {publisher : Option ℕ}
    {msg : Message} {queued : Finset ℕ} (hmsg : msg.typeName = typeName)
    (hdecided : id ∈ queued ↔ Listening past id typeName ∧
      (queuedTo past id).length < (takenBy past id).length + depth) :
    (l.next depth .publish).Follows (past ++ [.fannedOut publisher msg queued]) id typeName := by
  have hfate : Event.fate past id typeName (.fannedOut publisher msg queued) =
      some (decide (Listening past id typeName ∧ id ∉ queued)) := if_pos hmsg
  have hroom : (l.listens && l.queued < l.taken + depth) = true ↔ id ∈ queued := by
    rw [hdecided, Bool.and_eq_true, h.listens, decide_eq_true_iff, h.queued, h.taken]
  unfold Lane.next
  dsimp only
  by_cases hid : id ∈ queued
  · rw [if_pos (hroom.mpr hid)]
    refine h.concat rfl (Bool.or_false _).symm ?_ rfl ?_
    · simp [Event.queuedTo, hid]
    · simp [hfate, hid]
  · rw [if_neg fun hin => hid (hroom.mp hin)]
    refine h.concat rfl (Bool.or_false _).symm ?_ rfl ?_
    · simp [Event.queuedTo, hid]
    · have hlistens : l.listens = decide (Listening past id typeName ∧ id ∉ queued) := by
        rw [Bool.eq_iff_iff, h.listens, decide_eq_true_iff]
        exact (and_iff_left hid).symm
      rw [hfate, Option.toList_some, hlistens]

/-- **The lane follows every event.** -/
theorem Lane.Follows.step {l : Lane} (h : l.Follows past id typeName)
    (hdecided : Decided depth id (past ++ [e])) :
    ((e.sight id typeName).toList.foldl (Lane.next depth) l).Follows (past ++ [e]) id typeName := by
  have hquiet : e.sight id typeName = none → e.subscription id typeName = none →
      e.isEnd id = false → e.queuedTo id = none → e.takenBy id = none →
      e.fate past id typeName = none →
      ((e.sight id typeName).toList.foldl (Lane.next depth) l).Follows (past ++ [e]) id typeName := by
    intro hsight hsub hend hqueued htaken hfate
    rw [hsight]
    refine h.concat ?_ ?_ ?_ ?_ ?_
    · rw [hsub]; rfl
    · rw [hend, Bool.or_false]; rfl
    · rw [hqueued]; rfl
    · rw [htaken]; rfl
    · rw [hfate]; exact (List.append_nil _).symm
  cases e with
  | act | ingested | broadcast => exact hquiet rfl rfl rfl rfl rfl rfl
  | took i out =>
    by_cases hi : i = id
    · subst hi
      have hsight : Event.sight i typeName (.took i out) = some .read := if_pos rfl
      have htaken : Event.takenBy i (.took i out) = some out := if_pos rfl
      rw [hsight]
      refine h.concat rfl (Bool.or_false _).symm rfl ?_ (List.append_nil _).symm
      rw [htaken]
      rfl
    · exact hquiet (if_neg hi) rfl rfl rfl (if_neg hi) rfl
  | fannedOut publisher msg queued =>
    have hdecided := hdecided past publisher msg queued [] rfl
    by_cases hmsg : msg.typeName = typeName
    · have hsight : Event.sight id typeName (.fannedOut publisher msg queued) = some .publish :=
        if_pos hmsg
      rw [hsight]
      rw [hmsg] at hdecided
      exact h.publish hmsg hdecided
    · have hfate : Event.fate past id typeName (.fannedOut publisher msg queued) = none :=
        if_neg hmsg
      by_cases hid : id ∈ queued
      · have hsight : Event.sight id typeName (.fannedOut publisher msg queued) = some .other := by
          simp [Event.sight, hmsg, hid]
        have hqueued : Event.queuedTo id (.fannedOut publisher msg queued) = some msg := if_pos hid
        rw [hsight]
        refine h.concat rfl (Bool.or_false _).symm ?_ rfl ?_
        · rw [hqueued]
          rfl
        · rw [hfate, Option.toList_none, List.append_nil]
          rfl
      · exact hquiet (by simp [Event.sight, hmsg, hid]) rfl rfl (if_neg hid) rfl hfate
  | did i effect =>
    by_cases hi : i = id
    · subst hi
      cases effect with
      | call made =>
        cases hsub : made.subscription typeName with
        | some on =>
          have hsight : Event.sight i typeName (.did i (.call made)) = some (.command on) := by
            cases made with
            | subscribe | unsubscribe => simp [Event.sight, hsub]
            | _ => cases hsub
          have hend : Event.isEnd i (.did i (.call made)) = false := by
            cases made with
            | removeConn => cases hsub
            | _ => rfl
          rw [hsight]
          refine h.concat ?_ ?_ rfl rfl (List.append_nil _).symm
          · simp [Event.subscription, hsub, Lane.next]
          · rw [hend, Bool.or_false]
            rfl
        | none =>
          have hnone : Event.subscription i typeName (.did i (.call made)) = none := by
            simp [Event.subscription, hsub]
          by_cases hremove : ∃ types, made = .removeConn types
          · obtain ⟨types, rfl⟩ := hremove
            have hsight : Event.sight i typeName (.did i (.call (.removeConn types))) =
                some .ended := if_pos rfl
            rw [hsight]
            refine h.concat ?_ ?_ rfl rfl (List.append_nil _).symm
            · rw [hnone]
              rfl
            · simp [Event.isEnd, Lane.next]
          · refine hquiet ?_ hnone ?_ rfl rfl rfl
            · cases made with
              | removeConn types => exact absurd ⟨types, rfl⟩ hremove
              | _ => simp [Event.sight, hsub]
            · cases made with
              | removeConn types => exact absurd ⟨types, rfl⟩ hremove
              | _ => rfl
      | _ => exact hquiet rfl rfl rfl rfl rfl rfl
    · cases effect with
      | call made =>
        refine hquiet ?_ (if_neg hi) ?_ rfl rfl rfl
        · cases made <;> exact if_neg hi
        · cases made with
          | removeConn => exact decide_eq_false hi
          | _ => rfl
      | _ => exact hquiet rfl rfl rfl rfl rfl rfl

/-- **A history that is decided leaves the lane of what matters in it.** -/
theorem lane_follows (hdecided : Decided depth id past) (typeName : Str) :
    (Lane.run depth (sights past id typeName)).Follows past id typeName := by
  induction past using List.reverseRecOn with
  | nil => exact ⟨rfl, by simp [Lane.run, sights, Ended], rfl, rfl, rfl⟩
  | append_singleton past e ih =>
    have hstep := (ih hdecided.of_append).step hdecided
    unfold Lane.run sights at hstep ⊢
    rwa [filterMap_concat, List.foldl_append]

end Histories

section Steps

variable {limits : Limits} {fwd : Bool} {d d' : Daemon} {past past' es : List Event} {a : Action}
  {id : ℕ} {typeName daemonId : Str}

/-- An offer neither changes the capacity of a queue nor closes it. -/
theorem Offered.keeps {ch ch' : Chan} (h : Offered ch ch') :
    ch'.depth = ch.depth ∧ ch'.isOpen = ch.isOpen := by
  rcases h with rfl | ⟨msg, rfl⟩
  · exact ⟨rfl, rfl⟩
  · unfold Chan.offer
    split
    · exact ⟨rfl, rfl⟩
    · split <;> exact ⟨rfl, rfl⟩

/-- The task of the connection neither changes the capacity of its queue nor closes it, until it
removes the connection. -/
theorem chan_of_uses {c c' : Conn} {h h' : Hub} {wake : Conn.Wake} {done : List Effect}
    (huses : Conn.Uses c h wake c' h' done) :
    (h'.chan c.id).depth = (h.chan c.id).depth ∧
      (c'.phase ≠ .gone → (h'.chan c.id).isOpen = (h.chan c.id).isOpen) := by
  cases huses with
  | alone => exact ⟨rfl, fun _ => rfl⟩
  | channel _ _ hown =>
    dsimp only
    rw [Function.update_self]
    cases hown <;> exact ⟨rfl, fun _ => rfl⟩
  | call made _ _ _ hgone =>
    cases made with
    | registerLocal | subscribe | unsubscribe | listTypes | publishPrecheck =>
      exact ⟨rfl, fun _ => rfl⟩
    | removeConn types =>
      simp only [Hub.execute]
      rw [Function.update_self]
      exact ⟨rfl, fun hphase => absurd (hgone.mpr ⟨types, rfl⟩) hphase⟩
    | publishLocal typeName key body =>
      simp only [Hub.execute]
      rcases hres : h.publishLocal typeName key body with ⟨e | msg, hub⟩
      · rw [Hub.publishLocal_error hres]
        exact ⟨rfl, fun _ => rfl⟩
      · obtain ⟨_, _, rfl⟩ := Hub.publishLocal_eq_ok_iff.mp hres
        obtain ⟨hdepth, hopen⟩ := (offered_fanoutLocked
          { h with registry := { h.registry with
            seq := (h.registry.seq + 1) % u64Values
            seen := (h.registry.seen.insert h.registry.msgId).2 } } msg c.id).keeps
        exact ⟨hdepth, fun _ => hopen⟩

/-- What holds of the channels after every step. -/
structure ChanInvariant (limits : Limits) (d : Daemon) : Prop where
  /-- A queue has the configured capacity. -/
  depth : ∀ id, (d.hub.chan id).depth = limits.queueDepth
  /-- The queue of a connection that is still there is open. -/
  isOpen : ∀ id c, d.conn id = some c → c.phase ≠ .gone → (d.hub.chan id).isOpen = true

/-- **Every step keeps the queues open and of their capacity.** -/
theorem ChanInvariant.step (hinv : ChanInvariant limits d)
    (hids : ∀ id c, d.conn id = some c → c.id = id)
    (hstep : step limits fwd d a = some (d', es)) : ChanInvariant limits d' := by
  cases a with
  | accept i =>
    obtain ⟨_, rfl, _⟩ := step_accept_eq_some_iff.mp hstep
    constructor
    · intro id
      by_cases hi : id = i
      · subst hi
        simp
      · simpa [Function.update_of_ne hi] using hinv.depth id
    · intro id c hconn hphase
      by_cases hi : id = i
      · subst hi
        simp
      · have hopen := hinv.isOpen id c (by simpa [Function.update_of_ne hi] using hconn) hphase
        simpa [Function.update_of_ne hi] using hopen
  | inbound made =>
    simp only [Daemon.step, Option.some.injEq, Prod.mk.injEq] at hstep
    obtain ⟨rfl, _⟩ := hstep
    have hkeeps := fun id => (offered_perform d.hub made id).keeps
    exact ⟨fun id => (hkeeps id).1.trans (hinv.depth id),
      fun id c hconn hphase => (hkeeps id).2.trans (hinv.isOpen id c hconn hphase)⟩
  | task i nowMs wake =>
    obtain ⟨c, c', h', done, hconn, hconnStep, rfl, _⟩ := step_task_eq_some_iff.mp hstep
    obtain rfl := hids i c hconn
    obtain ⟨hdepth, hopen⟩ := chan_of_uses (Conn.step_uses hconnStep).2
    have hothers : ∀ id, id ≠ c.id → (h'.chan id).depth = (d.hub.chan id).depth ∧
        (h'.chan id).isOpen = (d.hub.chan id).isOpen :=
      fun id hi => (offered_task hconnStep hi).keeps
    have hlive : c.phase ≠ .gone := by
      intro hgone
      rw [Conn.step_gone hgone] at hconnStep
      cases hconnStep
    constructor
    · intro id
      by_cases hi : id = c.id
      · exact hi ▸ hdepth.trans (hinv.depth c.id)
      · exact (hothers id hi).1.trans (hinv.depth id)
    · intro id c₁ hconn₁ hphase
      by_cases hi : id = c.id
      · subst hi
        obtain rfl : c' = c₁ := by simpa using hconn₁
        exact (hopen hphase).trans (hinv.isOpen c.id c hconn hlive)
      · exact (hothers id hi).2.trans
          (hinv.isOpen id c₁ (by simpa [Function.update_of_ne hi] using hconn₁) hphase)

/-- The channels of a daemon that runs. -/
theorem chanInvariant_of_run
    (hrun : Transition.Run (Daemon.step limits fwd) Transition.anyStep (start daemonId limits) d
      past) : ChanInvariant limits d :=
  hrun.invariant_of_reached (I := fun d _ => ChanInvariant limits d)
    ⟨fun _ => rfl, fun _ _ hconn => (by cases hconn)⟩
    fun _ _ _ _ _ hbefore hinv _ hstep => hinv.step (subscriptionInvariant_of_run hbefore).ids hstep

/-- A step that fans a message out makes no other call. -/
theorem calls_of_fanOut (hstep : step limits fwd d a = some (d', es)) {publisher : Option ℕ}
    {msg : Message} {queued : Finset ℕ} (hmem : .fannedOut publisher msg queued ∈ es) {i : ℕ}
    {made : Call} (hdid : .did i (.call made) ∈ es) :
    ∃ typeName key body, made = .publishLocal typeName key body := by
  cases a with
  | accept id =>
    obtain ⟨_, _, rfl⟩ := step_accept_eq_some_iff.mp hstep
    simp at hdid
  | inbound remote =>
    simp only [Daemon.step, Option.some.injEq, Prod.mk.injEq] at hstep
    obtain ⟨_, rfl⟩ := hstep
    rcases List.mem_cons.mp hdid with hact | hreceived
    · cases hact
    · exact absurd hreceived did_notMem_received
  | task id nowMs wake =>
    obtain ⟨c, c', h', done, _, hconnStep, _, rfl⟩ := step_task_eq_some_iff.mp hstep
    have hcalled : made ∈ calls done := by
      rcases List.mem_cons.mp hdid with hact | hrest
      · cases hact
      · rcases List.mem_append.mp hrest with htaken | hdone
        · exact absurd htaken did_notMem_taken
        · exact mem_calls.mpr (did_mem_observe.mp hdone).2
    have hmove : Event.fannedOut publisher msg queued ∈ taken d.hub id wake ++
        (calls done).flatMap fun made => fanned d.hub id (.call made) := by
      rw [← moves_task (a := .task id nowMs wake)]
      exact List.mem_filter.mpr ⟨hmem, rfl⟩
    have hfanned : ∃ other ∈ calls done,
        Event.fannedOut publisher msg queued ∈ fanned d.hub id (.call other) := by
      rcases List.mem_append.mp hmove with htaken | hdone
      · unfold taken at htaken
        split at htaken
        · simp at htaken
        · cases htaken
      · exact List.mem_flatMap.mp hdone
    obtain ⟨other, hother, hfan⟩ := hfanned
    obtain ⟨typeName, key, body, _, hpublish, _⟩ := mem_fanned.mp hfan
    obtain rfl := Effect.call.inj hpublish
    have hsame : made = .publishLocal typeName key body := by
      obtain ⟨_, huses⟩ := Conn.step_uses hconnStep
      cases huses with
      | alone _ hnone => rw [hnone] at hother; cases hother
      | channel hnone => rw [hnone] at hother; cases hother
      | call one _ hone =>
        rw [hone] at hother hcalled
        exact (List.mem_singleton.mp hcalled).trans (List.mem_singleton.mp hother).symm
    exact ⟨typeName, key, body, hsame⟩

/-- Where in a step a message is fanned out: to the recipients, and before any other move. -/
theorem moves_of_fanOut (hids : ∀ id c, d.conn id = some c → c.id = id)
    (hstep : step limits fwd d a = some (d', es)) {pre post : List Event} {publisher : Option ℕ}
    {msg : Message} {queued : Finset ℕ} (hes : es = pre ++ .fannedOut publisher msg queued :: post) :
    queued = d.hub.recipients msg ∧ moves pre = [] := by
  have hmoved := moved_step hids hstep
  have hmoves : moves es = moves pre ++ .fannedOut publisher msg queued :: moves post := by
    rw [hes]
    unfold moves
    rw [List.filter_append, List.filter_cons_of_pos rfl]
  obtain ⟨ms, hms⟩ : ∃ ms, moves es = ms := ⟨_, rfl⟩
  rw [hms] at hmoved hmoves
  have hone : ∀ e, ms = [e] → moves pre = [] ∧ e = .fannedOut publisher msg queued := by
    rintro e rfl
    rcases List.append_eq_singleton_iff.mp hmoves.symm with ⟨hpre, hrest⟩ | ⟨_, hrest⟩
    · exact ⟨hpre, (List.cons.inj hrest).1.symm⟩
    · cases hrest
  cases hmoved with
  | accept | quiet => simp at hmoves
  | took => cases (hone _ rfl).2
  | published =>
    obtain ⟨hpre, heq⟩ := hone _ rfl
    cases heq
    exact ⟨rfl, hpre⟩
  | ingested =>
    obtain ⟨hpre, heq⟩ := hone _ rfl
    cases heq
    exact ⟨rfl, hpre⟩

/-- What a step does before it fans a message out leaves the reference model alone. -/
theorem listening_of_fanOut (hstep : step limits fwd d a = some (d', es)) {pre post : List Event}
    {publisher : Option ℕ} {msg : Message} {queued : Finset ℕ}
    (hes : es = pre ++ .fannedOut publisher msg queued :: post) (id : ℕ) (typeName : Str) :
    Listening (past ++ pre) id typeName ↔ Listening past id typeName := by
  have hpublish : ∀ i made, .did i (.call made) ∈ pre →
      ∃ typeName key body, made = .publishLocal typeName key body := by
    intro i made hdid
    have hmem : .fannedOut publisher msg queued ∈ es := by
      rw [hes]
      simp
    have hdid' : .did i (.call made) ∈ es := by
      rw [hes]
      exact List.mem_append_left _ hdid
    exact calls_of_fanOut hstep hmem hdid'
  have hnone : pre.filterMap (Event.subscription id typeName) = [] := by
    refine List.filterMap_eq_nil_iff.mpr fun e he => ?_
    cases e with
    | did i effect =>
      cases effect with
      | call made =>
        obtain ⟨t, key, body, rfl⟩ := hpublish i made he
        exact ite_self none
      | _ => rfl
    | _ => rfl
  have hended : Ended (past ++ pre) id ↔ Ended past id := by
    unfold Ended
    simp only [List.mem_append]
    constructor
    · rintro ⟨types, hpast | hpre⟩
      · exact ⟨types, hpast⟩
      · obtain ⟨_, _, _, hremove⟩ := hpublish id _ hpre
        cases hremove
    · rintro ⟨types, hpast⟩
      exact ⟨types, Or.inl hpast⟩
  unfold Listening lastCommand
  rw [hended, List.filterMap_append, hnone, List.append_nil]

/-- The recipients of a message are the connections that listen and have room. -/
theorem mem_recipients_iff (hsub : SubscriptionInvariant d past) (hchan : ChanInvariant limits d)
    (msg : Message) : id ∈ d.hub.recipients msg ↔
      Listening past id msg.typeName ∧ (d.hub.chan id).queue.length < limits.queueDepth := by
  have hopen : Listening past id msg.typeName → (d.hub.chan id).isOpen = true := by
    intro hlistening
    cases hconn : d.conn id with
    | none => exact absurd hlistening (hsub.not_listening hconn msg.typeName)
    | some c =>
      exact hchan.isOpen id c hconn fun hgone => hlistening.1 ((hsub.gone id c hconn).mp hgone)
  unfold Hub.recipients Chan.hasRoom
  rw [Finset.mem_filter, hsub.listening, hchan.depth, Bool.and_eq_true, decide_eq_true_iff]
  constructor
  · rintro ⟨hlistening, _, hroom⟩
    exact ⟨hlistening, hroom⟩
  · rintro ⟨hlistening, hroom⟩
    exact ⟨hlistening, hopen hlistening, hroom⟩

/-- **Every fan-out is decided by what came before it**: the connection listens, and there is
room in its queue. -/
theorem decided_of_run
    (hrun : Transition.Run (Daemon.step limits fwd) Transition.anyStep (start daemonId limits) d
      past) (id : ℕ) : Decided limits.queueDepth id past := by
  refine hrun.invariant_of_reached (I := fun _ past => Decided limits.queueDepth id past) ?_ ?_
  · intro before publisher msg queued after hnil
    simp at hnil
  · intro d past a d' es hbefore hinv _ hstep
    refine hinv.append fun pre publisher msg queued post hes => ?_
    have hsub := subscriptionInvariant_of_run hbefore
    have hqueue := (queueInvariant_of_run hbefore).queue id
    obtain ⟨rfl, hpre⟩ := moves_of_fanOut hsub.ids hstep hes
    have hlength : (takenBy past id).length + (d.hub.chan id).queue.length =
        (queuedTo past id).length := by
      rw [← List.length_append, hqueue, List.length_map]
    have hnothing : takenBy ([] : List Event) id = [] ∧ queuedTo [] id = [] := ⟨rfl, rfl⟩
    rw [mem_recipients_iff hsub (chanInvariant_of_run hbefore), listening_of_fanOut hstep hes,
      queuedTo_append, takenBy_append, hpre, hnothing.1, hnothing.2, List.append_nil,
      List.append_nil]
    refine and_congr_right fun _ => ?_
    omega

/-- **Drops of a type depend on its own messages and on the queue.** Two runs that agree on the
messages of a type, on the subscription to it, on what the connection takes from its queue, and
on the messages of other types that its queue took, drop the same messages of the type. -/
theorem drops_depend_on_queue
    (hrun : Transition.Run (Daemon.step limits fwd) Transition.anyStep (start daemonId limits) d
      past)
    (hrun' : Transition.Run (Daemon.step limits fwd) Transition.anyStep (start daemonId limits) d'
      past')
    (hsame : sights past id typeName = sights past' id typeName) :
    fates past id typeName = fates past' id typeName := by
  have hlane := (lane_follows (decided_of_run hrun id) typeName).fates
  have hlane' := (lane_follows (decided_of_run hrun' id) typeName).fates
  rw [← hlane, ← hlane', hsame]

/-- A connection subscribes to two types, and another one registers them. -/
def twoTypes : List Action :=
  arrival 1 ++ arrives 1 (Str.asBytes "SUBSCRIBE a\nSUBSCRIBE b\n".toList) 6 ++
    arrival 2 ++ arrives 2 (Str.asBytes "REGISTER a k\nREGISTER b k\n".toList) 6

/-- The second connection publishes a message of the first type. -/
def publishA : List Action := arrives 2 (Str.asBytes "PUBLISH a k\n.\n".toList) 5

/-- The second connection publishes a message of the second type. -/
def publishB : List Action := arrives 2 (Str.asBytes "PUBLISH b k\n.\n".toList) 5

/-- Two runs with a queue of one item that differ in a message the queue does not take: the same
message of the other type is dropped. -/
theorem drops_depend_on_queue_full : ∃ d past d' past',
    Transition.Run (Daemon.step { queueDepth := 1 } false) Transition.anyStep
        (start "d1".toList { queueDepth := 1 }) d past ∧
      Transition.Run (Daemon.step { queueDepth := 1 } false) Transition.anyStep
        (start "d1".toList { queueDepth := 1 }) d' past' ∧
      (fanOuts past).map Message.typeName = ["b".toList, "b".toList] ∧
      (fanOuts past').map Message.typeName = ["b".toList, "a".toList, "b".toList] ∧
      fates past 1 "b".toList = [false, true] ∧
      fates past 1 "b".toList = fates past' 1 "b".toList := by
  obtain ⟨d, past, hrun, hsights, hfanOuts, hfates⟩ :=
    Transition.exists_run (Daemon.step { queueDepth := 1 } false) (fun _ _ _ => true)
      (start "d1".toList { queueDepth := 1 }) (twoTypes ++ publishB ++ publishB)
      (P := fun _ past => sights past 1 "b".toList = [.command true, .publish, .publish] ∧
        (fanOuts past).map Message.typeName = ["b".toList, "b".toList] ∧
        fates past 1 "b".toList = [false, true]) (by decide)
  obtain ⟨d', past', hrun', hsights', hfanOuts'⟩ :=
    Transition.exists_run (Daemon.step { queueDepth := 1 } false) (fun _ _ _ => true)
      (start "d1".toList { queueDepth := 1 }) (twoTypes ++ publishB ++ publishA ++ publishB)
      (P := fun _ past => sights past 1 "b".toList = [.command true, .publish, .publish] ∧
        (fanOuts past).map Message.typeName = ["b".toList, "a".toList, "b".toList]) (by decide)
  have hplain : Transition.Run (Daemon.step { queueDepth := 1 } false) Transition.anyStep
      (start "d1".toList { queueDepth := 1 }) d past := hrun.weaken fun _ _ _ _ => trivial
  have hplain' : Transition.Run (Daemon.step { queueDepth := 1 } false) Transition.anyStep
      (start "d1".toList { queueDepth := 1 }) d' past' := hrun'.weaken fun _ _ _ _ => trivial
  exact ⟨d, past, d', past', hplain, hplain', hfanOuts, hfanOuts', hfates,
    drops_depend_on_queue hplain hplain' (hsights.trans hsights'.symm)⟩

/-- **Messages of another type take the room**: two runs agree on the messages of one type and
on what the connection takes from its queue, which is nothing, and differ in one message of the
other type it listens to; only where that was published the message of the one type is
dropped. -/
theorem other_type_takes_room : ∃ d past d' past',
    Transition.Run (Daemon.step { queueDepth := 1 } false) Transition.anyStep
        (start "d1".toList { queueDepth := 1 }) d past ∧
      Transition.Run (Daemon.step { queueDepth := 1 } false) Transition.anyStep
        (start "d1".toList { queueDepth := 1 }) d' past' ∧
      (∀ typeName ∈ ["a".toList, "b".toList],
        Listening past 1 typeName ∧ Listening past' 1 typeName) ∧
      (fanOuts past).map Message.typeName = ["b".toList] ∧
      (fanOuts past').map Message.typeName = ["a".toList, "b".toList] ∧
      (sights past 1 "b".toList).filter (· ≠ .other) =
        (sights past' 1 "b".toList).filter (· ≠ .other) ∧
      fates past 1 "b".toList = [false] ∧ fates past' 1 "b".toList = [true] := by
  obtain ⟨d, past, hrun, hlistens, hfanOuts, hsights, hfates⟩ :=
    Transition.exists_run (Daemon.step { queueDepth := 1 } false) (fun _ _ _ => true)
      (start "d1".toList { queueDepth := 1 }) (twoTypes ++ publishB)
      (P := fun _ past => (∀ typeName ∈ ["a".toList, "b".toList], Listening past 1 typeName) ∧
        (fanOuts past).map Message.typeName = ["b".toList] ∧
        (sights past 1 "b".toList).filter (· ≠ .other) = [.command true, .publish] ∧
        fates past 1 "b".toList = [false]) (by decide)
  obtain ⟨d', past', hrun', hlistens', hfanOuts', hsights', hfates'⟩ :=
    Transition.exists_run (Daemon.step { queueDepth := 1 } false) (fun _ _ _ => true)
      (start "d1".toList { queueDepth := 1 }) (twoTypes ++ publishA ++ publishB)
      (P := fun _ past => (∀ typeName ∈ ["a".toList, "b".toList], Listening past 1 typeName) ∧
        (fanOuts past).map Message.typeName = ["a".toList, "b".toList] ∧
        (sights past 1 "b".toList).filter (· ≠ .other) = [.command true, .publish] ∧
        fates past 1 "b".toList = [true]) (by decide)
  exact ⟨d, past, d', past', hrun.weaken fun _ _ _ _ => trivial,
    hrun'.weaken fun _ _ _ _ => trivial,
    fun typeName hmem => ⟨hlistens typeName hmem, hlistens' typeName hmem⟩, hfanOuts, hfanOuts',
    hsights.trans hsights'.symm, hfates, hfates'⟩

end Steps

end Daemon

end MacroBus
