import MacroBus.Busd.Daemon

/-!
# Who is subscribed

The registry keeps the connections of each type and every connection keeps its own types.
Both agree, after every step of the daemon, with what the history says: a connection listens
to a type if it has not ended and its last `SUBSCRIBE` or `UNSUBSCRIBE` for the type was a
`SUBSCRIBE`.
-/

namespace MacroBus

/-- Whether a call is a `SUBSCRIBE` for the type, or an `UNSUBSCRIBE`. -/
def Call.subscription (typeName : Str) : Call → Option Bool
  | .subscribe t => if t = typeName then some true else none
  | .unsubscribe t => if t = typeName then some false else none
  | _ => none

namespace Registry

section Subscribers

variable {r : Registry} {typeName t : Str} {id i : ℕ}

/-- Subscribing adds one connection to one type. -/
theorem mem_subscribers_subscribe : i ∈ (r.subscribe typeName id).subscribers t ↔
    i ∈ r.subscribers t ∨ t = typeName ∧ i = id := by
  unfold subscribers subscribe
  by_cases ht : t = typeName
  · subst ht
    simp [or_comm]
  · simp [AList.lookup_insert_ne ht, ht]

/-- Unsubscribing takes one connection from one type. -/
theorem mem_subscribers_unsubscribe : i ∈ (r.unsubscribe typeName id).subscribers t ↔
    i ∈ r.subscribers t ∧ ¬(t = typeName ∧ i = id) := by
  unfold unsubscribe
  cases hset : r.subs.lookup typeName with
  | none =>
    dsimp only
    by_cases ht : t = typeName
    · subst ht
      simp [subscribers, hset]
    · simp [ht]
  | some set =>
    dsimp only
    by_cases ht : t = typeName
    · subst ht
      have hmem : i ∈ r.subscribers t ∧ ¬(t = t ∧ i = id) ↔ i ∈ set.erase id := by
        simp [subscribers, hset, and_comm]
      rw [hmem]
      split
      · next hempty => simp [subscribers, hempty]
      · simp [subscribers]
    · split
      · simp [subscribers, AList.lookup_erase_ne ht, ht]
      · simp [subscribers, AList.lookup_insert_ne ht, ht]

/-- Removing a connection takes it from all of these types. -/
theorem mem_subscribers_removeConn {types : List Str} :
    i ∈ (r.removeConn id types).subscribers t ↔ i ∈ r.subscribers t ∧ ¬(t ∈ types ∧ i = id) := by
  unfold removeConn
  induction types generalizing r with
  | nil => simp
  | cons typeName types ih =>
    rw [List.foldl_cons, ih, mem_subscribers_unsubscribe, List.mem_cons]
    tauto

/-- No type gets an empty set by subscribing. -/
theorem subscribe_nonempty (h : ∀ t, r.subs.lookup t ≠ some ∅) :
    (r.subscribe typeName id).subs.lookup t ≠ some ∅ := by
  unfold subscribe
  by_cases ht : t = typeName
  · subst ht
    simp
  · simpa [AList.lookup_insert_ne ht] using h t

/-- No type gets an empty set by unsubscribing. -/
theorem unsubscribe_nonempty (h : ∀ t, r.subs.lookup t ≠ some ∅) :
    (r.unsubscribe typeName id).subs.lookup t ≠ some ∅ := by
  unfold unsubscribe
  split
  · exact h t
  · by_cases ht : t = typeName
    · subst ht
      split
      · simp
      · next hset => simpa using hset
    · split
      · simpa [AList.lookup_erase_ne ht] using h t
      · simpa [AList.lookup_insert_ne ht] using h t

/-- No type gets an empty set by removing a connection. -/
theorem removeConn_nonempty {types : List Str} (h : ∀ t, r.subs.lookup t ≠ some ∅) :
    (r.removeConn id types).subs.lookup t ≠ some ∅ := by
  unfold removeConn
  induction types generalizing r with
  | nil => exact h t
  | cons typeName types ih => exact ih fun t => unsubscribe_nonempty h

end Subscribers

end Registry

namespace Daemon

/-- Whether an event is a `SUBSCRIBE` of the connection for the type, or an `UNSUBSCRIBE`. -/
def Event.subscription (id : ℕ) (typeName : Str) : Event → Option Bool
  | .did id' (.call made) => if id' = id then made.subscription typeName else none
  | _ => none

/-- The last of these in the history. -/
def lastCommand (past : List Event) (id : ℕ) (typeName : Str) : Option Bool :=
  (past.filterMap (Event.subscription id typeName)).getLast?

/-- The connection has been removed: `Conn::run` has returned. -/
def Ended (past : List Event) (id : ℕ) : Prop :=
  ∃ types, .did id (.call (.removeConn types)) ∈ past

/-- The reference model of the subscriber table. -/
def Listening (past : List Event) (id : ℕ) (typeName : Str) : Prop :=
  ¬Ended past id ∧ lastCommand past id typeName = some true

/-- What holds of subscriptions after every step. -/
structure SubscriptionInvariant (d : Daemon) (past : List Event) : Prop where
  /-- The subscriber table agrees with the reference model. -/
  listening : ∀ id typeName,
    id ∈ d.hub.registry.subscribers typeName ↔ Listening past id typeName
  /-- Connections are kept by their ids. -/
  ids : ∀ id c, d.conn id = some c → c.id = id
  /-- A connection knows its own subscriptions. -/
  mySubs : ∀ id c, d.conn id = some c → c.mySubs.Nodup ∧
    ∀ typeName, typeName ∈ c.mySubs ↔ id ∈ d.hub.registry.subscribers typeName
  /-- A connection that was not accepted yet has done nothing. -/
  fresh : ∀ id, d.conn id = none → ¬Ended past id ∧ ∀ typeName, lastCommand past id typeName = none
  /-- A connection is gone when it has ended. -/
  gone : ∀ id c, d.conn id = some c → (c.phase = .gone ↔ Ended past id)
  /-- No type has an empty set of subscribers. -/
  nonempty : ∀ typeName, d.hub.registry.subs.lookup typeName ≠ some ∅

section Histories

variable {h : Hub} {past : List Event} {done : List Effect} {id i nowMs : ℕ} {wake : Conn.Wake}
  {typeName : Str} {made : Call} {a : Action}

/-- The subscription commands among what is observed of an effect. -/
theorem subscription_observe (e : Effect) :
    (observe h id e).filterMap (Event.subscription i typeName) =
      if i = id then (e.asCall.bind fun made => made.subscription typeName).toList else [] := by
  have hrest : (fanned h id e).filterMap (Event.subscription i typeName) = [] := by
    refine List.filterMap_eq_nil_iff.mpr fun x hx => ?_
    obtain ⟨_, _, _, _, _, _, rfl⟩ := mem_fanned.mp hx
    rfl
  unfold observe
  rw [List.filterMap_cons, hrest]
  cases e with
  | call made' =>
    by_cases hi : i = id
    · simp only [Event.subscription, if_pos hi, if_pos hi.symm, Effect.asCall, Option.bind_some]
      cases made'.subscription typeName <;> rfl
    · have hi' : ¬id = i := fun heq => hi heq.symm
      simp only [Event.subscription, if_neg hi, if_neg hi']
  | _ => simp [Event.subscription, Effect.asCall]

/-- The reference model after a step of a task. -/
theorem lastCommand_task : lastCommand (past ++ (.act a ::
      (taken h id wake ++ done.flatMap (observe h id)))) i typeName =
    if i = id then
      (((calls done).filterMap (Call.subscription typeName)).getLast?).or
        (lastCommand past i typeName)
    else lastCommand past i typeName := by
  have htaken : (taken h id wake).filterMap (Event.subscription i typeName) = [] := by
    unfold taken
    split
    · cases (h.chan id).queue.head? <;> simp [Event.subscription]
    · rfl
  have hdone : (done.flatMap (observe h id)).filterMap (Event.subscription i typeName) =
      if i = id then (calls done).filterMap (Call.subscription typeName) else [] := by
    rw [List.filterMap_flatMap]
    simp only [subscription_observe]
    split
    · rw [calls, List.filterMap_filterMap]
      induction done with
      | nil => rfl
      | cons e done ih =>
        rw [List.flatMap_cons, ih, List.filterMap_cons]
        cases e.asCall.bind fun made => made.subscription typeName <;> rfl
    · simp
  have hact : Event.subscription i typeName (.act a) = none := rfl
  unfold lastCommand
  rw [List.filterMap_append, List.filterMap_cons_none hact, List.filterMap_append, htaken,
    List.nil_append, hdone, List.getLast?_append]
  by_cases hi : i = id
  · rw [if_pos hi, if_pos hi]
  · rw [if_neg hi, if_neg hi]
    rfl

/-- Which connections have ended after it. -/
theorem ended_task : Ended (past ++ (.act a ::
      (taken h id wake ++ done.flatMap (observe h id)))) i ↔
    Ended past i ∨ i = id ∧ ∃ types, .removeConn types ∈ calls done := by
  unfold Ended
  simp only [List.mem_append, List.mem_cons, reduceCtorEq, false_or, did_notMem_taken,
    did_mem_observe, mem_calls]
  constructor
  · rintro ⟨types, hpast | ⟨hi, hmem⟩⟩
    · exact Or.inl ⟨types, hpast⟩
    · exact Or.inr ⟨hi, types, hmem⟩
  · rintro (⟨types, hpast⟩ | ⟨hi, types, hmem⟩)
    · exact ⟨types, Or.inl hpast⟩
    · exact ⟨types, Or.inr ⟨hi, hmem⟩⟩

/-- Events that are not of a task leave the reference model alone. -/
theorem reference_quiet (typeName : Str) {es : List Event} (hes : ∀ i e, .did i e ∉ es) :
    lastCommand (past ++ es) i typeName = lastCommand past i typeName ∧
      (Ended (past ++ es) i ↔ Ended past i) := by
  have hnone : es.filterMap (Event.subscription i typeName) = [] := by
    refine List.filterMap_eq_nil_iff.mpr fun e he => ?_
    cases e with
    | did i' effect => exact absurd he (hes i' effect)
    | _ => rfl
  constructor
  · unfold lastCommand
    rw [List.filterMap_append, hnone, List.append_nil]
  · simp [Ended, hes]

end Histories

section Calls

variable {h : Hub} {id : ℕ}

/-- A publish leaves the subscriber table alone. -/
theorem publishLocal_subs (typeName key : Str) (body : List Str) :
    (h.publishLocal typeName key body).2.registry.subs = h.registry.subs := by
  rcases hres : h.publishLocal typeName key body with ⟨msg | e, h'⟩
  · rw [Hub.publishLocal_error hres]
  · obtain ⟨_, _, rfl⟩ := Hub.publishLocal_eq_ok_iff.mp hres
    simp

/-- A registration leaves the subscriber table alone. -/
theorem registerLocal_subs (r : Registry) (typeName key : Str) (nowMs : ℕ) :
    (r.registerLocal typeName key nowMs).2.subs = r.subs := by
  unfold Registry.registerLocal
  split
  · rfl
  · split <;> rfl

/-- A peer link leaves the subscriber table alone. -/
theorem perform_subs (made : Section) : (h.perform made).1.registry.subs = h.registry.subs := by
  cases made with
  | recordSeen msg => rfl
  | fanOut msg => simp only [Hub.perform, Hub.fanoutLocked_registry]
  | applyRemoteRegistration typeName incoming =>
    simp only [Hub.perform, Registry.applyRemoteRegistration]
    split
    · rfl
    · split
      · rfl
      · split <;> rfl

/-- A call of a connection that is not about subscriptions leaves the subscriber table alone. -/
theorem execute_subs {made : Call} (hsub : ∀ t, made.subscription t = none)
    (hremove : ∀ types, made ≠ .removeConn types) :
    (h.execute id made).registry.subs = h.registry.subs := by
  cases made with
  | registerLocal typeName key nowMs => exact registerLocal_subs _ _ _ _
  | listTypes | publishPrecheck => rfl
  | publishLocal typeName key body => exact publishLocal_subs _ _ _
  | subscribe typeName => simpa [Call.subscription] using hsub typeName
  | unsubscribe typeName => simpa [Call.subscription] using hsub typeName
  | removeConn types => exact absurd rfl (hremove types)

/-- The subscribers are those of the table. -/
theorem subscribers_congr {r r' : Registry} (h : r'.subs = r.subs) : r'.subscribers = r.subscribers := by
  funext t
  unfold Registry.subscribers
  rw [h]

end Calls

section Invariant

variable {limits : Limits} {fwd : Bool} {d d' : Daemon} {past es : List Event} {a : Action}
  {id nowMs : ℕ} {wake : Conn.Wake} {c c' : Conn} {h' : Hub} {done : List Effect}

/-- The invariant holds when the daemon has started. -/
theorem subscriptionInvariant_start (daemonId : Str) (limits : Limits) :
    SubscriptionInvariant (start daemonId limits) [] where
  listening id typeName := by simp [start, Registry.new, Registry.subscribers, Listening, lastCommand]
  ids id c h := by cases h
  mySubs id c h := by cases h
  fresh id h := ⟨by simp [Ended], fun _ => rfl⟩
  gone id c h := by cases h
  nonempty typeName := by simp [start, Registry.new]

/-- A step of a task keeps the invariant if it does for the connection itself. -/
theorem SubscriptionInvariant.task (hinv : SubscriptionInvariant d past)
    (hconn : d.conn id = some c) (hid : c'.id = c.id)
    (hpast : ∀ es, es = .act a :: (taken d.hub id wake ++ done.flatMap (observe d.hub id)) →
      (∀ typeName, id ∈ h'.registry.subscribers typeName ↔ Listening (past ++ es) id typeName) ∧
        (c'.phase = .gone ↔ Ended (past ++ es) id))
    (hothers : ∀ i typeName, i ≠ id →
      (i ∈ h'.registry.subscribers typeName ↔ i ∈ d.hub.registry.subscribers typeName))
    (hsubs : c'.mySubs.Nodup ∧
      ∀ typeName, typeName ∈ c'.mySubs ↔ id ∈ h'.registry.subscribers typeName)
    (hnonempty : ∀ typeName, h'.registry.subs.lookup typeName ≠ some ∅) :
    SubscriptionInvariant ⟨h', Function.update d.conn id (some c')⟩
      (past ++ (.act a :: (taken d.hub id wake ++ done.flatMap (observe d.hub id)))) := by
  obtain ⟨hself, hgone⟩ := hpast _ rfl
  have hended : ∀ i, i ≠ id → (Ended (past ++ (.act a ::
      (taken d.hub id wake ++ done.flatMap (observe d.hub id)))) i ↔ Ended past i) := by
    intro i hi
    rw [ended_task]
    simp [hi]
  have hlast : ∀ i typeName, i ≠ id → lastCommand (past ++ (.act a ::
      (taken d.hub id wake ++ done.flatMap (observe d.hub id)))) i typeName =
        lastCommand past i typeName := by
    intro i typeName hi
    rw [lastCommand_task, if_neg hi]
  constructor
  · intro i typeName
    by_cases hi : i = id
    · exact hi ▸ hself typeName
    · rw [hothers i typeName hi, hinv.listening]
      unfold Listening
      rw [hended i hi, hlast i typeName hi]
  · intro i c₁ hc₁
    by_cases hi : i = id
    · subst hi
      obtain rfl : c' = c₁ := by simpa using hc₁
      exact hid.trans (hinv.ids i c hconn)
    · exact hinv.ids i c₁ (by simpa [Function.update_of_ne hi] using hc₁)
  · intro i c₁ hc₁
    by_cases hi : i = id
    · subst hi
      obtain rfl : c' = c₁ := by simpa using hc₁
      exact hsubs
    · obtain ⟨hnodup, hmem⟩ := hinv.mySubs i c₁ (by simpa [Function.update_of_ne hi] using hc₁)
      exact ⟨hnodup, fun typeName => (hmem typeName).trans (hothers i typeName hi).symm⟩
  · intro i hnone
    have hi : i ≠ id := by
      rintro rfl
      simp at hnone
    obtain ⟨hlive, hfresh⟩ := hinv.fresh i (by simpa [Function.update_of_ne hi] using hnone)
    exact ⟨fun h => hlive ((hended i hi).mp h), fun t => (hlast i t hi).trans (hfresh t)⟩
  · intro i c₁ hc₁
    by_cases hi : i = id
    · subst hi
      obtain rfl : c' = c₁ := by simpa using hc₁
      exact hgone
    · rw [hended i hi]
      exact hinv.gone i c₁ (by simpa [Function.update_of_ne hi] using hc₁)
  · exact hnonempty

/-- A step that is not about subscriptions keeps the invariant. -/
theorem SubscriptionInvariant.quiet (hinv : SubscriptionInvariant d past)
    (hconn : d.conn id = some c) (hlive : c.phase ≠ .gone) (hid : c'.id = c.id)
    (hsub : ∀ made ∈ calls done, ∀ typeName, made.subscription typeName = none)
    (hremove : ∀ types, .removeConn types ∉ calls done) (hphase : c'.phase ≠ .gone)
    (hsame : c'.mySubs = c.mySubs) (htable : h'.registry.subs = d.hub.registry.subs) :
    SubscriptionInvariant ⟨h', Function.update d.conn id (some c')⟩
      (past ++ (.act a :: (taken d.hub id wake ++ done.flatMap (observe d.hub id)))) := by
  have hnot : ¬Ended past id := fun hended => hlive ((hinv.gone id c hconn).mpr hended)
  have hended : ¬Ended (past ++ (.act a ::
      (taken d.hub id wake ++ done.flatMap (observe d.hub id)))) id := by
    rw [ended_task]
    simp [hnot, hremove]
  refine hinv.task hconn hid ?_ ?_ ?_ ?_
  · rintro es rfl
    refine ⟨fun typeName => ?_, iff_of_false hphase hended⟩
    have hnone : (calls done).filterMap (Call.subscription typeName) = [] :=
      List.filterMap_eq_nil_iff.mpr fun made hmade => hsub made hmade typeName
    rw [subscribers_congr htable, hinv.listening]
    unfold Listening
    rw [lastCommand_task, if_pos rfl, hnone]
    simp [hnot, hended]
  · intro i typeName _
    rw [subscribers_congr htable]
  · rw [hsame, subscribers_congr htable]
    exact hinv.mySubs id c hconn
  · intro typeName
    rw [htable]
    exact hinv.nonempty typeName

/-- The call of a connection keeps the invariant. -/
theorem SubscriptionInvariant.call (hinv : SubscriptionInvariant d past) {made : Call}
    (hconn : d.conn id = some c) (hlive : c.phase ≠ .gone) (hid : c'.id = c.id)
    (hmade : calls done = [made]) (hsubs : c'.mySubs = made.subsAfter c.mySubs)
    (hgone : c'.phase = .gone ↔ ∃ types, made = .removeConn types)
    (htypes : ∀ types, made = .removeConn types → types = c.mySubs) :
    SubscriptionInvariant ⟨d.hub.execute id made, Function.update d.conn id (some c')⟩
      (past ++ (.act a :: (taken d.hub id wake ++ done.flatMap (observe d.hub id)))) := by
  have hnot : ¬Ended past id := fun hended => hlive ((hinv.gone id c hconn).mpr hended)
  obtain ⟨hnodup, hmem⟩ := hinv.mySubs id c hconn
  have hended : Ended (past ++ (.act a ::
      (taken d.hub id wake ++ done.flatMap (observe d.hub id)))) id ↔
      ∃ types, made = .removeConn types := by
    rw [ended_task, hmade]
    simp [hnot, eq_comm]
  have hlast : ∀ typeName, lastCommand (past ++ (.act a ::
      (taken d.hub id wake ++ done.flatMap (observe d.hub id)))) id typeName =
      (made.subscription typeName).or (lastCommand past id typeName) := by
    intro typeName
    rw [lastCommand_task, if_pos rfl, hmade, List.filterMap_cons]
    cases made.subscription typeName <;> rfl
  have hlistening : ∀ typeName,
      id ∈ d.hub.registry.subscribers typeName ↔ lastCommand past id typeName = some true := by
    intro typeName
    rw [hinv.listening]
    simp [Listening, hnot]
  have hquiet : (∀ t, made.subscription t = none) → (∀ types, made ≠ .removeConn types) →
      made.subsAfter c.mySubs = c.mySubs →
      SubscriptionInvariant ⟨d.hub.execute id made, Function.update d.conn id (some c')⟩
        (past ++ (.act a :: (taken d.hub id wake ++ done.flatMap (observe d.hub id)))) := by
    intro hsub hremove hsame
    refine hinv.quiet hconn hlive hid ?_ ?_ ?_ (hsubs.trans hsame) (execute_subs hsub hremove)
    · rw [hmade]
      exact fun made' hmem => List.mem_singleton.mp hmem ▸ hsub
    · rw [hmade]
      exact fun types hmem => hremove types (List.mem_singleton.mp hmem).symm
    · exact fun hphase => (hgone.mp hphase).elim hremove
  cases made with
  | registerLocal | listTypes | publishPrecheck | publishLocal =>
    exact hquiet (fun _ => rfl) (fun _ h => by cases h) rfl
  | subscribe typeName =>
    refine hinv.task hconn hid ?_ ?_ ?_ ?_
    · rintro es rfl
      refine ⟨fun t => ?_, hgone.trans hended.symm⟩
      simp only [Hub.execute, Registry.mem_subscribers_subscribe, hlistening]
      unfold Listening
      rw [hlast, hended]
      by_cases ht : typeName = t
      · simp [Call.subscription, ht]
      · simp [Call.subscription, ht, Ne.symm ht]
    · intro i t hi
      simp [Hub.execute, Registry.mem_subscribers_subscribe, hi]
    · rw [hsubs]
      refine ⟨hnodup.insert, fun t => ?_⟩
      simp only [Hub.execute, Registry.mem_subscribers_subscribe, Call.subsAfter,
        List.mem_insert_iff, hmem, and_true]
      exact or_comm
    · exact fun t => Registry.subscribe_nonempty hinv.nonempty
  | unsubscribe typeName =>
    refine hinv.task hconn hid ?_ ?_ ?_ ?_
    · rintro es rfl
      refine ⟨fun t => ?_, hgone.trans hended.symm⟩
      simp only [Hub.execute, Registry.mem_subscribers_unsubscribe, hlistening]
      unfold Listening
      rw [hlast, hended]
      by_cases ht : typeName = t
      · simp [Call.subscription, ht]
      · simp [Call.subscription, ht, Ne.symm ht]
    · intro i t hi
      simp [Hub.execute, Registry.mem_subscribers_unsubscribe, hi]
    · rw [hsubs]
      refine ⟨hnodup.erase _, fun t => ?_⟩
      simp only [Hub.execute, Registry.mem_subscribers_unsubscribe, Call.subsAfter,
        hnodup.mem_erase_iff, hmem, and_true]
      exact and_comm
    · exact fun t => Registry.unsubscribe_nonempty hinv.nonempty
  | removeConn types =>
    obtain rfl := htypes types rfl
    have hnone : ∀ t, id ∉ (d.hub.execute id (.removeConn c.mySubs)).registry.subscribers t := by
      intro t ht
      obtain ⟨hbefore, hout⟩ := Registry.mem_subscribers_removeConn.mp ht
      exact hout ⟨(hmem t).mpr hbefore, rfl⟩
    refine hinv.task hconn hid ?_ ?_ ?_ ?_
    · rintro es rfl
      refine ⟨fun t => ?_, hgone.trans hended.symm⟩
      unfold Listening
      rw [hended]
      simp [hnone t]
    · intro i t hi
      simp [Hub.execute, Registry.mem_subscribers_removeConn, hi]
    · rw [hsubs]
      exact ⟨List.nodup_nil, fun t => by simp [Call.subsAfter, hnone t]⟩
    · exact fun t => Registry.removeConn_nonempty hinv.nonempty

/-- A stranger does not listen. -/
theorem SubscriptionInvariant.not_listening (hinv : SubscriptionInvariant d past) {id : ℕ}
    (hnone : d.conn id = none) (typeName : Str) : ¬Listening past id typeName := by
  intro hlistening
  have hlast := hlistening.2
  rw [(hinv.fresh id hnone).2 typeName] at hlast
  cases hlast

/-- **Every step keeps the subscriptions in order.** -/
theorem SubscriptionInvariant.step (hinv : SubscriptionInvariant d past)
    (hstep : step limits fwd d a = some (d', es)) : SubscriptionInvariant d' (past ++ es) := by
  cases a with
  | accept id =>
    obtain ⟨hnone, rfl, rfl⟩ := step_accept_eq_some_iff.mp hstep
    have hquiet : ∀ i e, Event.did i e ∉ [Event.act (.accept id)] := by simp
    obtain ⟨hlive, hfresh⟩ := hinv.fresh id hnone
    have hnot : ∀ typeName, id ∉ d.hub.registry.subscribers typeName := fun typeName hmem =>
      hinv.not_listening hnone typeName ((hinv.listening id typeName).mp hmem)
    constructor
    · intro i typeName
      unfold Listening
      rw [(reference_quiet typeName hquiet).1,
        (reference_quiet typeName hquiet).2]
      exact hinv.listening i typeName
    · intro i c hc
      by_cases hi : i = id
      · subst hi
        obtain rfl : ({ id := i } : Conn) = c := by simpa using hc
        rfl
      · exact hinv.ids i c (by simpa [Function.update_of_ne hi] using hc)
    · intro i c hc
      by_cases hi : i = id
      · subst hi
        obtain rfl : ({ id := i } : Conn) = c := by simpa using hc
        exact ⟨List.nodup_nil, fun typeName => by simpa using hnot typeName⟩
      · exact hinv.mySubs i c (by simpa [Function.update_of_ne hi] using hc)
    · intro i hi
      have hne : i ≠ id := by
        rintro rfl
        simp at hi
      obtain ⟨hlive, hfresh⟩ := hinv.fresh i (by simpa [Function.update_of_ne hne] using hi)
      exact ⟨fun h => hlive ((reference_quiet [] hquiet).2.mp h),
        fun t => (reference_quiet _ hquiet).1.trans (hfresh t)⟩
    · intro i c hc
      rw [(reference_quiet [] hquiet).2]
      by_cases hi : i = id
      · subst hi
        obtain rfl : ({ id := i } : Conn) = c := by simpa using hc
        exact iff_of_false (by simp) hlive
      · exact hinv.gone i c (by simpa [Function.update_of_ne hi] using hc)
    · exact hinv.nonempty
  | inbound made =>
    simp only [Daemon.step, Option.some.injEq, Prod.mk.injEq] at hstep
    obtain ⟨rfl, rfl⟩ := hstep
    have hquiet : ∀ i e, Event.did i e ∉ .act (.inbound made) :: received d.hub made := by
      intro i e hmem
      rcases List.mem_cons.mp hmem with hact | hmem
      · cases hact
      · exact did_notMem_received hmem
    have htable := perform_subs (h := d.hub) made
    constructor
    · intro i typeName
      rw [subscribers_congr htable]
      unfold Listening
      rw [(reference_quiet _ hquiet).1, (reference_quiet typeName hquiet).2]
      exact hinv.listening i typeName
    · exact hinv.ids
    · intro i c hc
      rw [subscribers_congr htable]
      exact hinv.mySubs i c hc
    · intro i hi
      obtain ⟨hlive, hfresh⟩ := hinv.fresh i hi
      exact ⟨fun h => hlive ((reference_quiet [] hquiet).2.mp h),
        fun t => (reference_quiet _ hquiet).1.trans (hfresh t)⟩
    · intro i c hc
      rw [(reference_quiet [] hquiet).2]
      exact hinv.gone i c hc
    · intro typeName
      rw [htable]
      exact hinv.nonempty typeName
  | task id nowMs wake =>
    obtain ⟨c, c', h', done, hconn, hconnStep, rfl, rfl⟩ := step_task_eq_some_iff.mp hstep
    have hlive : c.phase ≠ .gone := by
      intro hgone
      rw [Conn.step_gone hgone] at hconnStep
      cases hconnStep
    obtain ⟨hid, huses⟩ := Conn.step_uses hconnStep
    have hself := hinv.ids id c hconn
    cases huses with
    | alone _ hnone hsame hphase =>
      exact hinv.quiet hconn hlive hid (by simp [hnone]) (by simp [hnone]) hphase hsame rfl
    | channel hnone _ _ hsame hphase =>
      exact hinv.quiet hconn hlive hid (by simp [hnone]) (by simp [hnone]) hphase hsame rfl
    | call made _ hmade hsubs hgone htypes =>
      rw [hself]
      exact hinv.call hconn hlive hid hmade hsubs hgone htypes

end Invariant

end Daemon

end MacroBus
