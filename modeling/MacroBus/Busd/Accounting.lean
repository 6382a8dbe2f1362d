import MacroBus.Busd.HandedOn
import MacroBus.Busd.SharedQueue
import MacroBus.Busd.Writing

/-!
# Nothing is lost without notice

What a daemon fans out while a connection listens is written to the connection, or counted in a
notice that is written, or on its way to one of the two.
-/

namespace MacroBus

/-- How many messages of the type a push tells of: the one it delivers, or those it counts. -/
def Push.tells (typeName : Str) : Push → ℕ
  | .message msg => msg.countOf typeName
  | .drop typeName' count => if typeName' = typeName then count else 0
  | .note _ => 0

/-- A notice names a type and counts in 64 bits. -/
def Push.Counted : Push → Prop
  | .drop typeName count => validate.isValidType typeName = true ∧ count < u64Values
  | _ => True

/-- The counters of a channel are of types, and of 64 bits. -/
def Chan.Counted (ch : Chan) : Prop := ∀ e ∈ ch.drops.entries, Push.Counted (.drop e.1 e.2)

/-- The message that a call of a connection offers to the connection `id`, if any. -/
def Hub.offersTo (h : Hub) (id : ℕ) : Call → List Message
  | .publishLocal typeName key body =>
    match (h.publishLocal typeName key body).1 with
    | .ok msg => if id ∈ h.registry.subscribers msg.typeName then [msg] else []
    | .error _ => []
  | _ => []

/-- The message that a section of a peer link offers to it, if any. -/
def Hub.offersInbound (h : Hub) (id : ℕ) : Section → List Message
  | .fanOut msg => if id ∈ h.registry.subscribers msg.typeName then [msg] else []
  | _ => []

/-- How many messages of the type a daemon holds for a connection: queued, in hand, or counted as
dropped in a notice that is still to be written. -/
def Conn.held (c : Conn) (ch : Chan) (typeName : Str) : ℕ :=
  Outlet.queued ch typeName + Outlet.writing c.phase typeName + Outlet.drained c.phase typeName +
    Outlet.pending ch typeName

/-- The messages offered to a connection are accounted for by the pushes written to it, and by
what is still on its way. -/
structure Conn.Accounts (c : Conn) (ch : Chan) (due : List Message) (ps : List Push) : Prop where
  /-- The channel of a live connection is open. -/
  isOpen : c.phase.isLive = true → ch.isOpen = true
  /-- Every message is accounted for. -/
  account : c.phase.isLive = true → ∀ typeName, ∃ k, (due.map (Message.countOf typeName)).sum =
    (ps.map (Push.tells typeName)).sum + c.held ch typeName + u64Values * k
  /-- The connection subscribes to types. -/
  subs : ∀ typeName ∈ c.mySubs, validate.isValidType typeName = true
  /-- What is counted is drops of types. -/
  drops : ch.Counted
  /-- So is what comes next. -/
  pushes : ∀ p ∈ c.phase.pushes, p.Counted
  /-- And what was written. -/
  told : ∀ p ∈ ps, p.Counted

section Offers

variable {h : Hub} {c : Conn} {ch : Chan} {due : List Message} {ps : List Push} {msg : Message}
  {id : ℕ}

/-- An offer counts drops of its type. -/
theorem Chan.Counted.offer (hch : ch.Counted) (hmsg : validate.isValidType msg.typeName = true) :
    (ch.offer msg).Counted := by
  unfold Chan.offer
  split
  · exact hch
  · split
    · intro e he
      simp only [Chan.recordDrop, AList.entries_insert, List.mem_cons] at he
      rcases he with rfl | he
      · exact ⟨hmsg, Nat.mod_lt _ (by decide)⟩
      · exact hch e ((List.kerase_sublist _ _).subset he)
    · exact hch

/-- **An offer** is accounted for. -/
theorem Conn.Accounts.offer (hc : c.Accounts ch due ps)
    (hmsg : validate.isValidType msg.typeName = true) :
    c.Accounts (ch.offer msg) (due ++ [msg]) ps := by
  refine ⟨fun hlive => ?_, fun hlive typeName => ?_, hc.subs, hc.drops.offer hmsg, hc.pushes, hc.told⟩
  · rw [Outlet.offer_isOpen, hc.isOpen hlive]
  · obtain ⟨k, hk⟩ := hc.account hlive typeName
    obtain ⟨k', hk'⟩ := Outlet.queued_offer (hc.isOpen hlive) msg typeName
    refine ⟨k + k', ?_⟩
    rw [List.map_append, List.sum_append, hk, List.map_singleton, List.sum_singleton, Nat.mul_add]
    unfold Conn.held
    omega

/-- Offers one after another are accounted for. -/
theorem Conn.Accounts.offers (hc : c.Accounts ch due ps) {msgs : List Message}
    (hmsgs : ∀ msg ∈ msgs, validate.isValidType msg.typeName = true) :
    c.Accounts (msgs.foldl Chan.offer ch) (due ++ msgs) ps := by
  induction msgs generalizing ch due with
  | nil => rwa [List.append_nil]
  | cons msg msgs ih =>
    have hnext := ih (hc.offer (hmsgs msg List.mem_cons_self)) fun msg' hmem =>
      hmsgs msg' (List.mem_cons_of_mem _ hmem)
    rwa [List.append_assoc] at hnext

/-- What is offered to a connection is of a type that it subscribes to. -/
theorem Hub.mem_offersTo {made : Call} (hmsg : msg ∈ h.offersTo id made) :
    id ∈ h.registry.subscribers msg.typeName := by
  unfold Hub.offersTo at hmsg
  split at hmsg
  · split at hmsg
    · split at hmsg
      · next hmem =>
        obtain rfl := List.mem_singleton.mp hmsg
        exact hmem
      · cases hmsg
    · cases hmsg
  · cases hmsg

/-- What a peer offers to a connection is of a type that it subscribes to. -/
theorem Hub.mem_offersInbound {made : Section} (hmsg : msg ∈ h.offersInbound id made) :
    id ∈ h.registry.subscribers msg.typeName := by
  cases made with
  | fanOut msg' =>
    unfold Hub.offersInbound at hmsg
    dsimp only at hmsg
    split at hmsg
    · next hmem =>
      obtain rfl := List.mem_singleton.mp hmsg
      exact hmem
    · cases hmsg
  | recordSeen | applyRemoteRegistration => cases hmsg

/-- **A call** offers, and does nothing else to a channel, unless it is its connection that is
removed. -/
theorem Hub.execute_chan {made : Call} {i : ℕ} (hother : (∃ types, made = .removeConn types) → i ≠ id) :
    (h.execute id made).chan i = (h.offersTo i made).foldl Chan.offer (h.chan i) := by
  cases made with
  | registerLocal | subscribe | unsubscribe | listTypes | publishPrecheck => rfl
  | removeConn types => exact Function.update_of_ne (hother ⟨types, rfl⟩) _ _
  | publishLocal typeName key body =>
    unfold Hub.execute Hub.offersTo
    dsimp only
    rcases hres : h.publishLocal typeName key body with ⟨e | msg, hub⟩
    · rw [Hub.publishLocal_error hres]
      rfl
    · obtain ⟨_, _, rfl⟩ := Hub.publishLocal_eq_ok_iff.mp hres
      dsimp only
      rw [Hub.fanoutLocked_chan]
      change (if i ∈ h.registry.subscribers msg.typeName then (h.chan i).offer msg else h.chan i) = _
      split <;> rfl

/-- A section of a peer link offers, and does nothing else to a channel. -/
theorem Hub.perform_chan (made : Section) (i : ℕ) :
    (h.perform made).1.chan i = (h.offersInbound i made).foldl Chan.offer (h.chan i) := by
  cases made with
  | recordSeen | applyRemoteRegistration => rfl
  | fanOut msg =>
    simp only [Hub.perform, Hub.offersInbound, Hub.fanoutLocked_chan]
    split <;> rfl

end Offers

section Tasks

variable {limits : Limits} {fwd : Bool} {nowMs : ℕ} {wake : Conn.Wake} {c c' : Conn} {h h' : Hub}
  {done : List Effect} {due : List Message} {ps : List Push}

/-- What the outlet sees offered is what is offered. -/
theorem Outlet.selfOffer_eq (h : Hub) (id : ℕ) (made : Call) :
    Outlet.selfOffer h id made = (h.offersTo id made).map .offered := by
  cases made with
  | publishLocal typeName key body =>
    unfold Outlet.selfOffer Hub.offersTo
    dsimp only
    rcases (h.publishLocal typeName key body).1 with e | msg
    · rfl
    · dsimp only
      split <;> rfl
  | _ => rfl

/-- Offers are counted as messages. -/
theorem Outlet.offered_map (msgs : List Message) (typeName : Str) :
    Outlet.offered (msgs.map .offered) typeName = (msgs.map (Message.countOf typeName)).sum := by
  unfold Outlet.offered
  rw [List.map_map]
  rfl

/-- Pushes and notices are counted together. -/
theorem Outlet.tells_pushed (ps : List Push) (typeName : Str) :
    Outlet.pushed (ps.map .pushed) typeName + Outlet.noticed (ps.map .pushed) typeName =
      (ps.map (Push.tells typeName)).sum := by
  induction ps with
  | nil => rfl
  | cons p ps ih =>
    simp only [Outlet.pushed, Outlet.noticed, List.map_cons, List.sum_cons] at ih ⊢
    cases p <;>
    · simp only [Outlet.Event.pushes, Outlet.Event.notices, Push.tells]
      omega

/-- What the outlet sees written is what is written. -/
theorem Outlet.written_eq (hstep : Conn.step limits fwd nowMs wake c h = some (c', h', done)) :
    Outlet.written c.phase done = (c.phase.pushedBy wake).map .pushed := by
  by_cases hwake : wake = .go
  · subst hwake
    exact Outlet.written_go hstep
  · rw [Outlet.written_eq_nil hstep hwake, pushedBy_eq_nil _ hwake, List.map_nil]

/-- What is written now was about to be written. -/
theorem Phase.mem_pushedBy {phase : Phase} {p : Push} (hp : p ∈ phase.pushedBy wake) :
    p ∈ phase.pushes := by
  cases wake with
  | go =>
    cases phase with
    | flush notices =>
      cases notices with
      | nil => cases hp
      | cons notice notices =>
        rw [List.mem_singleton.mp hp]
        exact List.mem_cons_self
    | deliver out => cases out <;> exact hp
    | _ => cases hp
  | _ => cases hp

/-- Where the pushes come from that a task is about to write. -/
theorem Conn.pushes_step (hstep : Conn.step limits fwd nowMs wake c h = some (c', h', done))
    {p : Push} (hp : p ∈ c'.phase.pushes) :
    p ∈ c.phase.pushes ∨ (∃ e ∈ (h.chan c.id).drops.entries, p = .drop e.1 e.2) ∨
      ∃ out : Outbound, p = out.push := by
  cases Conn.step_steps hstep with
  | writeErr | read | readBody | closed | closedBody | notified => cases hp
  | @recv out => exact Or.inr (Or.inr ⟨out, List.mem_singleton.mp hp⟩)
  | go hgo =>
    cases Conn.go_goes hgo with
    | drain =>
      simp only [Phase.pushes, List.map_map, List.mem_map] at hp
      obtain ⟨e, he, rfl⟩ := hp
      exact Or.inr (Or.inl ⟨e, he, rfl⟩)
    | notice hphase =>
      rw [hphase]
      exact Or.inl (List.mem_cons_of_mem _ hp)
    | @command line rest =>
      obtain ⟨_, _, hnext⟩ := Conn.handleCommand_conn limits fwd nowMs { c with rbuf := rest } h line
      rcases hnext with hnext | hnext | ⟨_, _, hnext⟩ <;>
      · rw [hnext] at hp
        cases hp
    | terminator =>
      rw [Conn.finishPublish_fst] at hp
      cases hp
    | _ => cases hp

/-- **A step of the task** keeps the account. -/
theorem Conn.Accounts.step (hc : c.Accounts (h.chan c.id) due ps)
    (hsubs : ∀ typeName, c.id ∈ h.registry.subscribers typeName →
      validate.isValidType typeName = true)
    (hchecked : ∀ made ∈ calls done, made.Checked limits nowMs)
    (hstep : Conn.step limits fwd nowMs wake c h = some (c', h', done)) :
    c'.Accounts (h'.chan c.id) (due ++ (calls done).flatMap (h.offersTo c.id))
      (ps ++ c.phase.pushedBy wake) := by
  obtain ⟨_, huses⟩ := Conn.step_uses hstep
  refine ⟨fun hlive => (Outlet.step_balanced [] hc.isOpen hstep hlive).2.1, fun hlive typeName => ?_,
    fun typeName hmem => ?_, ?_, fun p hp => ?_, fun p hp => ?_⟩
  · obtain ⟨hbefore, _, k', hk'⟩ := Outlet.step_balanced typeName hc.isOpen hstep hlive
    obtain ⟨k, hk⟩ := hc.account hbefore typeName
    have hoffers : (calls done).flatMap (Outlet.selfOffer h c.id) =
        ((calls done).flatMap (h.offersTo c.id)).map .offered := by
      rw [List.map_flatMap]
      exact congrArg (fun f => (calls done).flatMap f) (funext (Outlet.selfOffer_eq h c.id))
    rw [hoffers, Outlet.offered_map, Outlet.written_eq hstep] at hk'
    have htells := Outlet.tells_pushed (c.phase.pushedBy wake) typeName
    refine ⟨k + k', ?_⟩
    rw [List.map_append, List.sum_append, List.map_append, List.sum_append, hk, Nat.mul_add]
    unfold Conn.held
    omega
  · cases huses with
    | alone _ _ hsame | channel _ _ _ hsame => exact hc.subs typeName (hsame ▸ hmem)
    | call made _ hcalls hafter =>
      rw [hafter] at hmem
      cases made with
      | subscribe t =>
        rcases List.mem_insert_iff.mp hmem with rfl | hmem
        · exact hchecked (.subscribe _) (by rw [hcalls]; exact List.mem_singleton_self _)
        · exact hc.subs typeName hmem
      | unsubscribe t => exact hc.subs typeName (List.mem_of_mem_erase hmem)
      | removeConn => cases hmem
      | _ => exact hc.subs typeName hmem
  · cases huses with
    | alone => exact hc.drops
    | channel _ _ hown =>
      dsimp only
      rw [Function.update_self]
      cases hown with
      | drain => exact fun e he => by cases he
      | recv | notified => exact hc.drops
    | call made =>
      by_cases hremove : ∃ types, made = .removeConn types
      · obtain ⟨types, rfl⟩ := hremove
        simp only [Hub.execute, Function.update_self]
        exact hc.drops
      · rw [Hub.execute_chan fun h => absurd h hremove]
        exact (hc.offers fun msg hmsg => hsubs _ (Hub.mem_offersTo hmsg)).drops
  · rcases Conn.pushes_step hstep hp with hp | ⟨e, he, rfl⟩ | ⟨out, rfl⟩
    · exact hc.pushes p hp
    · exact hc.drops e he
    · cases out <;> trivial
  · rcases List.mem_append.mp hp with hp | hp
    · exact hc.told p hp
    · exact hc.pushes p (Phase.mem_pushedBy hp)

end Tasks

namespace Daemon

/-- The messages fanned out by these events, where the connection listens to their type; `before`
has happened before. -/
def offeredIn (id : ℕ) (before : List Event) : List Event → List Message
  | [] => []
  | e :: es =>
    (e.fanOut.filter fun msg => Listening before id msg.typeName).toList ++
      offeredIn id (before ++ [e]) es

/-- The messages fanned out while the connection listened to their type, oldest first. -/
def offeredTo (past : List Event) (id : ℕ) : List Message := offeredIn id [] past

/-- The messages add up. -/
theorem offeredIn_append (id : ℕ) (before es more : List Event) :
    offeredIn id before (es ++ more) = offeredIn id before es ++ offeredIn id (before ++ es) more := by
  induction es generalizing before with
  | nil =>
    rw [List.nil_append, List.append_nil]
    rfl
  | cons e es ih =>
    rw [List.cons_append, offeredIn, offeredIn, ih, List.append_assoc, List.append_assoc,
      List.singleton_append]

section Steps

variable {limits : Limits} {fwd : Bool} {daemonId : Str} {d d' : Daemon} {past es : List Event}
  {a : Action} {id : ℕ} {ps : ℕ → List Push}

/-- **What a step offers** to a connection is what it fans out of the types that the connection
listens to when the step begins. -/
theorem offeredTo_step (hstep : step limits fwd d a = some (d', es)) (id : ℕ) :
    offeredTo (past ++ es) id = offeredTo past id ++
      (fanOuts es).filter fun msg => Listening past id msg.typeName := by
  have hrest : ∀ post pre, es = pre ++ post → offeredIn id (past ++ pre) post =
      (fanOuts post).filter fun msg => Listening past id msg.typeName := by
    intro post
    induction post with
    | nil => exact fun _ _ => rfl
    | cons e post ih =>
      intro pre hes
      have hnext := ih (pre ++ [e]) (by rw [hes, List.append_assoc, List.singleton_append])
      rw [offeredIn, List.append_assoc, hnext]
      cases e with
      | fannedOut publisher msg queued =>
        -- Nothing in the step before the fan-out changes who listens.
        have hlistens : Listening (past ++ pre) id msg.typeName ↔ Listening past id msg.typeName :=
          listening_of_fanOut hstep hes id msg.typeName
        have hone : fanOuts (.fannedOut publisher msg queued :: post) = msg :: fanOuts post := rfl
        rw [hone, List.filter_cons]
        simp only [Event.fanOut, Option.filter_some, hlistens]
        split <;> rfl
      | _ => rfl
  unfold offeredTo
  rw [offeredIn_append, List.nil_append]
  have hall := hrest es [] rfl
  rw [List.append_nil] at hall
  rw [hall]

/-- What is fanned out by calls of a connection. -/
theorem fanOuts_task (a : Action) (h : Hub) (i : ℕ) (wake : Conn.Wake) (done : List Effect) :
    fanOuts (.act a :: (taken h i wake ++ done.flatMap (observe h i))) =
      (calls done).flatMap fun made => fanOuts (fanned h i (.call made)) := by
  have hmoves := filterMap_moves (f := Event.fanOut) (fun e he => by cases e <;> first | rfl | cases he)
    (.act a :: (taken h i wake ++ done.flatMap (observe h i)))
  have htaken : (taken h i wake).filterMap Event.fanOut = [] := by
    refine List.filterMap_eq_nil_iff.mpr fun e he => ?_
    unfold taken at he
    split at he
    · obtain ⟨out, _, rfl⟩ := List.mem_map.mp he
      rfl
    · cases he
  unfold fanOuts
  rw [hmoves, moves_task, List.filterMap_append, htaken, List.nil_append, List.filterMap_flatMap]

/-- A task offers to a connection what its calls offer. -/
theorem offers_task (hsub : SubscriptionInvariant d past) (a : Action) (i : ℕ) (wake : Conn.Wake)
    (done : List Effect) :
    (fanOuts (.act a :: (taken d.hub i wake ++ done.flatMap (observe d.hub i)))).filter
      (fun msg => Listening past id msg.typeName) = (calls done).flatMap (d.hub.offersTo id) := by
  have hcall : ∀ made, (fanOuts (fanned d.hub i (.call made))).filter
      (fun msg => Listening past id msg.typeName) = d.hub.offersTo id made := by
    intro made
    cases made with
    | publishLocal typeName key body =>
      unfold fanned Hub.offersTo
      dsimp only
      rcases (d.hub.publishLocal typeName key body).1 with e | msg
      · rfl
      · have hone : fanOuts [.fannedOut (some i) msg (d.hub.recipients msg)] = [msg] := rfl
        simp only [hsub.listening, hone]
        by_cases hlistens : Listening past id msg.typeName <;> simp [hlistens]
    | _ => rfl
  rw [fanOuts_task, List.filter_flatMap]
  simp only [hcall]

/-- A peer link offers to it what its section offers. -/
theorem offers_received (hsub : SubscriptionInvariant d past) (a : Action) (made : Section) :
    (fanOuts (.act a :: received d.hub made)).filter (fun msg => Listening past id msg.typeName) =
      d.hub.offersInbound id made := by
  cases made with
  | applyRemoteRegistration typeName incoming =>
    have hnone : fanOuts (.act a :: received d.hub (.applyRemoteRegistration typeName incoming)) =
        [] := by
      rcases hframe : (d.hub.perform (.applyRemoteRegistration typeName incoming)).2 with _ | frame
      · simp only [received, hframe]
        rfl
      · simp only [received, hframe]
        rfl
    rw [hnone]
    rfl
  | recordSeen msg =>
    have hnone : fanOuts (.act a :: received d.hub (.recordSeen msg)) = [] := by
      unfold received
      dsimp only
      split <;> rfl
    rw [hnone]
    rfl
  | fanOut msg =>
    have hone : fanOuts (.act a :: received d.hub (.fanOut msg)) = [msg] := rfl
    rw [hone, List.filter_cons, List.filter_nil]
    unfold Hub.offersInbound
    dsimp only
    by_cases hlistens : Listening past id msg.typeName
    · rw [if_pos (decide_eq_true hlistens), if_pos ((hsub.listening id _).mpr hlistens)]
    · rw [if_neg (by simp [hlistens]), if_neg fun hmem => hlistens ((hsub.listening id _).mp hmem)]

/-- The task of a connection only offers to others. -/
theorem offers_of_step {nowMs : ℕ} {wake : Conn.Wake} {c c' : Conn} {h h' : Hub}
    {done : List Effect} (hstep : Conn.step limits fwd nowMs wake c h = some (c', h', done))
    (hid : id ≠ c.id) :
    h'.chan id = ((calls done).flatMap (h.offersTo id)).foldl Chan.offer (h.chan id) := by
  obtain ⟨_, huses⟩ := Conn.step_uses hstep
  cases huses with
  | alone _ hcalls =>
    rw [hcalls]
    rfl
  | channel hcalls =>
    rw [hcalls]
    exact Function.update_of_ne hid _ _
  | call made _ hcalls =>
    rw [hcalls, List.flatMap_singleton]
    exact Hub.execute_chan fun _ => hid

/-- The pushes written to every connection account for the messages that were offered to it. -/
structure Accounted (d : Daemon) (past : List Event) (ps : ℕ → List Push) : Prop where
  /-- The connections. -/
  conn : ∀ id c, d.conn id = some c → c.Accounts (d.hub.chan id) (offeredTo past id) (ps id)
  /-- Nothing was offered before a connection was accepted. -/
  fresh : ∀ id, d.conn id = none → offeredTo past id = [] ∧ ps id = []

/-- A connection that was just accepted. -/
theorem accounts_accepted (id depth : ℕ) : Conn.Accounts { id := id } { depth := depth } [] [] where
  isOpen _ := rfl
  account _ _ := ⟨0, rfl⟩
  subs _ h := by cases h
  drops _ h := by cases h
  pushes _ h := by cases h
  told _ h := by cases h

/-- A stranger is offered nothing. -/
theorem offers_stranger (hsub : SubscriptionInvariant d past) (hnone : d.conn id = none)
    (es : List Event) : (fanOuts es).filter (fun msg => Listening past id msg.typeName) = [] := by
  refine List.filter_eq_nil_iff.mpr fun msg _ hmem => ?_
  have hlistens : Listening past id msg.typeName := of_decide_eq_true hmem
  exact hsub.not_listening hnone msg.typeName hlistens

/-- **A step of the daemon** keeps the accounts. -/
theorem Accounted.step (hacc : Accounted d past ps) (hsub : SubscriptionInvariant d past)
    (hchecked : d.Checked limits) (hstep : Daemon.step limits fwd d a = some (d', es)) :
    Accounted d' (past ++ es) fun id => ps id ++ d.said id a := by
  have hadd : ∀ id, offeredTo (past ++ es) id = offeredTo past id ++
      (fanOuts es).filter fun msg => Listening past id msg.typeName := offeredTo_step hstep
  have hvalid : ∀ id c, d.conn id = some c → ∀ typeName, id ∈ d.hub.registry.subscribers typeName →
      validate.isValidType typeName = true := fun id c hc typeName hmem =>
    (hacc.conn id c hc).subs typeName (((hsub.mySubs id c hc).2 typeName).mpr hmem)
  refine ⟨fun id c hc => ?_, fun id hc => ?_⟩
  · cases a with
    | accept i =>
      obtain ⟨hnone, rfl, rfl⟩ := step_accept_eq_some_iff.mp hstep
      have hsame : offeredTo (past ++ [.act (.accept i)]) id = offeredTo past id := by
        rw [hadd]
        exact List.append_nil _
      rw [hsame, said, List.append_nil]
      dsimp only at hc ⊢
      by_cases hi : id = i
      · subst hi
        rw [Function.update_self] at hc ⊢
        obtain rfl := Option.some.inj hc
        obtain ⟨hoffered, hsaid⟩ := hacc.fresh id hnone
        rw [hoffered, hsaid]
        exact accounts_accepted id limits.queueDepth
      · rw [Function.update_of_ne hi] at hc ⊢
        exact hacc.conn id c hc
    | inbound made =>
      simp only [Daemon.step, Option.some.injEq, Prod.mk.injEq] at hstep
      obtain ⟨rfl, rfl⟩ := hstep
      rw [hadd, offers_received hsub, said, List.append_nil, Hub.perform_chan]
      exact (hacc.conn id c hc).offers fun msg hmsg => hvalid id c hc _ (Hub.mem_offersInbound hmsg)
    | task i nowMs wake =>
      obtain ⟨c₁, c', h', done, hconn, hconnStep, rfl, rfl⟩ := step_task_eq_some_iff.mp hstep
      have hself := hsub.ids i c₁ hconn
      rw [hadd, offers_task hsub, said]
      dsimp only at hc ⊢
      by_cases hi : id = i
      · subst hi
        rw [Function.update_self] at hc
        obtain rfl := Option.some.inj hc
        rw [if_pos rfl, hconn, Option.map_some, Option.getD_some]
        have hnext := (hself ▸ hacc.conn id c₁ hconn : c₁.Accounts (d.hub.chan c₁.id) _ _).step
          (hself ▸ hvalid id c₁ hconn) ((hchecked id c₁ hconn).step hconnStep).2 hconnStep
        rwa [hself] at hnext
      · rw [Function.update_of_ne hi] at hc
        rw [if_neg (Ne.symm hi), List.append_nil, offers_of_step hconnStep (hself ▸ hi)]
        refine (hacc.conn id c hc).offers fun msg hmsg => ?_
        obtain ⟨made, _, hmsg⟩ := List.mem_flatMap.mp hmsg
        exact hvalid id c hc _ (Hub.mem_offersTo hmsg)
  · have hnone := conn_of_step hstep hc
    obtain ⟨hoffered, hsaid⟩ := hacc.fresh id hnone
    rw [hadd, offers_stranger hsub hnone, hoffered, hsaid, said_stranger hnone]
    exact ⟨rfl, rfl⟩

/-- **What is offered to every connection is accounted for**, in every run. -/
theorem accounted_of_run
    (hrun : Transition.Run (Daemon.step limits fwd) Transition.anyStep (start daemonId limits) d
      past) : ∃ ps, Accounted d past ps := by
  refine hrun.invariant_of_reached (I := fun d past => ∃ ps, Accounted d past ps)
    ⟨fun _ => [], fun _ _ hc => (by cases hc), fun _ _ => ⟨rfl, rfl⟩⟩ ?_
  rintro d past a d' es hbefore ⟨ps, hacc⟩ _ hstep
  exact ⟨_, hacc.step (subscriptionInvariant_of_run hbefore) (checked_of_run hbefore).1 hstep⟩

/-- **What was written to every connection, and what it accounts for**, in a run in which the peer
links hand over lines. -/
theorem told_of_run (hid : '\n' ∉ daemonId)
    (hrun : Transition.Run (Daemon.step limits fwd) framedLinks (start daemonId limits) d past) :
    ∃ ps, Told d past ps ∧ Accounted d past ps := by
  refine hrun.invariant_of_reached (I := fun d past => ∃ ps, Told d past ps ∧ Accounted d past ps)
    ⟨fun _ => [], ⟨fun _ _ hc => (by cases hc), fun _ _ => ⟨rfl, rfl, rfl⟩⟩,
      fun _ _ hc => (by cases hc), fun _ _ => ⟨rfl, rfl⟩⟩ ?_
  rintro d past a d' es hbefore ⟨ps, htold, hacc⟩ _ hstep
  have hplain : Transition.Run (Daemon.step limits fwd) Transition.anyStep (start daemonId limits) d
      past := hbefore.weaken fun _ _ _ _ => trivial
  have hsub := subscriptionInvariant_of_run hplain
  exact ⟨_, htold.step (framed_of_run hid hbefore) hsub.ids hstep,
    hacc.step hsub (checked_of_run hplain).1 hstep⟩

end Steps

end Daemon

end MacroBus
