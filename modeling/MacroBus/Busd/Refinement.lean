import MacroBus.Busd.Wires

/-!
# The network refines its models

Seen from the cluster, the octets between two daemons are frames on a wire, and a daemon with its
connections is a hub. Seen from one daemon, the network is its clients and what its peer links
hand it. So each run of the network is a run of the cluster model, in which daemons flood frames,
and from one restart to the next each of its daemons runs as a daemon by itself: what is proved
of either model holds of the network.
-/

namespace MacroBus

open Transition

namespace Network

variable {ι : Type} [DecidableEq ι]

/-- The life of a daemon so far, after one more event. -/
def lifeStep (i : ι) (life : List Daemon.Event) : Event ι → List Daemon.Event
  | .daemon k e => if k = i then life ++ [e] else life
  | .cluster (.restarted k) => if k = i then [] else life
  | .cluster _ => life

/-- What has happened at a daemon since it last started. -/
def lifeOf (past : List (Event ι)) (i : ι) : List Daemon.Event := past.foldl (lifeStep i) []

/-- **The network refines the cluster and its daemons.** -/
structure Refines (C : Cluster ι) (n : Network ι) (past : List (Event ι)) (s : Net ι) : Prop where
  /-- The hubs are those of the daemons. -/
  hub : ∀ i, (n.daemon i).hub.Alike (s.hub i)
  /-- The links carry the same frames. -/
  link : ∀ i j, (n.wire i j).Refines C i j (s.link i j)
  /-- The same calls are still to go on. -/
  tasks : ∀ i, n.tasks i = if (C.config i).federationEnabled = true then
    (s.tasks i).map (Task.sending C) else []
  /-- Each daemon runs by itself from one restart to the next. -/
  life : ∀ i, Run (Daemon.step (C.config i).limits (C.config i).federationEnabled) framedLinks
    (Daemon.start (C.config i).daemonId (C.config i).limits) (n.daemon i) (lifeOf past i)

/-- A step to `n'` that shows these events is at most one guarded step of the cluster, and the
network still refines it. -/
def Matched (C : Cluster ι) (ok : Net ι → List (MacroBus.Event ι) → MacroBus.Action ι → Prop)
    (s : Net ι) (past es : List (Event ι)) (n' : Network ι) : Prop :=
  ∃ s', AtMostOne C.step ok s (past.filterMap Event.seen) s' (es.filterMap Event.seen) ∧
    Refines C n' (past ++ es) s'

section Lives

variable {past : List (Event ι)} {i : ι} {life : List Daemon.Event}

/-- Lives add up. -/
theorem lifeOf_append (past es : List (Event ι)) (i : ι) :
    lifeOf (past ++ es) i = es.foldl (lifeStep i) (lifeOf past i) := List.foldl_append

/-- What the cluster sees is no part of a life. -/
theorem foldl_cluster {shown : List (MacroBus.Event ι)} (hshown : ∀ k, .restarted k ∉ shown)
    (i : ι) (life : List Daemon.Event) : (shown.map Event.cluster).foldl (lifeStep i) life = life := by
  induction shown generalizing life with
  | nil => rfl
  | cons e shown ih =>
    have hrest : ∀ k, .restarted k ∉ shown := fun k hk => hshown k (List.mem_cons_of_mem _ hk)
    rw [List.map_cons, List.foldl_cons]
    cases e with
    | restarted k => exact absurd List.mem_cons_self (hshown k)
    | _ => exact ih hrest life

/-- What happens at a daemon is a part of its life only. -/
theorem foldl_daemon (i k : ι) (es : List Daemon.Event) (life : List Daemon.Event) :
    (es.map (Event.daemon i)).foldl (lifeStep k) life = if i = k then life ++ es else life := by
  induction es generalizing life with
  | nil => simp
  | cons e es ih =>
    rw [List.map_cons, List.foldl_cons, ih]
    by_cases hi : i = k <;> simp [lifeStep, hi]

/-- A step of a daemon goes on with its life. -/
theorem lifeOf_act (past : List (Event ι)) (i k : ι) (es : List Daemon.Event)
    {shown : List (MacroBus.Event ι)} (hshown : ∀ j, .restarted j ∉ shown) :
    lifeOf (past ++ (es.map (Event.daemon i) ++ shown.map Event.cluster)) k =
      if i = k then lifeOf past k ++ es else lifeOf past k := by
  rw [lifeOf_append, List.foldl_append, foldl_daemon, foldl_cluster hshown]

omit [DecidableEq ι] in
/-- What is seen of a step of a daemon. -/
theorem seen_act (i : ι) (es : List Daemon.Event) (shown : List (MacroBus.Event ι)) :
    (es.map (Event.daemon i) ++ shown.map Event.cluster).filterMap Event.seen = shown := by
  have hdaemon : (es.map (Event.daemon i)).filterMap Event.seen = [] :=
    List.filterMap_eq_nil_iff.mpr fun e he => by
      obtain ⟨_, _, rfl⟩ := List.mem_map.mp he
      rfl
  rw [List.filterMap_append, hdaemon, List.nil_append, List.filterMap_map]
  exact List.filterMap_some

end Lives

section Observed

variable {h : Hub} {i : ι} {id : ℕ} {wake : Conn.Wake} {done : List Effect} {a : Daemon.Action}

omit [DecidableEq ι] in
/-- What the task of a connection hands on, of all that is observed. -/
theorem handed_task (a : Daemon.Action) (h : Hub) (id : ℕ) (wake : Conn.Wake)
    (done : List Effect) :
    (Daemon.Event.act a :: (Daemon.taken h id wake ++
      done.flatMap (Daemon.observe h id))).filterMap (handed none) =
        (done.filterMap Effect.handed).map fun frame => ⟨frame, none, false⟩ := by
  have htaken : (Daemon.taken h id wake).filterMap (handed none) = [] := by
    refine List.filterMap_eq_nil_iff.mpr fun e he => ?_
    unfold Daemon.taken at he
    split at he
    · obtain ⟨_, _, rfl⟩ := List.mem_map.mp he
      rfl
    · cases he
  have hfanned : ∀ e, (Daemon.fanned h id e).filterMap (handed none) = [] := by
    refine fun e => List.filterMap_eq_nil_iff.mpr fun x hx => ?_
    obtain ⟨_, _, _, _, _, _, rfl⟩ := Daemon.mem_fanned.mp hx
    rfl
  rw [List.filterMap_cons_none rfl, List.filterMap_append, htaken, List.nil_append]
  induction done with
  | nil => rfl
  | cons e done ih =>
    rw [List.flatMap_cons, List.filterMap_append, ih, Daemon.observe, List.filterMap_cons, hfanned,
      List.filterMap_cons]
    have hself : handed none (.did id e) = e.handed.map fun frame => ⟨frame, none, false⟩ := rfl
    rw [hself]
    cases e.handed <;> rfl

omit [DecidableEq ι] in
/-- What the cluster sees of the task of a connection. -/
theorem shown_task (a : Daemon.Action) (h : Hub) (i : ι) (id : ℕ) (wake : Conn.Wake)
    (done : List Effect) :
    (Daemon.Event.act a :: (Daemon.taken h id wake ++
      done.flatMap (Daemon.observe h id))).flatMap (shown h i) =
        (calls done).flatMap fun made => shown h i (.did id (.call made)) := by
  have htaken : (Daemon.taken h id wake).flatMap (shown h i) = [] := by
    refine List.flatMap_eq_nil_iff.mpr fun e he => ?_
    unfold Daemon.taken at he
    split at he
    · obtain ⟨_, _, rfl⟩ := List.mem_map.mp he
      rfl
    · cases he
  have hfanned : ∀ e, (Daemon.fanned h id e).flatMap (shown h i) = [] := by
    refine fun e => List.flatMap_eq_nil_iff.mpr fun x hx => ?_
    obtain ⟨_, _, _, _, _, _, rfl⟩ := Daemon.mem_fanned.mp hx
    rfl
  rw [List.flatMap_cons, List.flatMap_append, htaken, List.nil_append]
  change [] ++ _ = _
  rw [List.nil_append]
  induction done with
  | nil => rfl
  | cons e done ih =>
    rw [List.flatMap_cons, List.flatMap_append, ih, Daemon.observe, List.flatMap_cons, hfanned,
      List.append_nil]
    cases e with
    | call made => rfl
    | _ => rfl

omit [DecidableEq ι] in
/-- The cluster sees no restart in a call by a connection. -/
theorem restarted_notMem_shown (h : Hub) (i k : ι) (e : Daemon.Event) :
    .restarted k ∉ shown h i e := by
  unfold shown
  split
  · split <;> simp
  · split <;> simp
  · simp

omit [DecidableEq ι] in
/-- The cluster sees no restart in a call by a peer link. -/
theorem restarted_notMem_shownInbound (h : Hub) (i peer k : ι) (made : Inbound) :
    .restarted k ∉ shownInbound h i peer made := by
  cases made with
  | ingestRemote msg => simp [shownInbound]
  | applyRemoteRegistration typeName incoming => simp [shownInbound]

end Observed

/-- A message that survives the wire is made of lines. -/
theorem framed_feed {msg : Message} (hf : (OutFrame.feed msg).Sendable) :
    (Push.message msg).Framed := by
  obtain ⟨htype, hid, horigin, hbody⟩ := hf
  exact framed_message htype.newline hid.newline horigin.newline hbody

/-- A frame that survives the wire hands lines to the registry. -/
theorem framed_call {f : OutFrame} {limits : Limits} {made : Inbound} (hf : f.Sendable)
    (hcall : f.call limits = some made) : made.first.Framed := by
  cases f with
  | feed msg =>
    simp only [OutFrame.call] at hcall
    split at hcall
    · cases hcall
    · obtain rfl := Option.some.inj hcall
      exact framed_feed hf
  | rreg typeName reg =>
    simp only [OutFrame.call, Option.some.injEq] at hcall
    subst hcall
    exact hf.1.newline

section Steps

variable {C : Cluster ι} {n n' : Network ι} {s : Net ι} {past es : List (Event ι)} {i j : ι}

/-- A daemon does something, and the calls at it stay. -/
theorem Refines.lives (hR : Refines C n past s) {a : Daemon.Action} {d : Daemon}
    {done : List Daemon.Event} {shown : List (MacroBus.Event ι)} {h : Hub}
    (hstep : Daemon.step (C.config i).limits (C.config i).federationEnabled (n.daemon i) a =
      some (d, done))
    (hframed : framedLinks (n.daemon i) (lifeOf past i) a) (hal : d.hub.Alike h)
    (hshown : ∀ k, .restarted k ∉ shown) :
    Refines C { n with daemon := Function.update n.daemon i d }
      (past ++ (done.map (Event.daemon i) ++ shown.map .cluster)) (s.setHub i h) := by
  refine ⟨fun k => ?_, hR.link, hR.tasks, fun k => ?_⟩
  · rw [Net.setHub_hub]
    dsimp only
    by_cases hk : k = i
    · subst hk
      rw [Function.update_self, if_pos rfl]
      exact hal
    · rw [Function.update_of_ne hk, if_neg hk]
      exact hR.hub k
  · rw [lifeOf_act past i k done hshown]
    dsimp only
    by_cases hk : k = i
    · subst hk
      rw [Function.update_self, if_pos rfl]
      exact .step (hR.life k) hframed hstep
    · rw [Function.update_of_ne hk, if_neg (Ne.symm hk)]
      exact hR.life k

/-- The calls at a daemon change in the same way. -/
theorem Refines.withTasks (hR : Refines C n past s) {ts : List (Task ι)} {sendings : List Sending}
    (hts : sendings = if (C.config i).federationEnabled = true then ts.map (Task.sending C)
      else []) :
    Refines C { n with tasks := Function.update n.tasks i sendings } past (s.setTasks i ts) := by
  refine ⟨hR.hub, hR.link, fun k => ?_, hR.life⟩
  rw [Net.setTasks_tasks]
  dsimp only
  by_cases hk : k = i
  · subst hk
    rw [Function.update_self, if_pos rfl]
    exact hts
  · rw [Function.update_of_ne hk, if_neg hk]
    exact hR.tasks k

/-- A daemon does something, and is left with calls to go on with. -/
theorem Refines.acted (hR : Refines C n past s) {a : Daemon.Action} {d : Daemon}
    {done : List Daemon.Event} {exclude : Option Str} {shown : List (MacroBus.Event ι)} {h : Hub}
    {ts : List (Task ι)}
    (hstep : Daemon.step (C.config i).limits (C.config i).federationEnabled (n.daemon i) a =
      some (d, done))
    (hframed : framedLinks (n.daemon i) (lifeOf past i) a) (hal : d.hub.Alike h)
    (hts : done.filterMap (handed exclude) =
      if (C.config i).federationEnabled = true then ts.map (Task.sending C) else [])
    (hshown : ∀ k, .restarted k ∉ shown) :
    Refines C { n with
        daemon := Function.update n.daemon i d
        tasks := Function.update n.tasks i (n.tasks i ++ done.filterMap (handed exclude)) }
      (past ++ (done.map (Event.daemon i) ++ shown.map .cluster)) (s.acted i h ts) := by
  have hmore : n.tasks i ++ done.filterMap (handed exclude) =
      if (C.config i).federationEnabled = true then (s.tasks i ++ ts).map (Task.sending C)
      else [] := by
    rw [hts, hR.tasks i]
    split
    · rw [List.map_append]
    · rfl
  exact (hR.lives hstep hframed hal hshown).withTasks hmore

/-- Connections and links change. -/
theorem Refines.linked (hR : Refines C n past s) {wire : ι → ι → Wire} {link : ι → ι → Link}
    (hw : ∀ a b, (wire a b).Refines C a b (link a b)) {shown : List (MacroBus.Event ι)}
    (hshown : ∀ k, .restarted k ∉ shown) :
    Refines C { n with wire := wire } (past ++ shown.map .cluster) { s with link := link } := by
  refine ⟨hR.hub, hw, hR.tasks, fun k => ?_⟩
  rw [lifeOf_append, foldl_cluster hshown]
  exact hR.life k

/-- The connections between two daemons change. -/
theorem Refines.wired (hR : Refines C n past s) {w : Wire} {l : Link} (hw : w.Refines C i j l)
    {shown : List (MacroBus.Event ι)} (hshown : ∀ k, .restarted k ∉ shown) :
    Refines C (n.setWire i j w) (past ++ shown.map .cluster) (s.setLink i j l) := by
  refine hR.linked (fun a b => ?_) hshown
  by_cases ha : a = i
  · subst ha
    rw [Function.update_self, Function.update_self]
    by_cases hb : b = j
    · subst hb
      rw [Function.update_self, Function.update_self]
      exact hw
    · rw [Function.update_of_ne hb, Function.update_of_ne hb]
      exact hR.link a b
  · rw [Function.update_of_ne ha, Function.update_of_ne ha]
    exact hR.link a b

/-- The connections between two daemons change, and the cluster shows nothing. -/
theorem Refines.quietly (hR : Refines C n past s) {w : Wire} {l : Link} (hw : w.Refines C i j l) :
    Refines C (n.setWire i j w) past (s.setLink i j l) := by
  have hsilent : ∀ k, .restarted k ∉ ([] : List (MacroBus.Event ι)) := by simp
  have hwired := hR.wired hw hsilent
  rwa [List.map_nil, List.append_nil] at hwired

/-- The connections change in a way that the cluster does not see. -/
theorem Refines.unseen (hR : Refines C n past s) {w : Wire} (hw : w.Refines C i j (s.link i j)) :
    Matched C calmly s past [] (n.setWire i j w) := by
  have hsame : s.setLink i j (s.link i j) = s := by
    unfold Net.setLink
    rw [Function.update_eq_self, Function.update_eq_self]
  have hquiet := hR.quietly hw
  rw [hsame] at hquiet
  refine ⟨s, .stay, ?_⟩
  rwa [List.append_nil]

/-- The connections change in a guarded step of the cluster that shows nothing. -/
theorem Refines.stepped (hR : Refines C n past s) {w : Wire} {l : Link} (hw : w.Refines C i j l)
    {ok : Net ι → List (MacroBus.Event ι) → MacroBus.Action ι → Prop} (a : MacroBus.Action ι)
    (hok : ok s (past.filterMap Event.seen) a)
    (hstep : C.step s a = some (s.setLink i j l, [])) :
    Matched C ok s past [] (n.setWire i j w) := by
  refine ⟨s.setLink i j l, .one a hok hstep, ?_⟩
  rw [List.append_nil]
  exact hR.quietly hw

/-- What the task of a connection does is at most one step of the cluster, which has the same to
broadcast. -/
theorem conn_matched (hR : Refines C n past s) {c c' : Conn} {h' : Hub} {effects : List Effect}
    {nowMs : ℕ} {wake : Conn.Wake} (hnow : nowMs < u64Values)
    (hconn : (n.daemon i).conn c.id = some c)
    (hstep : Conn.step (C.config i).limits (C.config i).federationEnabled nowMs wake c
      (n.daemon i).hub = some (c', h', effects)) :
    ∃ h₁ ts, AtMostOne C.step calmly s (past.filterMap Event.seen) (s.acted i h₁ ts)
        ((calls effects).flatMap fun made => shown (n.daemon i).hub i (.did c.id (.call made))) ∧
      h'.Alike h₁ ∧ (effects.filterMap Effect.handed).map
        (fun frame => (⟨frame, none, false⟩ : Sending)) =
        if (C.config i).federationEnabled = true then ts.map (Task.sending C) else [] := by
  have hlife := hR.life i
  have hplain : Run _ anyStep _ _ _ := hlife.weaken fun _ _ _ _ => trivial
  have hhanded := step_handed hstep
  have hal := hR.hub i
  -- A step without a call is not seen, unless it takes an item from the queue.
  have hstay : calls effects = [] → h'.Alike (s.hub i) →
      ∃ h₁ ts, AtMostOne C.step calmly s (past.filterMap Event.seen) (s.acted i h₁ ts)
        ((calls effects).flatMap fun made => shown (n.daemon i).hub i (.did c.id (.call made))) ∧
      h'.Alike h₁ ∧ (effects.filterMap Effect.handed).map
        (fun frame => (⟨frame, none, false⟩ : Sending)) =
        if (C.config i).federationEnabled = true then ts.map (Task.sending C) else [] := by
    intro hcalls hlike
    refine ⟨s.hub i, [], ?_, hlike, ?_⟩
    · rw [hcalls, Net.acted_self]
      exact .stay
    · rw [hhanded, hcalls]
      simp
  obtain ⟨_, huses⟩ := Conn.step_uses hstep
  cases huses with
  | alone hwake hcalls hsubs hphase => exact hstay hcalls hal
  | channel hcalls hsilent hown hsubs hphase =>
    cases hown with
    | drain => exact hstay hcalls (hal.updateLeft c.id rfl rfl rfl)
    | notified hpermit => exact hstay hcalls (hal.updateLeft c.id rfl rfl rfl)
    | @recv out queue hqueue =>
      have hqueue' : ((s.hub i).chan c.id).queue = out :: queue := (hal.queue c.id).trans hqueue
      refine ⟨{ s.hub i with
        chan := Function.update (s.hub i).chan c.id { (s.hub i).chan c.id with queue := queue } },
        [], .one (.recv i c.id) ?_ ?_, hal.update c.id (hal.depth c.id) rfl (hal.isOpen c.id), ?_⟩
      · exact calmly_of_quiet (by simp) rfl
      · rw [hcalls]
        simp only [Cluster.step, hqueue', Net.acted_nil, List.flatMap_nil]
      · rw [hhanded, hcalls]
        simp
  | call made hwake hcalls hsubs hgone htypes =>
    have hmem : made ∈ calls effects := hcalls ▸ List.mem_singleton_self made
    obtain ⟨hchecked, _⟩ := Daemon.checked_of_run hplain
    have hcheckedCall := ((hchecked c.id c hconn).step hstep).2 made hmem
    have hnewline : '\n' ∉ (C.config i).daemonId := (C.token i).newline
    have hframedCall :=
      (((Daemon.framed_of_run hnewline hlife).conn c.id c hconn).step hstep).2 made hmem
    have hlive : c.phase ≠ .gone := by
      intro hgone
      rw [Conn.step_gone hgone] at hstep
      cases hstep
    have hopen := (Daemon.chanInvariant_of_run hplain).isOpen c.id c hconn hlive
    obtain ⟨h₁, ts, hone, halike, hts⟩ :=
      call_matched hal hcheckedCall hframedCall hnow hopen
    refine ⟨h₁, ts, ?_, halike, ?_⟩
    · rw [hcalls, List.flatMap_singleton]
      exact hone
    · rw [hhanded, hcalls, List.flatMap_singleton]
      cases hfwd : (C.config i).federationEnabled with
      | true => rw [if_pos rfl, hts]
      | false =>
        rw [Call.handed_false, if_neg Bool.false_ne_true]
        rfl

/-- **A client's connection takes a step.** -/
theorem task_matched (hR : Refines C n past s) {id nowMs : ℕ} {wake : Conn.Wake}
    (hnow : nowMs < u64Values) (hstep : n.step C (.task i id nowMs wake) = some (n', es)) :
    Matched C calmly s past es n' := by
  simp only [step, act, Option.map_eq_some_iff, Prod.mk.injEq] at hstep
  obtain ⟨⟨d, done⟩, hdaemon, rfl, rfl⟩ := hstep
  obtain ⟨c, c', h', effects, hconn, hconnStep, rfl, rfl⟩ := Daemon.step_task_eq_some_iff.mp hdaemon
  have hplain : Run _ anyStep _ _ _ := (hR.life i).weaken fun _ _ _ _ => trivial
  obtain rfl : c.id = id := (Daemon.subscriptionInvariant_of_run hplain).ids id c hconn
  obtain ⟨h₁, ts, hone, hal, hts⟩ := conn_matched hR hnow hconn hconnStep
  refine ⟨s.acted i h₁ ts, ?_, hR.acted hdaemon ?_ hal ?_ ?_⟩
  · rw [seen_act, shown_task]
    exact hone
  · intro made heq
    cases heq
  · rw [handed_task]
    exact hts
  · intro k hmem
    obtain ⟨e, _, he⟩ := List.mem_flatMap.mp hmem
    exact restarted_notMem_shown _ _ _ e he

/-- **A client connects.** -/
theorem accept_matched (hR : Refines C n past s) {id : ℕ}
    (hstep : n.step C (.accept i id) = some (n', es)) :
    Matched C calmly s past es n' := by
  simp only [step, act, Option.map_eq_some_iff, Prod.mk.injEq] at hstep
  obtain ⟨⟨d, done⟩, hdaemon, rfl, rfl⟩ := hstep
  obtain ⟨hconn, rfl, rfl⟩ := Daemon.step_accept_eq_some_iff.mp hdaemon
  have hplain : Run _ anyStep _ _ _ := (hR.life i).weaken fun _ _ _ _ => trivial
  have hunused := (Daemon.checked_of_run hplain).2 id hconn
  have hal : Hub.Alike { (n.daemon i).hub with
      chan := Function.update (n.daemon i).hub.chan id
        { depth := (C.config i).limits.queueDepth } } (s.hub i) :=
    (hR.hub i).updateLeft id (by rw [hunused]) (by rw [hunused]) (by rw [hunused])
  have hsilent : ∀ k, .restarted k ∉ ([] : List (MacroBus.Event ι)) := by simp
  have hts : ([.act (.accept id)] : List Daemon.Event).filterMap (handed none) =
        if (C.config i).federationEnabled = true then ([] : List (Task ι)).map (Task.sending C)
        else [] := by
    simp [handed]
  have hacted := hR.acted hdaemon (fun made heq => by cases heq) hal hts hsilent
  rw [Net.acted_self] at hacted
  refine ⟨s, ?_, hacted⟩
  rw [seen_act]
  exact .stay

/-- **A reading loop takes a turn.** -/
theorem read_matched (hrun : Run C.step publishesLines C.initial s (past.filterMap Event.seen))
    (hR : Refines C n past s) {peer : ι} {k : Option ℕ}
    (hstep : n.step C (.read i peer k) = some (n', es)) :
    Matched C calmly s past es n' := by
  simp only [step] at hstep
  split at hstep
  · next fromPeer octets hp =>
    obtain ⟨⟨made, rest⟩, hturn, hperform⟩ := Option.bind_eq_some_iff.mp hstep
    have hwire := hR.link peer i
    obtain ⟨tail, frames, put, ⟨hnamed, hoctets⟩, hput, hholds, hset, hread⟩ := hwire.zoom hp
    obtain rfl := hnamed fromPeer rfl
    have hsendable := sendable_of_run hrun
    have hframes : ∀ f ∈ frames, f.Sendable := fun f hf => hsendable.holds (hholds f hf)
    obtain ⟨f, more, rfl, rfl, hrest⟩ :=
      federation.turn_of_append hframes (hoctets (by simp)) hturn
    obtain ⟨a, hastep, hcalm⟩ := hread s f more rfl rfl
    have hok := hcalm (past.filterMap Event.seen)
    -- The frame is off the connection.
    have hoff := hR.quietly (hset ⟨.reading (C.config peer).daemonId, rest⟩ more
      ⟨fun _ hstate => (by cases hstate; rfl), fun _ => hrest⟩)
    have hmatched := @handle_matched _ _ C _ _ _ peer _ (hframes f List.mem_cons_self) (hoff.hub i)
    cases hcall : f.call (C.config i).limits with
    | none =>
      rw [hcall] at hmatched hperform
      simp only [perform, Option.some.injEq, Prod.mk.injEq] at hperform
      obtain ⟨rfl, rfl⟩ := hperform
      rw [hmatched] at hastep
      refine ⟨_, .one a hok hastep, ?_⟩
      rwa [List.append_nil]
    | some made =>
      rw [hcall] at hmatched hperform
      obtain ⟨h₁, ts, hhandle, hal, hts⟩ := hmatched
      simp only [perform, act, Option.map_eq_some_iff, Prod.mk.injEq] at hperform
      obtain ⟨⟨d, done⟩, hdaemon, rfl, rfl⟩ := hperform
      have hdone := hdaemon
      simp only [Daemon.step, Option.some.injEq, Prod.mk.injEq] at hdone
      obtain ⟨rfl, rfl⟩ := hdone
      have henabled : (C.config i).federationEnabled = true := by
        unfold Config.federationEnabled
        rw [hwire.listens_of_holds (hholds f List.mem_cons_self), Bool.true_or]
      rw [hhandle] at hastep
      have hframed : framedLinks (n.daemon i) (lifeOf past i) (.inbound made.first) := by
        intro made' heq
        cases heq
        exact framed_call (hframes f List.mem_cons_self) hcall
      have hsendings : (Daemon.Event.act (.inbound made.first) ::
          Daemon.received (n.daemon i).hub made.first).filterMap
            (handed (some (C.config peer).daemonId)) =
          if (C.config i).federationEnabled = true then ts.map (Task.sending C) else [] := by
        rw [List.filterMap_cons_none rfl, if_pos henabled, hts]
        rfl
      refine ⟨(s.setLink peer i (put more)).acted i h₁ ts, .one a hok ?_,
        hoff.acted hdaemon hframed hal hsendings fun j => restarted_notMem_shownInbound _ _ _ _ _⟩
      rw [seen_act]
      exact hastep
  · cases hstep

/-- **The accepting end reads the greeting.** -/
theorem greet_matched (hR : Refines C n past s) {peer : ι} {k : Option ℕ}
    (hstep : n.step C (.greet i peer k) = some (n', es)) : Matched C calmly s past es n' := by
  simp only [step] at hstep
  split at hstep
  · next octets hp =>
    obtain ⟨⟨line, rest⟩, hline, heq⟩ := Option.map_eq_some_iff.mp hstep
    obtain ⟨rfl, rfl⟩ := Prod.mk.inj heq
    obtain ⟨tail, frames, put, ⟨_, hoctets⟩, hput, _, hset, _⟩ := (hR.link peer i).zoom hp
    have hall := federation.arrivedLine_append hline tail
    have hgreeting := federation.arrivedLine_wireLine (newline_notMem_peerGreeting C peer)
      (frameStream frames)
    have hdue : octets ++ tail =
        wireLine (peerGreeting (C.config peer).daemonId) ++ frameStream frames :=
      hoctets (by simp)
    rw [hdue, hgreeting] at hall
    obtain ⟨rfl, hrest⟩ := Prod.mk.inj (Option.some.inj hall)
    dsimp only
    rw [parseGreetingId_config]
    refine hR.unseen (hput ▸ hset _ frames ⟨fun _ hstate => (by cases hstate; rfl), fun _ => ?_⟩)
    exact hrest.symm
  · cases hstep

/-- **The accepting end meets an error.** -/
theorem fail_matched (hR : Refines C n past s) {peer : ι} {k : Option ℕ}
    (hstep : n.step C (.fail i peer k) = some (n', es)) : Matched C calmly s past es n' := by
  simp only [step] at hstep
  obtain ⟨p, hp, heq⟩ := Option.map_eq_some_iff.mp hstep
  obtain ⟨rfl, rfl⟩ := Prod.mk.inj heq
  obtain ⟨tail, frames, put, _, hput, _, hset, _⟩ := (hR.link peer i).zoom hp
  refine hR.unseen (hput ▸ hset _ frames ⟨fun _ hstate => (by cases hstate), ?_⟩)
  exact fun hstate => absurd rfl hstate

/-- **A dialer connects.** -/
theorem connect_matched (hR : Refines C n past s)
    (hstep : n.step C (.connect i j) = some (n', es)) : Matched C calmly s past es n' := by
  simp only [step] at hstep
  split at hstep
  · next hconnect =>
    obtain ⟨hpeer, hlisten, hnone⟩ := hconnect
    obtain ⟨rfl, rfl⟩ := Prod.mk.inj (Option.some.inj hstep)
    exact hR.unseen ((hR.link i j).connect hnone hpeer hlisten)
  · cases hstep

/-- **A dialer inserts its sender.** -/
theorem insert_matched (hR : Refines C n past s)
    (hstep : n.step C (.insert i j) = some (n', es)) : Matched C calmly s past es n' := by
  simp only [step] at hstep
  split at hstep
  · next line rest hdown hp hline =>
    obtain ⟨rfl, rfl⟩ := Prod.mk.inj (Option.some.inj hstep)
    have hw := hR.link i j
    have hpipe : (n.wire i j).pipe ≠ none := by simp [hp]
    refine hR.stepped (hw.insert hdown hpipe hline) (.insert i j) (calmly_of_quiet (by simp) rfl) ?_
    simp only [Cluster.step, if_pos (And.intro (hw.dialed hpipe) (hw.phase.trans hdown))]
  · cases hstep

/-- **A dialer takes the snapshot.** -/
theorem snapshot_matched (hR : Refines C n past s)
    (hstep : n.step C (.snapshot i j) = some (n', es)) : Matched C calmly s past es n' := by
  simp only [step] at hstep
  split at hstep
  · next hphase =>
    obtain ⟨rfl, rfl⟩ := Prod.mk.inj (Option.some.inj hstep)
    have hw := hR.link i j
    have hpushing : LinkPhase.pushing (n.daemon i).hub.registry.allRegistrations ≠ .down := by simp
    refine hR.stepped (hw.withPhase (by simp [hphase]) hpushing) (.snapshot i j) (calmly_of_quiet (by simp) rfl) ?_
    rw [← (hR.hub i).registry]
    simp only [Cluster.step, if_pos (hw.phase.trans hphase)]
  · cases hstep

/-- **A dialer starts its loops.** -/
theorem start_matched (hR : Refines C n past s)
    (hstep : n.step C (.start i j) = some (n', es)) : Matched C calmly s past es n' := by
  simp only [step] at hstep
  split at hstep
  · next hphase =>
    obtain ⟨rfl, rfl⟩ := Prod.mk.inj (Option.some.inj hstep)
    have hw := hR.link i j
    refine hR.stepped (hw.withPhase (by simp [hphase]) (by simp)) (.start i j) (calmly_of_quiet (by simp) rfl) ?_
    simp only [Cluster.step, if_pos (hw.phase.trans hphase)]
  · cases hstep

/-- **A dialer pushes one record of its snapshot.** -/
theorem push_matched (hR : Refines C n past s)
    (hstep : n.step C (.push i j) = some (n', es)) : Matched C calmly s past es n' := by
  simp only [step] at hstep
  split at hstep
  · next typeName reg rest hphase =>
    obtain ⟨rfl, rfl⟩ := Prod.mk.inj (Option.some.inj hstep)
    have hw := hR.link i j
    have hoffer := hw.offer (.rreg typeName reg)
    have hup : ((n.wire i j).offer (.rreg typeName reg)).phase ≠ .down := by
      unfold Wire.offer
      split <;> simp [hphase]
    have hpushing : LinkPhase.pushing rest ≠ .down := by simp
    have hnext := hoffer.withPhase hup hpushing
    have hphase' : (s.link i j).phase = .pushing ((typeName, reg) :: rest) :=
      hw.phase.trans hphase
    have hshown : ∀ k, .restarted k ∉ [if (n.wire i j).hasRoom = true
        then MacroBus.Event.sent i j (.rreg typeName reg)
        else .dropped i j (.rreg typeName reg)] := by
      intro k
      split <;> simp
    refine ⟨_, .one (.push i j) (calmly_of_quiet (by simp) rfl) ?_, hR.wired hnext hshown⟩
    simp only [Cluster.step, hphase', hw.hasRoom]
    rfl
  · cases hstep

/-- **`write_loop` takes a frame.** -/
theorem take_matched (hR : Refines C n past s)
    (hstep : n.step C (.take i j) = some (n', es)) : Matched C calmly s past es n' := by
  simp only [step] at hstep
  split at hstep
  · next frame queue hup hwriting hqueue =>
    obtain ⟨rfl, rfl⟩ := Prod.mk.inj (Option.some.inj hstep)
    have hw := hR.link i j
    refine hR.stepped (hw.take hup hwriting) (.write i j) (calmly_of_quiet (by simp) rfl) ?_
    simp only [Cluster.step, hw.phase, hw.queue, hup, hqueue]
  · cases hstep

/-- **`write_loop` writes some octets.** -/
theorem write_matched (hR : Refines C n past s) {m : ℕ}
    (hstep : n.step C (.write i j m) = some (n', es)) : Matched C calmly s past es n' := by
  simp only [step] at hstep
  split at hstep
  · next p hp =>
    obtain ⟨rfl, rfl⟩ := Prod.mk.inj (Option.some.inj hstep)
    exact hR.unseen ((hR.link i j).write hp m)
  · cases hstep

/-- **A dialer never reads a frame.** -/
theorem readBack_eq_none (hR : Refines C n past s) (i j : ι) : n.step C (.readBack i j) = none := by
  simp only [step]
  split
  · next made rest hup hturn =>
    have hne : (n.wire i j).phase ≠ .down := by simp [hup]
    rw [((hR.link i j).answered hne).1] at hturn
    cases hturn
  · rfl

/-- **A dialer loses its connection.** -/
theorem lose_matched (hR : Refines C n past s) {m : ℕ}
    (hstep : n.step C (.lose i j m) = some (n', es)) : Matched C publishesLines s past es n' := by
  simp only [step] at hstep
  split at hstep
  · cases hstep
  · obtain ⟨rfl, rfl⟩ := Prod.mk.inj (Option.some.inj hstep)
    exact hR.stepped ((hR.link i j).cut m) (.lose i j) (fun _ _ _ _ heq => by cases heq) rfl

omit [DecidableEq ι] in
/-- Peers are told apart by their ids. -/
theorem excluded_iff (C : Cluster ι) (j : ι) (exclude : Option ι) :
    some (C.config j).daemonId = (exclude.map fun k => (C.config k).daemonId) ↔
      some j = exclude := by
  cases exclude with
  | none => simp
  | some k =>
    rw [Option.map_some, Option.some_inj, Option.some_inj]
    exact C.distinct.eq_iff

/-- A broadcast is observed in the same way. -/
theorem Refines.broadcast_snd (hR : Refines C n past s) (i : ι) (frame : OutFrame)
    (exclude : Option ι) :
    (broadcast C n i frame (exclude.map fun k => (C.config k).daemonId)).2 =
      (C.broadcast s i frame exclude).2.map .cluster := by
  simp only [broadcast, Cluster.broadcast, List.map_map, (hR.link i _).isPeer, (hR.link i _).hasRoom,
    Ne, excluded_iff]
  rfl

/-- A broadcast leads to the same frames. -/
theorem Refines.broadcast_fst (hR : Refines C n past s) (i : ι) (frame : OutFrame)
    (exclude : Option ι) :
    Refines C (broadcast C n i frame (exclude.map fun k => (C.config k).daemonId)).1
      (past ++ (C.broadcast s i frame exclude).2.map .cluster)
      (C.broadcast s i frame exclude).1 := by
  refine hR.linked (fun a b => ?_) fun k hk => ?_
  · by_cases ha : a = i
    · subst ha
      simp only [Function.update_self, excluded_iff]
      split
      · exact hR.link a b
      · exact (hR.link a b).offer frame
    · rw [Function.update_of_ne ha, Function.update_of_ne ha]
      exact hR.link a b
  · obtain ⟨j, _, hj⟩ := List.mem_map.mp hk
    split at hj <;> cases hj

/-- A call of the network that is still to go on is one of the cluster. -/
theorem Refines.task (hR : Refines C n past s) {k : ℕ} {t : Sending}
    (hk : (n.tasks i)[k]? = some t) : ∃ t₀, (s.tasks i)[k]? = some t₀ ∧ Task.sending C t₀ = t ∧
      n.tasks i = (s.tasks i).map (Task.sending C) ∧ (C.config i).federationEnabled = true := by
  have htasks := hR.tasks i
  split at htasks
  · next henabled =>
    rw [htasks, List.getElem?_map] at hk
    obtain ⟨t₀, ht₀, heq⟩ := Option.map_eq_some_iff.mp hk
    exact ⟨t₀, ht₀, heq, htasks, henabled⟩
  · rw [htasks] at hk
    cases hk

/-- **A call broadcasts its frame.** -/
theorem broadcast_matched (hR : Refines C n past s) {k : ℕ}
    (hstep : n.step C (.broadcast i k) = some (n', es)) : Matched C calmly s past es n' := by
  simp only [step] at hstep
  split at hstep
  · next frame exclude hk =>
    obtain ⟨⟨frame', exclude', ingesting⟩, ht, hsending, htasks, henabled⟩ := hR.task hk
    obtain ⟨rfl, rfl, rfl⟩ := Sending.mk.inj hsending
    obtain ⟨rfl, rfl⟩ := Prod.mk.inj (Option.some.inj hstep)
    have hfewer : Refines C { n with tasks := Function.update n.tasks i ((n.tasks i).eraseIdx k) }
        past (s.setTasks i ((s.tasks i).eraseIdx k)) := by
      refine hR.withTasks ?_
      rw [htasks, List.eraseIdx_map, if_pos henabled]
    have hframe := hfewer.broadcast_fst i frame' exclude'
    rw [← hfewer.broadcast_snd] at hframe
    refine ⟨_, .one (.broadcast i k) (calmly_of_quiet (by simp) rfl) ?_, hframe⟩
    have hseen : (broadcast C { n with
        tasks := Function.update n.tasks i ((n.tasks i).eraseIdx k) } i frame'
          (exclude'.map fun k => (C.config k).daemonId)).2.filterMap Event.seen =
        (C.broadcast (s.setTasks i ((s.tasks i).eraseIdx k)) i frame' exclude').2 := by
      rw [hfewer.broadcast_snd, List.filterMap_map]
      exact List.filterMap_some
    simp only [Cluster.step, ht]
    exact congrArg some (Prod.ext rfl hseen.symm)
  · cases hstep

/-- **A call fans out the message it has recorded.** -/
theorem fanOut_matched (hrun : Run C.step publishesLines C.initial s (past.filterMap Event.seen))
    (hR : Refines C n past s) {k : ℕ}
    (hstep : n.step C (.fanOut i k) = some (n', es)) : Matched C calmly s past es n' := by
  simp only [step, fanOut] at hstep
  split at hstep
  · next msg exclude hk =>
    obtain ⟨⟨frame', exclude', ingesting⟩, ht, hsending, htasks, henabled⟩ := hR.task hk
    obtain ⟨rfl, rfl, rfl⟩ := Sending.mk.inj hsending
    obtain ⟨⟨d, done⟩, hdaemon, heq⟩ := Option.map_eq_some_iff.mp hstep
    obtain ⟨rfl, rfl⟩ := Prod.mk.inj heq
    have hd := hdaemon
    simp only [Daemon.step, Option.some.injEq, Prod.mk.injEq] at hd
    obtain ⟨rfl, rfl⟩ := hd
    have hframed : framedLinks (n.daemon i) (lifeOf past i) (.inbound (.fanOut msg)) := by
      intro made heq
      obtain rfl := Daemon.Action.inbound.inj heq
      exact framed_feed
        ((sendable_of_run hrun).tasks i msg ⟨_, List.mem_of_getElem? ht, rfl⟩)
    have hsilent : ∀ j, .restarted j ∉
        [MacroBus.Event.fannedOut i msg ((n.daemon i).hub.recipients msg)] := by simp
    have hlives := hR.lives hdaemon hframed ((hR.hub i).fanoutLocked msg) hsilent
    have hset : (n.tasks i).set k ⟨.feed msg, exclude'.map fun k => (C.config k).daemonId, false⟩ =
        if (C.config i).federationEnabled = true then
          ((s.tasks i).set k ⟨.feed msg, exclude', false⟩).map (Task.sending C) else [] := by
      rw [htasks, List.map_set, if_pos henabled]
      rfl
    refine ⟨_, .one (.fanOut i k) (calmly_of_quiet (by simp) rfl) ?_, hlives.withTasks hset⟩
    simp only [Cluster.step, ht]
    rw [(hR.hub i).recipients]
    exact congrArg some (Prod.ext rfl (seen_act i _ _).symm)
  · cases hstep

/-- **A daemon restarts.** -/
theorem restart_matched (hR : Refines C n past s) {kept : ι → ℕ}
    (hstep : n.step C (.restart i kept) = some (n', es)) :
    Matched C publishesLines s past es n' := by
  simp only [step, Option.some.injEq, Prod.mk.injEq] at hstep
  obtain ⟨rfl, rfl⟩ := hstep
  refine ⟨_, .one (.restart i) (fun _ _ _ _ heq => by cases heq) rfl, ?_, ?_, ?_, ?_⟩
  · intro k
    by_cases hk : k = i
    · subst hk
      simp only [Function.update_self]
      exact .refl _
    · simp only [Function.update_of_ne hk]
      exact hR.hub k
  · intro a b
    unfold wiresWithout Net.linksWithout
    dsimp only
    split
    · exact .fresh C a b
    · split
      · exact (hR.link a b).cut (kept b)
      · exact hR.link a b
  · intro k
    by_cases hk : k = i
    · subst hk
      simp only [Function.update_self]
      simp
    · simp only [Function.update_of_ne hk]
      exact hR.tasks k
  · intro k
    rw [lifeOf_append]
    by_cases hk : k = i
    · subst hk
      simp only [Function.update_self, List.foldl_cons, List.foldl_nil, lifeStep, if_true]
      exact .init
    · simp only [Function.update_of_ne hk, List.foldl_cons, List.foldl_nil, lifeStep,
        if_neg (Ne.symm hk)]
      exact hR.life k

end Steps

variable {C : Cluster ι} {n n' : Network ι} {past es : List (Event ι)} {s : Net ι}

/-- All daemons have just started, in the network as in the cluster. -/
theorem refines_initial (C : Cluster ι) : Refines C (initial C) [] C.initial where
  hub _ := .refl _
  link i j := .fresh C i j
  tasks i := by
    split <;> rfl
  life _ := .init

/-- A step cuts a connection or restarts a daemon. -/
def Action.breaks : Action ι → Bool
  | .lose .. | .restart .. => true
  | _ => false

/-- **Every step that breaks nothing is matched by one that breaks nothing.** -/
theorem calm_matched (hrun : Run C.step publishesLines C.initial s (past.filterMap Event.seen))
    (hR : Refines C n past s) {a : Action ι} (hok : clocked n past a) (hcalm : a.breaks = false)
    (hstep : n.step C a = some (n', es)) : Matched C calmly s past es n' := by
  cases a with
  | accept i id => exact accept_matched hR hstep
  | task i id nowMs wake => exact task_matched hR (hok i id nowMs wake rfl) hstep
  | fanOut i k => exact fanOut_matched hrun hR hstep
  | broadcast i k => exact broadcast_matched hR hstep
  | connect i j => exact connect_matched hR hstep
  | insert i j => exact insert_matched hR hstep
  | snapshot i j => exact snapshot_matched hR hstep
  | push i j => exact push_matched hR hstep
  | start i j => exact start_matched hR hstep
  | take i j => exact take_matched hR hstep
  | write i j m => exact write_matched hR hstep
  | readBack i j =>
    rw [readBack_eq_none hR] at hstep
    cases hstep
  | greet i peer k => exact greet_matched hR hstep
  | read i peer k => exact read_matched hrun hR hstep
  | fail i peer k => exact fail_matched hR hstep
  | lose | restart => cases hcalm

/-- **Every step is matched.** -/
theorem step_matched (hrun : Run C.step publishesLines C.initial s (past.filterMap Event.seen))
    (hR : Refines C n past s) {a : Action ι} (hok : clocked n past a)
    (hstep : n.step C a = some (n', es)) : Matched C publishesLines s past es n' := by
  cases hbreaks : a.breaks with
  | false =>
    obtain ⟨s', hnext, hR'⟩ := calm_matched hrun hR hok hbreaks hstep
    exact ⟨s', hnext.weaken fun _ hcalm => hcalm.1, hR'⟩
  | true =>
    cases a with
    | lose i j m => exact lose_matched hR hstep
    | restart i kept => exact restart_matched hR hstep
    | _ => cases hbreaks

/-- Every run of the network is matched by a run of the cluster. -/
theorem refines_of_run (h : Run (fun n a => n.step C a) clocked (initial C) n past) :
    ∃ s, Run C.step publishesLines C.initial s (past.filterMap Event.seen) ∧
      Refines C n past s := by
  refine Run.simulated Event.seen (refines_initial C) ?_ h
  intro n past a n' es s _ hrun hR hok hstep
  exact step_matched hrun hR hok hstep

/-- Whether the clock of a step shows a 64-bit time. -/
def onTime : Action ι → Bool
  | .task _ _ nowMs _ => decide (nowMs < u64Values)
  | _ => true

omit [DecidableEq ι] in
/-- A step that is on time is clocked. -/
theorem clocked_of_onTime {a : Action ι} (h : onTime a = true) : clocked n past a := by
  rintro i id nowMs wake rfl
  exact of_decide_eq_true h

/-- What a client does, in the network. -/
def clientDoes (i : ι) : Daemon.Action → Option (Action ι)
  | .accept id => some (.accept i id)
  | .task id nowMs wake => some (.task i id nowMs wake)
  | .inbound _ => none

/-- A client subscribes at one daemon, and a client of the other one publishes. The frames arrive
in two pieces. -/
def deliveryTrace : List (Action Bool) :=
  [.connect false true, .insert false true, .snapshot false true, .start false true] ++
    (Daemon.arrival 1 ++ Daemon.arrives 1 (Str.asBytes "SUBSCRIBE t\r\n".toList) 4).filterMap
      (clientDoes true) ++
    (Daemon.arrival 2 ++ Daemon.arrives 2 (Str.asBytes "REGISTER t k\r\n".toList) 4 ++
      Daemon.arrives 2 (Str.asBytes "PUBLISH t k\r\nhi\r\n.\r\n".toList) 6).filterMap
      (clientDoes false) ++
    [.broadcast false 0, .broadcast false 0, .take false true, .write false true 100,
      .take false true, .write false true 9, .greet true false none, .read true false none,
      .broadcast true 0, .write false true 100, .read true false none, .fanOut true 0,
      .task true 1 0 .recv]

/-- The message that the subscriber takes. -/
def delivered : Message := ⟨"t".toList, "d1-1".toList, "d1".toList, ["hi".toList]⟩

/-- The subscriber takes a message that was published at the other daemon. -/
theorem exists_delivery : ∃ (n : Network Bool) (past : List (Event Bool)),
    Run (fun n a => n.step pair a) clocked (initial pair) n past ∧
      Daemon.takenBy (lifeOf past true) 1 = [.deliver delivered] := by
  obtain ⟨n, past, hrun, htaken⟩ := exists_run (fun n a => n.step pair a) (fun _ _ a => onTime a)
    (initial pair) deliveryTrace
    (P := fun _ past => Daemon.takenBy (lifeOf past true) 1 = [.deliver delivered])
    (by decide +kernel)
  exact ⟨n, past, hrun.weaken fun _ _ _ hok => clocked_of_onTime hok, htaken⟩

end Network

section Result

variable {ι : Type} [DecidableEq ι] {C : Cluster ι} {n : Network ι}
  {past : List (Network.Event ι)}

/-- **The network refines its models.** What is seen of a run of the network, in which octets are
written and read in any pieces and connections are cut at any octet, is a run of the cluster, in
which daemons flood frames: the registries are those of the daemons, queues hold the same, and
what is on a connection that is read, with what is still to be written, are the octets of the
frames on the wire. And since it last started, each daemon has run by itself. -/
theorem network_refines_its_models
    (hrun : Run (fun n a => n.step C a) Network.clocked (Network.initial C) n past) :
    ∃ s, Run C.step publishesLines C.initial s (past.filterMap Network.Event.seen) ∧ ∀ i,
      (s.hub i).registry = (n.daemon i).hub.registry ∧
      (∀ id, ((s.hub i).chan id).queue = ((n.daemon i).hub.chan id).queue) ∧
      (∀ j, (s.link i j).phase = (n.wire i j).phase ∧ (s.link i j).queue = (n.wire i j).queue ∧
        ∀ fromPeer octets, (n.wire i j).pipe = some ⟨.reading fromPeer, octets⟩ →
          fromPeer = (C.config i).daemonId ∧
          octets ++ (n.wire i j).writing = frameStream (s.link i j).wire) ∧
      Run (Daemon.step (C.config i).limits (C.config i).federationEnabled) framedLinks
        (Daemon.start (C.config i).daemonId (C.config i).limits) (n.daemon i)
        (Network.lifeOf past i) := by
  obtain ⟨s, hcluster, hR⟩ := Network.refines_of_run hrun
  refine ⟨s, hcluster, fun i => ⟨(hR.hub i).registry, (hR.hub i).queue, fun j => ?_, hR.life i⟩⟩
  have hw := hR.link i j
  refine ⟨hw.phase, hw.queue, fun fromPeer octets hpipe => ?_⟩
  obtain ⟨hnamed, hoctets⟩ := hw.wire _ hpipe
  exact ⟨hnamed fromPeer rfl, hoctets (by simp)⟩

/-- A message is delivered over octets, and the cluster sees it delivered. -/
theorem network_refines_its_models_delivered :
    ∃ (n : Network Bool) (past : List (Network.Event Bool)) (s : Net Bool),
      Run (fun n a => n.step pair a) Network.clocked (Network.initial pair) n past ∧
      Daemon.takenBy (Network.lifeOf past true) 1 = [.deliver Network.delivered] ∧
      Run pair.step publishesLines pair.initial s (past.filterMap Network.Event.seen) ∧
      (s.hub true).registry = (n.daemon true).hub.registry := by
  obtain ⟨n, past, hrun, htaken⟩ := Network.exists_delivery
  obtain ⟨s, hcluster, hsame⟩ := network_refines_its_models hrun
  exact ⟨n, past, s, hrun, htaken, hcluster, (hsame true).1⟩

end Result

end MacroBus
