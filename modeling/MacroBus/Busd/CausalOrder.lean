import MacroBus.Lib.Flood
import MacroBus.Busd.Flooding

/-!
# Messages arrive in the order of cause and effect

Where nothing is lost and every daemon broadcasts its calls in the order in which it made
them, each link carries what its daemon has accepted from elsewhere, in order. The cluster
then is a flood over channels in order. Where a broadcast overtakes another, it is not. And
where someone comes between the two sections of `ingest_remote`, subscribers may get in
another order what their daemon has accepted in order.
-/

namespace MacroBus

open Transition

variable {ι : Type}

/-- The message the frame carries. -/
def OutFrame.message : OutFrame → Option Message
  | .feed msg => some msg
  | .rreg .. => none

/-- A call broadcasts before one that was made earlier. -/
def Action.overtakes : Action ι → Bool
  | .broadcast _ k => k ≠ 0
  | _ => false

/-- Links stay up, and a daemon broadcasts the oldest of its calls first, as where no call is
interrupted between the registry and its broadcast. -/
def inOrder (C : Cluster ι) (s : Net ι) (past : List (Event ι)) (a : Action ι) : Prop :=
  steady C s past a ∧ a.overtakes = false

instance [Fintype ι] [DecidableEq ι] (C : Cluster ι) (s : Net ι) (past : List (Event ι))
    (a : Action ι) : Decidable (inOrder C s past a) :=
  inferInstanceAs (Decidable (steady C s past a ∧ a.overtakes = false))

variable [DecidableEq ι]

/-- The messages that are still to reach `j` from `i`, the next one first: on the wire, in the
queue, and of calls that are to broadcast them there. -/
def Net.channel (s : Net ι) (i j : ι) : List Message :=
  ((s.link i j).wire ++ (s.link i j).queue).filterMap OutFrame.message ++
    ((s.tasks i).filter fun t => t.exclude ≠ some j).filterMap fun t => t.frame.message

/-- What a step does to the channels between peers. -/
inductive ChannelStep (C : Cluster ι) (s s' : Net ι) (past es : List (Event ι)) : Prop
  /-- Nothing. -/
  | quiet (haccepted : ∀ k, acceptances es k = [])
      (hchannel : ∀ a b, b ∈ C.peers a → s'.channel a b = s.channel a b)
  /-- A message is published. -/
  | publish (i : ι) (msg : Message) (hid : msg.msgId = (s.hub i).registry.msgId)
      (haccepted : ∀ k, acceptances es k = if k = i then [(msg, none)] else [])
      (hchannel : ∀ a b, b ∈ C.peers a →
        s'.channel a b = s.channel a b ++ if a = i then [msg] else [])
  /-- A message is read that was seen. -/
  | skip (i j : ι) (msg : Message) (hpeer : j ∈ C.peers i) (hpublished : WasPublished past msg)
      (hseen : msg.msgId ∈ (s.hub j).registry.seen.set) (haccepted : ∀ k, acceptances es k = [])
      (hread : s.channel i j = msg :: s'.channel i j)
      (hchannel : ∀ a b, b ∈ C.peers a → ¬(a = i ∧ b = j) → s'.channel a b = s.channel a b)
  /-- A message is read that is new. -/
  | accept (i j : ι) (msg : Message) (hpeer : j ∈ C.peers i)
      (hnew : msg.msgId ∉ (s.hub j).registry.seen.set)
      (haccepted : ∀ k, acceptances es k = if k = j then [(msg, some i)] else [])
      (hread : s.channel i j = msg :: s'.channel i j)
      (hchannel : ∀ a b, b ∈ C.peers a → ¬(a = i ∧ b = j) →
        s'.channel a b = s.channel a b ++ if a = j ∧ some i ≠ some b then [msg] else [])

/-- The flood that a cluster is, as far as its messages go. -/
structure Follows (C : Cluster ι) (s : Net ι) (past : List (Event ι))
    (f : Flood.State ι Message) : Prop where
  /-- It is a flood. -/
  reached : Flood.Reached f
  /-- Logs are what the daemons have accepted. -/
  log : ∀ i, f.log i = acceptances past i
  /-- What is not yet read is on the link, or about to be sent over it. -/
  channel : ∀ i j, j ∈ C.peers i → (f.onward i j).drop (f.read i j) = s.channel i j

/-- Links as they are while none is lost: between peers only, and without leftovers. -/
structure OnlyPeers (C : Cluster ι) (s : Net ι) : Prop where
  /-- There are no links between others. -/
  strange : ∀ i j, j ∉ C.peers i → s.link i j = {}
  /-- No connection is lost. -/
  stale : ∀ i j, (s.link i j).stale = []

section Channels

variable {C : Cluster ι} {s s' : Net ι} {a : Action ι} {past es : List (Event ι)} {i j k : ι}
  {msg : Message} {l : Link}

/-- Where nothing about messages changes on a link and no task is taken. -/
theorem Net.channel_congr {n : Net ι} {a b : ι}
    (hlink : ((n.link a b).wire ++ (n.link a b).queue).filterMap OutFrame.message =
      ((s.link a b).wire ++ (s.link a b).queue).filterMap OutFrame.message)
    (htasks : n.tasks = s.tasks) : n.channel a b = s.channel a b := by
  unfold Net.channel
  rw [hlink, htasks]

/-- One more call is to broadcast. -/
theorem Net.channel_addTask (s : Net ι) (i : ι) (t : Task ι) (a b : ι) :
    (s.addTask i t).channel a b = s.channel a b ++
      if a = i ∧ t.exclude ≠ some b then t.frame.message.toList else [] := by
  unfold Net.channel
  rw [Net.addTask_tasks, Net.addTask_link]
  by_cases ha : a = i
  · by_cases hb : t.exclude = some b
    · simp [ha, hb]
    · cases hmsg : t.frame.message <;> simp [ha, hb, hmsg]
  · simp [ha]

/-- A call that fans out a message has the same to broadcast as before. -/
theorem Net.channel_setTasks {n : ℕ} {t : Task ι} (t' : Task ι) (htask : (s.tasks i)[n]? = some t)
    (hframe : t'.frame = t.frame) (hexclude : t'.exclude = t.exclude) (a b : ι) :
    (s.setTasks i ((s.tasks i).set n t')).channel a b = s.channel a b := by
  -- A channel reads the frames of calls, and whom they leave out.
  have hread : ∀ ts : List (Task ι), (ts.filter fun t => t.exclude ≠ some b).filterMap
      (fun t => t.frame.message) = ((ts.map fun t => (t.frame, t.exclude)).filter
        fun p => p.2 ≠ some b).filterMap fun p => p.1.message := by
    intro ts
    rw [List.filter_map, List.filterMap_map]
    rfl
  have hmap := Cluster.map_set_of_eq (f := fun t : Task ι => (t.frame, t.exclude)) htask
    (Prod.ext hframe hexclude)
  unfold Net.channel
  rw [Net.setTasks_tasks, Net.setTasks_link]
  split
  · next ha => rw [hread, hmap, ha, hread]
  · rfl

/-- A link that has nothing but registrations more than before carries the same messages. -/
theorem Link.offer_messages (l : Link) {f : OutFrame} (hf : f.message = none) :
    ((l.offer f).wire ++ (l.offer f).queue).filterMap OutFrame.message =
      (l.wire ++ l.queue).filterMap OutFrame.message := by
  rw [Link.offer_wire, Link.offer_queue]
  split
  · simp [hf]
  · rfl

/-- A broadcast in which nothing is lost moves the message of the oldest call to the links. -/
theorem channel_broadcast {t : Task ι} {rest : List (Task ι)} (htasks : s.tasks i = t :: rest)
    (hloss : ∀ e ∈ (C.broadcast (s.setTasks i rest) i t.frame t.exclude).2, e.isLoss = false)
    (hup : ∀ msg, t.frame = .feed msg → ∀ j, j ∈ C.peers i → (s.link i j).isPeer)
    (hpeer : k ∈ C.peers j) :
    (C.broadcast (s.setTasks i rest) i t.frame t.exclude).1.channel j k = s.channel j k := by
  unfold Net.channel
  rw [Cluster.broadcast_tasks, Cluster.broadcast_link, Net.setTasks_tasks, Net.setTasks_link]
  by_cases hj : j = i
  · subst hj
    rw [if_pos (rfl : j = j), htasks]
    by_cases hk : some k = t.exclude
    · rw [if_neg fun h => h.2 hk, List.filter_cons_of_neg (by simp [hk])]
    · rw [if_pos (show j = j ∧ some k ≠ t.exclude from ⟨rfl, hk⟩),
        List.filter_cons_of_pos (by simpa using Ne.symm hk)]
      cases hframe : t.frame with
      | rreg typeName reg =>
        have hnone : t.frame.message = none := by rw [hframe]; rfl
        rw [Link.offer_messages _ rfl,
          List.filterMap_cons_none (f := fun t : Task ι => t.frame.message) hnone]
      | feed msg =>
        -- The link is up and has room, so the message is queued there.
        have hlink := hup msg hframe k hpeer
        have hroom : (s.link j k).hasRoom := by
          by_contra hfull
          have hevent : Event.dropped j k t.frame ∈
              (C.broadcast (s.setTasks j rest) j t.frame t.exclude).2 := by
            refine List.mem_map.mpr ⟨k, List.mem_filter.mpr ⟨hpeer, ?_⟩, ?_⟩
            · exact decide_eq_true ⟨hk, hlink⟩
            · rw [Net.setTasks_link, if_neg hfull]
          cases hloss _ hevent
        have hfirst : t.frame.message = some msg := by rw [hframe]; rfl
        rw [Link.offer_wire, Link.offer_queue, hlink, hroom,
          List.filterMap_cons_some (f := fun t : Task ι => t.frame.message) hfirst]
        simp [OutFrame.message]
  · rw [if_neg hj, if_neg fun h => hj h.1]

/-- A link that changes, while nothing is to be broadcast anew. -/
theorem channel_setLink (hsame : (l.wire ++ l.queue).filterMap OutFrame.message =
      ((s.link i j).wire ++ (s.link i j).queue).filterMap OutFrame.message) (a b : ι) :
    (s.setLink i j l).channel a b = s.channel a b := by
  refine Net.channel_congr ?_ rfl
  rw [Net.setLink_link]
  split
  · next heq => rw [heq.1, heq.2, hsame]
  · rfl

/-- A link from which a frame is read. -/
theorem channel_read {frame : OutFrame} (hwire : (s.link i j).wire = frame :: l.wire)
    (hqueue : l.queue = (s.link i j).queue) (a b : ι) :
    s.channel a b = (if a = i ∧ b = j then frame.message.toList else []) ++
      (s.setLink i j l).channel a b := by
  unfold Net.channel
  rw [Net.setLink_link, Net.setLink_tasks]
  split
  · next heq =>
    obtain ⟨rfl, rfl⟩ := heq
    rw [hwire, hqueue]
    cases hmsg : frame.message <;> simp [hmsg]
  · rw [List.nil_append]

/-- **What every step does to the channels**, where nothing is lost and calls are broadcast in
order. -/
theorem Cluster.Stepped.channels (h : C.Stepped s a s' es) (hinv : FloodingInvariant C s past)
    (hloss : WithoutLoss C (past ++ es)) (hok : inOrder C s past a) (honly : OnlyPeers C s) :
    ChannelStep C s s' past es := by
  have hlossless : ∀ e ∈ es, e.isLoss = false :=
    fun e he => hloss.lossless e (List.mem_append_right past he)
  cases h with
  | connection => exact .quiet (fun _ => rfl) fun a b _ => rfl
  | publish htype hbody hheld hkey hmsg hregistry hqueue =>
    rename_i i typeName key body held msg h
    refine .publish i msg (by rw [hmsg]) (fun k => acceptances_published i k key held msg _)
      fun a b _ => ?_
    rw [Net.channel_addTask]
    by_cases ha : a = i
    · rw [if_pos ⟨ha, by simp⟩, if_pos ha]
      rfl
    · rw [if_neg fun h => ha h.1, if_neg ha]
      rfl
  | create =>
    refine .quiet (fun _ => rfl) fun a b _ => ?_
    rw [Net.channel_addTask, show OutFrame.message (.rreg _ _) = none from rfl,
      Option.toList_none, ite_self, List.append_nil]
    rfl
  | fanOut htask =>
    rename_i i n msg exclude h _ _
    exact .quiet (fun _ => rfl) fun a b _ =>
      Net.channel_setTasks (s := s.setHub i h) ⟨.feed msg, exclude, false⟩ htask rfl rfl a b
  | broadcast htask hdone =>
    rename_i i k t
    obtain rfl : k = 0 := by simpa [Action.overtakes] using hok.2
    obtain ⟨rest, hrest⟩ : ∃ rest, s.tasks i = t :: rest := by
      cases htasks : s.tasks i with
      | nil => simp [htasks] at htask
      | cons t' rest =>
        rw [htasks, List.getElem?_cons_zero, Option.some.injEq] at htask
        exact ⟨rest, by rw [htask]⟩
    have herase : (s.tasks i).eraseIdx 0 = rest := by rw [hrest, List.eraseIdx_cons_zero]
    rw [herase] at hlossless ⊢
    refine .quiet (acceptances_quiet fun e he => ?_) fun a b hpeer =>
      channel_broadcast hrest hlossless ?_ hpeer
    · obtain ⟨b, _, rfl⟩ := List.mem_map.mp he
      split <;> rfl
    · intro msg hframe j hj
      have hpending : s.Pending i (.feed msg) := ⟨t, List.mem_of_getElem? htask, hframe⟩
      exact hinv.up msg (hinv.publications.tasks i msg hpending) i j hj
  | insert hpeer hdown =>
    rename_i i j
    refine .quiet (fun _ => rfl) fun a b _ => channel_setLink ?_ a b
    -- Nothing was queued to a link that was down.
    have hnone : (s.link i j).queue.filterMap OutFrame.message = [] := by
      refine List.filterMap_eq_nil_iff.mpr fun f hf => ?_
      cases f with
      | rreg => rfl
      | feed msg =>
        have hpublished := hinv.publications.links i j msg (Or.inl hf)
        have hlink := hinv.up msg hpublished i j hpeer
        simp [Link.isPeer, hdown] at hlink
    rw [List.filterMap_append, List.filterMap_append, hnone]
    rfl
  | snapshot =>
    rename_i i j _
    exact .quiet (fun _ => rfl) fun a b _ => channel_setLink (by rfl) a b
  | push hpushing =>
    rename_i i j typeName reg rest
    have hsame := Link.offer_messages (s.link i j) (f := .rreg typeName reg) rfl
    refine .quiet (acceptances_quiet fun e he => ?_) fun a b _ =>
      channel_setLink (by exact hsame) a b
    rw [List.mem_singleton.mp he]
    split <;> rfl
  | start =>
    rename_i i j _
    exact .quiet (fun _ => rfl) fun a b _ => channel_setLink (by rfl) a b
  | write hphase hqueue =>
    rename_i i j frame queue
    refine .quiet (fun _ => rfl) fun a b _ => channel_setLink ?_ a b
    dsimp only
    rw [hqueue, List.append_assoc, List.singleton_append]
  | receive haction hread hhandled =>
    rename_i i peer frame l
    obtain ⟨hwire, hstale⟩ := hread.frames.resolve_right (by simp [honly.stale])
    have hpeer : i ∈ C.peers peer := by
      by_contra hnot
      rw [honly.strange peer i hnot] at hwire
      cases hwire
    have hchannel := channel_read hwire hread.queue
    cases hhandled with
    | refuseFeed hbad =>
      rename_i msg
      have hpublished := hinv.publications.links peer i msg hread.holds_frame
      obtain ⟨htype, hid, horigin⟩ := hinv.wellFormed msg hpublished
      have hfits := hloss.of_append.fits msg (mem_allPublications.mpr hpublished) i
      rcases hbad with hbad | hbad | hbad | hbad
      · exact absurd hbad htype
      · exact absurd hbad hid
      · exact absurd hbad horigin
      · omega
    | duplicate hseen =>
      rename_i msg
      have hpublished := hinv.publications.links peer i msg hread.holds_frame
      refine .skip peer i msg hpeer hpublished hseen (fun k => by simp [acceptances, Event.acceptance])
        ?_ fun a b _ hne => ?_
      · have heq := hchannel peer i
        rwa [if_pos ⟨rfl, rfl⟩] at heq
      · have heq := hchannel a b
        rw [if_neg hne] at heq
        exact heq.symm
    | ingest hnew hregistry hqueue =>
      rename_i msg h
      refine .accept peer i msg hpeer hnew (fun k => acceptances_ingested i k peer msg) ?_
        fun a b _ hne => ?_
      · have heq := hchannel peer i
        rw [if_pos ⟨rfl, rfl⟩] at heq
        rw [Net.channel_addTask, if_neg (by simp), List.append_nil]
        exact heq
      · have heq := hchannel a b
        rw [if_neg hne, List.nil_append] at heq
        rw [Net.channel_addTask, heq]
        rfl
    | refuseRreg =>
      refine .quiet (fun _ => rfl) fun a b _ => ?_
      have heq := hchannel a b
      rw [show OutFrame.message (.rreg _ _) = none from rfl, Option.toList_none, ite_self] at heq
      exact heq.symm
    | ignore =>
      refine .quiet (fun _ => rfl) fun a b _ => ?_
      have heq := hchannel a b
      rw [show OutFrame.message (.rreg _ _) = none from rfl, Option.toList_none, ite_self] at heq
      exact heq.symm
    | adopt =>
      refine .quiet (fun _ => rfl) fun a b _ => ?_
      have heq := hchannel a b
      rw [show OutFrame.message (.rreg _ _) = none from rfl, Option.toList_none, ite_self] at heq
      rw [Net.channel_addTask, show OutFrame.message (.rreg _ _) = none from rfl,
        Option.toList_none, ite_self, List.append_nil]
      exact heq.symm
  | vanish =>
    rename_i i j k
    exact .quiet (fun _ => rfl) fun a b _ => channel_setLink (by rfl) a b
  | lose => exact hok.1.elim
  | restart => exact hok.1.elim

/-- **No other links come up**, and none is lost. -/
theorem OnlyPeers.step (h : OnlyPeers C s) (hstepped : C.Stepped s a s' es)
    (hok : inOrder C s past a) : OnlyPeers C s' := by
  -- A link that changes is one between peers, and stays without leftovers.
  have hset : ∀ (x y : ι) (l : Link), s'.link = (s.setLink x y l).link → y ∈ C.peers x →
      l.stale = [] → OnlyPeers C s' := by
    intro x y l hlink hpeer hstale
    constructor
    · intro i j hnot
      rw [hlink, Net.setLink_link, if_neg]
      · exact h.strange i j hnot
      · rintro ⟨rfl, rfl⟩
        exact hnot hpeer
    · intro i j
      rw [hlink, Net.setLink_link]
      split
      · exact hstale
      · exact h.stale i j
  have hpeer : ∀ x y, s.link x y ≠ {} → y ∈ C.peers x := by
    intro x y hne
    by_contra hnot
    exact hne (h.strange x y hnot)
  have hkeep : s'.link = s.link → OnlyPeers C s' := by
    intro hlink
    exact ⟨fun i j hnot => by rw [hlink, h.strange i j hnot], fun i j => by rw [hlink, h.stale]⟩
  cases hstepped with
  | broadcast htask =>
    constructor
    · intro i j hnot
      rw [Cluster.broadcast_link, Net.setTasks_link, h.strange i j hnot]
      split <;> rfl
    · intro i j
      rw [Cluster.broadcast_link, Net.setTasks_link]
      split
      · rw [Link.offer_stale, h.stale]
      · exact h.stale i j
  | insert hdialed => exact hset _ _ _ rfl hdialed (h.stale _ _)
  | snapshot hphase =>
    refine hset _ _ _ rfl (hpeer _ _ fun hnil => ?_) (h.stale _ _)
    rw [hnil] at hphase
    cases hphase
  | push hphase =>
    refine hset _ _ _ rfl (hpeer _ _ fun hnil => ?_) ((Link.offer_stale _ _).trans (h.stale _ _))
    rw [hnil] at hphase
    cases hphase
  | start hphase =>
    refine hset _ _ _ rfl (hpeer _ _ fun hnil => ?_) (h.stale _ _)
    rw [hnil] at hphase
    cases hphase
  | write hphase =>
    refine hset _ _ _ rfl (hpeer _ _ fun hnil => ?_) (h.stale _ _)
    rw [hnil] at hphase
    cases hphase
  | receive haction hread hhandled =>
    rename_i i peer frame l
    obtain ⟨hwire, hstale⟩ := hread.frames.resolve_right (by simp [h.stale])
    refine hset _ _ _ hhandled.link (hpeer _ _ fun hnil => ?_) (hstale.trans (h.stale _ _))
    rw [hnil] at hwire
    cases hwire
  | vanish =>
    rename_i i j k
    refine hkeep ?_
    have hsame : ({ s.link i j with stale := (s.link i j).stale.eraseIdx k } : Link) =
        s.link i j := by rw [h.stale, List.eraseIdx_nil, ← h.stale i j]
    rw [hsame]
    unfold Net.setLink
    simp
  | lose => exact hok.1.elim
  | restart => exact hok.1.elim
  | _ => exact hkeep rfl

/-- A daemon has accepted the messages in its log. -/
theorem Follows.mem_accepted {f : Flood.State ι Message} (h : Follows C s past f) :
    msg ∈ f.accepted k ↔ ∃ src, (msg, src) ∈ acceptances past k := by
  unfold Flood.State.accepted
  rw [h.log, List.mem_map]
  constructor
  · rintro ⟨⟨_, src⟩, hmem, rfl⟩
    exact ⟨src, hmem⟩
  · rintro ⟨src, hmem⟩
    exact ⟨_, hmem, rfl⟩

/-- What is first in a channel is read next. -/
theorem Follows.next {f : Flood.State ι Message} (h : Follows C s past f) (hpeer : j ∈ C.peers i)
    {rest : List Message} (hread : s.channel i j = msg :: rest) : f.next i j = some msg := by
  have hdrop := h.channel i j hpeer
  rw [hread] at hdrop
  unfold Flood.State.next
  have hhead := congrArg List.head? hdrop
  rwa [List.head?_drop] at hhead

/-- **Every step of the cluster is one of the flood, or none.** -/
theorem Follows.step {f : Flood.State ι Message} (h : Follows C s past f)
    (hinv : FloodingInvariant C s past) (hloss : WithoutLoss C (past ++ es))
    (hstepped : C.Stepped s a s' es) (hok : inOrder C s past a) (honly : OnlyPeers C s) :
    ∃ f', Follows C s' (past ++ es) f' := by
  have hwithin := h.reached.invariant.within
  cases hstepped.channels hinv hloss hok honly with
  | quiet haccepted hchannel =>
    refine ⟨f, h.reached, fun i => ?_, fun i j hpeer => ?_⟩
    · rw [acceptances_append, haccepted, List.append_nil]
      exact h.log i
    · rw [hchannel i j hpeer]
      exact h.channel i j hpeer
  | publish i msg hid haccepted hchannel =>
    have hnew : ∀ k, msg ∉ f.accepted k := by
      intro k hmem
      obtain ⟨src, hsrc⟩ := h.mem_accepted.mp hmem
      have hcount := publications_length_le past i
      have hfew := hloss.of_append.few i
      have hmachine := C.machine i
      exact hinv.publications.fresh (by omega) (hinv.known k msg src hsrc) hid
    refine ⟨f.extend i msg none, h.reached.tail (.publish i msg hnew), fun k => ?_,
      fun a b hpeer => ?_⟩
    · rw [Flood.extend_log, acceptances_append, haccepted, h.log]
    · rw [Flood.extend_read, Flood.extend_onward, List.drop_append_of_le_length (hwithin a b),
        h.channel a b hpeer, hchannel a b hpeer]
      simp
  | skip i j msg hpeer hpublished hseen haccepted hread hchannel =>
    have hold : msg ∈ f.accepted j := h.mem_accepted.mpr
      (hinv.exists_accepted hloss.of_append hpublished (hinv.recorded_of_mem_set hseen))
    refine ⟨f.bump i j, h.reached.tail (.skip i j msg (h.next hpeer hread) hold), fun k => ?_,
      fun a b hpeer' => ?_⟩
    · rw [Flood.bump_log, acceptances_append, haccepted, List.append_nil]
      exact h.log k
    · rw [Flood.bump_read, Flood.bump_onward]
      split
      · next heq =>
        obtain ⟨rfl, rfl⟩ := heq
        rw [← List.drop_drop, h.channel a b hpeer, hread, List.drop_one, List.tail_cons]
      · next hne =>
        rw [hchannel a b hpeer' hne]
        exact h.channel a b hpeer'
  | accept i j msg hpeer hnew haccepted hread hchannel =>
    have hunknown : msg ∉ f.accepted j := by
      intro hmem
      obtain ⟨src, hsrc⟩ := h.mem_accepted.mp hmem
      exact hnew (hinv.mem_set hloss.of_append (recorded_of_accepted hsrc))
    refine ⟨(f.extend j msg (some i)).bump i j,
      h.reached.tail (.accept i j msg (h.next hpeer hread) hunknown), fun k => ?_,
      fun a b hpeer' => ?_⟩
    · rw [Flood.bump_log, Flood.extend_log, acceptances_append, haccepted, h.log]
    · rw [Flood.bump_read, Flood.bump_onward, Flood.extend_onward, Flood.extend_read]
      split
      · next heq =>
        obtain ⟨rfl, rfl⟩ := heq
        have hlt : f.read a b + 1 ≤ (f.onward a b).length :=
          (List.getElem?_eq_some_iff.mp (h.next hpeer hread)).1
        rw [List.drop_append_of_le_length hlt, if_neg (by simp), List.append_nil,
          ← List.drop_drop, h.channel a b hpeer, hread, List.drop_one, List.tail_cons]
      · next hne =>
        rw [List.drop_append_of_le_length (hwithin a b), h.channel a b hpeer',
          hchannel a b hpeer' hne]

/-- What holds in every run in which nothing is lost and calls are broadcast in order. -/
structure FloodInvariant (C : Cluster ι) (s : Net ι) (past : List (Event ι)) : Prop where
  /-- Messages flood. -/
  flooding : FloodingInvariant C s past
  /-- Queues of connections follow the records. -/
  deliveries : DeliveryInvariant s past
  /-- Links are between peers. -/
  links : OnlyPeers C s
  /-- The cluster follows a flood. -/
  follows : ∃ f, Follows C s past f

/-- **A cluster is a flood over channels in order**, where nothing is lost and every daemon
broadcasts its calls in the order in which it made them. -/
theorem floodInvariant_of_run (hrun : Run C.step (inOrder C) C.initial s past)
    (hloss : WithoutLoss C past) : FloodInvariant C s past := by
  refine Run.invariant_of_history (H := WithoutLoss C) (I := FloodInvariant C)
    (fun _ _ h => h.of_append) ?_ ?_ hrun hloss
  · refine ⟨floodingInvariant_initial, deliveryInvariant_initial, ⟨fun _ _ _ => rfl,
      fun _ _ => rfl⟩, .empty, .refl, fun _ => rfl, fun _ _ _ => rfl⟩
  · rintro s past a s' es ⟨hflooding, hdeliveries, hlinks, f, hfollows⟩ hok hstep hloss
    have hstepped := Cluster.stepped C hstep
    have halive : ∀ i, .restarted i ∉ es := by
      intro i hmem
      cases hloss.lossless _ (List.mem_append_right past hmem)
    have hqueues := hstepped.messages.delivers halive hflooding.publications.links
    exact ⟨hflooding.step hloss hok.1 hstepped, hdeliveries.step hqueues,
      hlinks.step hstepped hok, hfollows.step hflooding hloss hstepped hok hlinks⟩

/-- A daemon accepts a message behind those that its publisher had accepted. -/
theorem FloodInvariant.causal (h : FloodInvariant C s past) {m₁ m₂ : Message} {src src' : Option ι}
    (hpair : [(m₁, src), (m₂, none)].Sublist (acceptances past i))
    (hmem : (m₂, src') ∈ acceptances past k) :
    [m₁, m₂].Sublist ((acceptances past k).map Prod.fst) := by
  obtain ⟨f, hfollows⟩ := h.follows
  have haccepted := hfollows.mem_accepted.mpr ⟨src', hmem⟩
  rw [← hfollows.log] at hpair ⊢
  exact hfollows.reached.causal hpair haccepted

/-- As in order, and a daemon records a message only when none is still to be fanned out there, as
where no one comes between the two sections of `ingest_remote`. -/
def uninterrupted (C : Cluster ι) (s : Net ι) (past : List (Event ι)) (a : Action ι) : Prop :=
  inOrder C s past a ∧ ∀ s' es, C.step s a = some (s', es) → ∀ i, recorded es i ≠ [] →
    s.ingesting i = []

/-- What is queued to a connection, and then what is still to be fanned out, is in the order of the
records, where no one comes between the two sections. -/
structure QueuedInOrder (s : Net ι) (past : List (Event ι)) : Prop where
  /-- One message is to be fanned out, at most. -/
  one : ∀ i, (s.ingesting i).length ≤ 1
  /-- Ids are queued as they are recorded. -/
  sublist : ∀ i conn, ((deliveries past i conn ++ s.ingesting i).map Message.msgId).Sublist
    (recorded past i)

omit [DecidableEq ι] in
/-- There is one order of one element. -/
theorem eq_of_perm_of_length_le_one {α : Type*} {l l' : List α} (hperm : l.Perm l')
    (hone : l'.length ≤ 1) : l = l' := by
  match l', hone with
  | [], _ => exact hperm.eq_nil
  | [x], _ => exact List.perm_singleton.mp hperm

/-- **A step that no one interrupts** keeps the queues in order. -/
theorem QueuedInOrder.step (h : QueuedInOrder s past) (hsteps : ∀ i, DeliveryStep s s' past es i)
    (hempty : ∀ i, recorded es i ≠ [] → s.ingesting i = []) : QueuedInOrder s' (past ++ es) := by
  have hsub : ∀ i conn (msgs : List Message), msgs.Sublist (deliveries past i conn ++ s.ingesting i) →
      (msgs.map Message.msgId).Sublist (recorded past i ++ recorded es i) := by
    intro i conn msgs hmsgs
    exact ((hmsgs.map _).trans (h.sublist i conn)).trans (List.sublist_append_left _ _)
  refine ⟨fun i => ?_, fun i conn => ?_⟩
  · cases hsteps i with
    | keep _ _ hingesting => exact hingesting.length_eq.trans_le (h.one i)
    | publish _ _ _ hingesting => exact hingesting ▸ h.one i
    | ingest hrecorded _ _ hingesting =>
      rw [hingesting, hempty i (by simp [hrecorded])]
      exact le_rfl
    | fanOut _ _ hingesting =>
      have hlength := hingesting.length_eq
      rw [List.length_cons] at hlength
      have hone := h.one i
      omega
  · rw [deliveries_append, recorded_append]
    have hadd : ∀ {msg : Message} {msgs : List Message}, s.ingesting i = [] → msgs.Sublist [msg] →
        recorded es i = [msg.msgId] → ((deliveries past i conn ++ msgs).map Message.msgId).Sublist
          (recorded past i ++ recorded es i) := by
      intro msg msgs hnone hmsgs hrecorded
      have hold := h.sublist i conn
      rw [hnone, List.append_nil] at hold
      rw [hrecorded, List.map_append]
      exact hold.append (hmsgs.map Message.msgId)
    have hfew : ∀ {msg : Message} {p : Prop} [Decidable p],
        (if p then [msg] else []).Sublist [msg] := by
      intro msg p _
      split
      · exact List.Sublist.refl _
      · exact List.nil_sublist _
    cases hsteps i with
    | keep hdeliveries _ hingesting =>
      rw [hdeliveries, List.append_nil, eq_of_perm_of_length_le_one hingesting (h.one i)]
      exact hsub i conn _ (List.Sublist.refl _)
    | publish hrecorded hdeliveries _ hingesting =>
      have hnone := hempty i (by simp [hrecorded])
      rw [hingesting, hnone, List.append_nil, hdeliveries]
      exact hadd hnone hfew hrecorded
    | ingest hrecorded hdeliveries _ hingesting =>
      have hnone := hempty i (by simp [hrecorded])
      rw [hingesting, hnone, hdeliveries, List.append_nil, List.nil_append]
      exact hadd hnone (List.Sublist.refl _) hrecorded
    | fanOut hdeliveries _ hingesting =>
      have hall := eq_of_perm_of_length_le_one hingesting (h.one i)
      have hlength := hingesting.length_eq
      have hone := h.one i
      rw [List.length_cons] at hlength
      have hnone := List.length_eq_zero_iff.mp (show (s'.ingesting i).length = 0 by omega)
      refine hsub i conn _ ?_
      rw [← hall, hnone, hdeliveries, List.append_nil]
      exact (List.Sublist.refl _).append hfew

/-- **Queues are in the order of the records**, in every run in which no one comes between the two
sections of `ingest_remote`. -/
theorem queuedInOrder_of_run (hrun : Run C.step (uninterrupted C) C.initial s past)
    (hloss : WithoutLoss C past) : QueuedInOrder s past := by
  refine Run.invariant_of_reached (I := fun s past => WithoutLoss C past → QueuedInOrder s past)
    ?_ ?_ hrun hloss
  · exact fun _ => ⟨fun _ => Nat.zero_le 1, fun _ _ => List.Sublist.refl _⟩
  intro s past a s' es hbefore ih hok hstep hloss
  have hflood := floodInvariant_of_run (hbefore.weaken fun _ _ _ hok => hok.1) hloss.of_append
  have halive : ∀ i, .restarted i ∉ es := by
    intro i hmem
    cases hloss.lossless _ (List.mem_append_right past hmem)
  have hmessages := (Cluster.stepped C hstep).messages
  exact (ih hloss.of_append).step
    (hmessages.delivers halive hflood.flooding.publications.links) (hok.2 s' es hstep)

/-- **Subscribers get messages in the order of cause and effect**, where besides no one comes
between the two sections of `ingest_remote`: no connection is queued two messages the other way
round. -/
theorem deliveries_are_causal (hrun : Run C.step (uninterrupted C) C.initial s past)
    (hloss : WithoutLoss C past) {m₁ m₂ : Message} {src : Option ι}
    (hpair : [(m₁, src), (m₂, none)].Sublist (acceptances past i)) (k : ι) (conn : ℕ) :
    ¬[m₂, m₁].Sublist (deliveries past k conn) := by
  intro hswap
  have hflood := floodInvariant_of_run (hrun.weaken fun _ _ _ hok => hok.1) hloss
  have hqueued := (queuedInOrder_of_run hrun hloss).sublist k conn
  rw [List.map_append] at hqueued
  -- The ids that are queued to a connection are recorded in this order, each once.
  have hids := (hswap.map Message.msgId).trans ((List.sublist_append_left _ _).trans hqueued)
  have hpublished := hflood.deliveries.published k conn m₂ (hswap.subset (by simp))
  have hrecorded : m₂.msgId ∈ recorded past k := hids.subset (by simp)
  obtain ⟨src', hsrc'⟩ := hflood.flooding.exists_accepted hloss hpublished hrecorded
  have hfirst := (hflood.causal hpair hsrc').map Message.msgId
  have hsame : ((acceptances past k).map Prod.fst).map Message.msgId = recorded past k := by
    rw [← acceptances_ids, List.map_map]
    rfl
  rw [hsame] at hfirst
  exact Flood.not_pair_swapped (hflood.flooding.records.once k) hfirst hids

end Channels

/-- Both links of a pair come up, a type is claimed, and the other daemon has a subscriber. -/
def openingTrace : List (Action Bool) :=
  [.insert false true, .snapshot false true, .start false true,
    .insert true false, .snapshot true false, .start true false,
    .register false "t".toList "k".toList 1, .broadcast false 0, .subscribe true 0 "t".toList]

/-- The other daemon of a pair is sent the type and two messages. -/
def passingTrace : List (Action Bool) :=
  List.replicate 3 (.write false true) ++ [.read true false, .broadcast true 0, .read true false,
    .fanOut true 0, .broadcast true 0, .read true false, .fanOut true 0, .broadcast true 0]

/-- A message of a pair is recorded at the other daemon, which publishes a second one and then fans
out the first. -/
def crossingTrace : List (Action Bool) :=
  openingTrace ++ [.publish false "t".toList "k".toList ["a".toList], .broadcast false 0,
    .write false true, .write false true, .read true false, .broadcast true 0, .read true false,
    .publish true "t".toList "k".toList ["b".toList], .fanOut true 0]

/-- Two messages of a pair, the second of which is broadcast first. -/
def overtakingTrace : List (Action Bool) :=
  openingTrace ++ [.publish false "t".toList "k".toList ["a".toList],
    .publish false "t".toList "k".toList ["b".toList], .broadcast false 1,
    .broadcast false 0] ++ passingTrace

/-- The first message. -/
def firstMessage : Message := ⟨"t".toList, "d1-1".toList, "d1".toList, ["a".toList]⟩

/-- The message behind it. -/
def nextMessage : Message := ⟨"t".toList, "d1-2".toList, "d1".toList, ["b".toList]⟩

/-- What these runs lose: nothing. -/
theorem withoutLoss_pair {past : List (Event Bool)} (hlossless : ∀ e ∈ past, e.isLoss = false)
    (hpublications : allPublications past = [firstMessage, nextMessage]) :
    WithoutLoss pair past where
  lossless := hlossless
  fits := by
    rw [hpublications]
    decide
  few := by
    rw [hpublications]
    decide

/-- The message with which the other daemon answers. -/
def answer : Message := ⟨"t".toList, "d2-1".toList, "d2".toList, ["b".toList]⟩

/-- **A publish that comes between the two sections of `ingest_remote` turns them round**: a
subscriber gets a message before one that its publisher had accepted earlier. -/
theorem publish_overtakes : ∃ (s : Net Bool) (past : List (Event Bool)),
    Run pair.step (inOrder pair) pair.initial s past ∧ WithoutLoss pair past ∧
      acceptances past true = [(firstMessage, some false), (answer, none)] ∧
      deliveries past true 0 = [answer, firstMessage] := by
  obtain ⟨s, past, hrun, hlossless, hfits, hfew, haccepted, hdeliveries⟩ :=
    exists_run pair.step (fun s past a => decide (inOrder pair s past a)) pair.initial
      crossingTrace (P := fun _ past => (∀ e ∈ past, e.isLoss = false) ∧
        (∀ msg ∈ allPublications past, ∀ k,
          bodySize msg.body ≤ (pair.config k).limits.maxMessageBytes) ∧
        (∀ k, (allPublications past).length < (pair.config k).limits.seenCapacity) ∧
        acceptances past true = [(firstMessage, some false), (answer, none)] ∧
        deliveries past true 0 = [answer, firstMessage]) (by decide +kernel)
  exact ⟨s, past, hrun.weaken fun _ _ _ hok => of_decide_eq_true hok, ⟨hlossless, hfits, hfew⟩,
    haccepted, hdeliveries⟩

/-- **A broadcast that overtakes another turns them round**: a subscriber elsewhere gets a
message before one that its publisher had published earlier. -/
theorem broadcast_overtakes : ∃ (s : Net Bool) (past : List (Event Bool)),
    Run pair.step (steady pair) pair.initial s past ∧ WithoutLoss pair past ∧
      acceptances past false = [(firstMessage, none), (nextMessage, none)] ∧
      deliveries past true 0 = [nextMessage, firstMessage] := by
  obtain ⟨s, past, hrun, hlossless, hpublications, hnear, hfar⟩ :=
    exists_run pair.step (fun s past a => decide (steady pair s past a)) pair.initial
      overtakingTrace (P := fun _ past => (∀ e ∈ past, e.isLoss = false) ∧
        allPublications past = [firstMessage, nextMessage] ∧
        acceptances past false = [(firstMessage, none), (nextMessage, none)] ∧
        deliveries past true 0 = [nextMessage, firstMessage]) (by decide +kernel)
  exact ⟨s, past, hrun.weaken fun _ _ _ hok => of_decide_eq_true hok,
    withoutLoss_pair hlossless hpublications, hnear, hfar⟩

end MacroBus
