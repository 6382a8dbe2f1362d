import MacroBus.Busd.Frames

/-!
# What a step does about messages

Only a publish and the arrival of a new message change a seen-set, and only a publish and the
fan-out of a message that has arrived put one into a queue.
-/

namespace MacroBus

section Messages

variable {ι : Type} [DecidableEq ι] {C : Cluster ι} {s s' : Net ι} {a : Action ι}
  {es : List (Event ι)}

/-- The event is about a message, or makes a daemon forget its messages. -/
def Event.isMessage : Event ι → Bool
  | .published .. | .ingested .. | .fannedOut .. | .restarted _ => true
  | _ => false

/-- The daemon as far as messages go. -/
structure SameMessages (h h' : Hub) : Prop where
  /-- The daemon is the same. -/
  daemonId : h'.registry.daemonId = h.registry.daemonId
  /-- So is the next sequence number. -/
  seq : h'.registry.seq = h.registry.seq
  /-- So are the seen ids. -/
  seen : h'.registry.seen = h.registry.seen
  /-- Nothing is queued to a connection. -/
  queue : ∀ c, (h'.chan c).queue <:+ (h.chan c).queue

/-- The message that a call has recorded and still has to fan out. -/
def Task.recorded (t : Task ι) : Option Message :=
  match t.frame with
  | .feed msg => if t.ingesting then some msg else none
  | .rreg .. => none

/-- The messages between the two sections of `ingest_remote` at a daemon. -/
def Net.ingesting (s : Net ι) (i : ι) : List Message := (s.tasks i).filterMap Task.recorded

/-- What a step can do about messages. -/
inductive MessageStep (C : Cluster ι) (s : Net ι) (a : Action ι) (s' : Net ι) :
    List (Event ι) → Prop
  /-- Nothing. -/
  | quiet {es : List (Event ι)}
      (hhub : ∀ j, SameMessages (s.hub j) (s'.hub j))
      (hingesting : ∀ j, (s'.ingesting j).Perm (s.ingesting j))
      (hes : ∀ e ∈ es, e.isMessage = false) : MessageStep C s a s' es
  /-- A message is published. -/
  | publish {i : ι} {key : Str} {held : TypeReg} {msg : Message}
      (haction : a = .publish i msg.typeName key msg.body)
      (hid : msg.msgId = (s.hub i).registry.msgId)
      (horigin : msg.origin = (s.hub i).registry.daemonId)
      (hheld : (s.hub i).registry.types.lookup msg.typeName = some held)
      (hkey : held.key = key)
      (hself : (s'.hub i).registry = { (s.hub i).registry with
        seq := ((s.hub i).registry.seq + 1) % u64Values
        seen := ((s.hub i).registry.seen.insert msg.msgId).2 })
      (hqueue : ∀ c, ((s'.hub i).chan c).queue = ((s.hub i).chan c).queue ++
        if c ∈ (s.hub i).recipients msg then [.deliver msg] else [])
      (hothers : ∀ j, j ≠ i → s'.hub j = s.hub j)
      (htask : s'.tasks = Function.update s.tasks i
        (s.tasks i ++ [⟨.feed msg, none, false⟩])) :
      MessageStep C s a s' [.published i key held msg ((s.hub i).recipients msg)]
  /-- A message arrives and is new. -/
  | ingest {i peer : ι} {msg : Message} (hnew : msg.msgId ∉ (s.hub i).registry.seen.set)
      (hheld : (s.link peer i).Holds (.feed msg))
      (hself : (s'.hub i).registry = { (s.hub i).registry with
        seen := ((s.hub i).registry.seen.insert msg.msgId).2 })
      (hchan : (s'.hub i).chan = (s.hub i).chan)
      (hothers : ∀ j, j ≠ i → s'.hub j = s.hub j)
      (htask : s'.tasks = Function.update s.tasks i
        (s.tasks i ++ [⟨.feed msg, some peer, true⟩])) :
      MessageStep C s a s' [.ingested i peer msg true]
  /-- A message that has arrived is fanned out. -/
  | fanOut {i : ι} {k : ℕ} {msg : Message} {exclude : Option ι}
      (haction : a = .fanOut i k)
      (hbefore : (s.tasks i)[k]? = some ⟨.feed msg, exclude, true⟩)
      (hself : (s'.hub i).registry = (s.hub i).registry)
      (hqueue : ∀ c, ((s'.hub i).chan c).queue = ((s.hub i).chan c).queue ++
        if c ∈ (s.hub i).recipients msg then [.deliver msg] else [])
      (hothers : ∀ j, j ≠ i → s'.hub j = s.hub j)
      (htask : s'.tasks = Function.update s.tasks i
        ((s.tasks i).set k ⟨.feed msg, exclude, false⟩)) :
      MessageStep C s a s' [.fannedOut i msg ((s.hub i).recipients msg)]
  /-- A message arrives again. -/
  | duplicate {i peer : ι} {msg : Message} (hseen : msg.msgId ∈ (s.hub i).registry.seen.set)
      (hheld : (s.link peer i).Holds (.feed msg)) (hhub : s'.hub = s.hub)
      (htask : s'.tasks = s.tasks) :
      MessageStep C s a s' [.ingested i peer msg false]
  /-- A daemon forgets its messages. -/
  | restart {i : ι} (haction : a = .restart i) (hself : s'.hub i = C.freshHub i)
      (hothers : ∀ j, j ≠ i → s'.hub j = s.hub j)
      (htask : s'.tasks = Function.update s.tasks i []) : MessageStep C s a s' [.restarted i]

/-- A hub keeps its messages where peers cannot tell and nothing is queued. -/
theorem Cluster.SameTables.messages {h h' : Hub} (hsame : Cluster.SameTables h.registry h'.registry)
    (hqueue : ∀ c, (h'.chan c).queue <:+ (h.chan c).queue) : SameMessages h h' :=
  ⟨hsame.daemonId, hsame.seq, hsame.seen, hqueue⟩

/-- A call that has nothing to fan out ends. -/
theorem Net.ingesting_eraseIdx {i : ι} {k : ℕ} {t : Task ι} (htask : (s.tasks i)[k]? = some t)
    (hdone : t.ingesting = false) (j : ι) :
    ((s.setTasks i ((s.tasks i).eraseIdx k)).ingesting j).Perm (s.ingesting j) := by
  unfold Net.ingesting
  rw [Net.setTasks_tasks]
  split
  · next hj =>
    subst hj
    have hnone : t.recorded = none := by
      unfold Task.recorded
      split
      · rw [hdone]
        rfl
      · rfl
    have hperm := (Cluster.cons_eraseIdx_perm htask).filterMap Task.recorded
    rwa [List.filterMap_cons_none hnone] at hperm
  · exact .refl _

omit [DecidableEq ι] in
/-- Where no call changes, the same is to be fanned out. -/
theorem Net.ingesting_congr (htask : s'.tasks = s.tasks) (j : ι) :
    s'.ingesting j = s.ingesting j := by
  unfold Net.ingesting
  rw [htask]

/-- The calls at a daemon after a step that replaces those of one. -/
theorem Net.ingesting_update {i : ι} {ts : List (Task ι)}
    (htask : s'.tasks = Function.update s.tasks i ts) (j : ι) :
    s'.ingesting j = if j = i then ts.filterMap Task.recorded else s.ingesting j := by
  unfold Net.ingesting
  rw [htask, Function.update_apply]
  split <;> rfl

/-- A call that has nothing to fan out is one more. -/
theorem Net.ingesting_append {i : ι} {frame : OutFrame} {exclude : Option ι}
    (htask : s'.tasks = Function.update s.tasks i (s.tasks i ++ [⟨frame, exclude, false⟩]))
    (j : ι) : s'.ingesting j = s.ingesting j := by
  have hnone : Task.recorded (⟨frame, exclude, false⟩ : Task ι) = none := by
    cases frame <;> rfl
  rw [Net.ingesting_update htask, List.filterMap_append, List.filterMap_cons_none hnone,
    List.filterMap_nil, List.append_nil]
  split
  · next hj => rw [hj]; rfl
  · rfl

/-- **What every step does about messages.** -/
theorem Cluster.Stepped.messages (h : C.Stepped s a s' es) : MessageStep C s a s' es := by
  have hrefl : ∀ h, SameMessages h h := fun h => ⟨rfl, rfl, rfl, fun c => List.suffix_refl _⟩
  have hquiet : s'.hub = s.hub → s'.tasks = s.tasks → (∀ e ∈ es, e.isMessage = false) →
      MessageStep C s a s' es := by
    intro hhub htasks hes
    exact .quiet (fun j => hhub ▸ hrefl _) (fun j => .of_eq (Net.ingesting_congr htasks j)) hes
  have hset : ∀ (t : Net ι) (i : ι) (h : Hub), SameMessages (t.hub i) h →
      ∀ j, SameMessages (t.hub j) ((t.setHub i h).hub j) := by
    intro t i h hsame j
    rw [Net.setHub_hub]
    split
    · next hj => exact hj ▸ hsame
    · exact hrefl _
  have hothers : ∀ (t : Net ι) (i : ι) (h : Hub), ∀ j, j ≠ i → (t.setHub i h).hub j = t.hub j := by
    intro t i h j hj
    rw [Net.setHub_hub, if_neg hj]
  cases h with
  | connection hsame hqueue =>
    exact .quiet (hset s _ _ (hsame.messages hqueue)) (fun _ => .refl _) (by simp)
  | publish htype hbody hheld hkey hmsg hregistry hqueue =>
    subst hmsg
    refine .publish rfl rfl rfl hheld hkey ?_ ?_ (hothers s _ _) rfl
    · rw [Net.addTask_hub, Net.setHub_hub_self]
      exact hregistry
    · rw [Net.addTask_hub, Net.setHub_hub_self]
      exact hqueue
  | create htype hvalid hnone hreg hregistry hchan =>
    refine .quiet (hset s _ _ ?_) (fun j => ?_) (by simp [Event.isMessage])
    · exact ⟨by rw [hregistry], by rw [hregistry], by rw [hregistry], fun c => by rw [hchan]⟩
    · exact .of_eq (Net.ingesting_append (s := s) rfl j)
  | fanOut htask hregistry hqueue =>
    refine .fanOut rfl htask ?_ ?_ (hothers s _ _) rfl
    · rw [Net.setTasks_hub, Net.setHub_hub_self]
      exact hregistry
    · rw [Net.setTasks_hub, Net.setHub_hub_self]
      exact hqueue
  | broadcast htask hdone =>
    refine .quiet (fun j => hrefl _) (Net.ingesting_eraseIdx htask hdone) ?_
    intro e he
    obtain ⟨j, _, rfl⟩ := List.mem_map.mp he
    split <;> rfl
  | push hpushing =>
    refine hquiet rfl rfl ?_
    intro e he
    rw [List.mem_singleton.mp he]
    split <;> rfl
  | receive haction hread hhandled =>
    cases hhandled with
    | duplicate hseen => exact .duplicate hseen hread.holds_frame rfl rfl
    | ingest hnew hregistry hchan =>
      refine .ingest hnew hread.holds_frame ?_ ?_ (hothers _ _ _) rfl
      · rw [Net.addTask_hub, Net.setHub_hub_self]
        exact hregistry
      · rw [Net.addTask_hub, Net.setHub_hub_self]
        exact hchan
    | adopt hlt hregistry hchan =>
      refine .quiet (hset _ _ _ ?_) (fun j => ?_) (by simp [Event.isMessage])
      · exact ⟨by rw [hregistry]; rfl, by rw [hregistry]; rfl, by rw [hregistry]; rfl,
          fun c => by rw [hchan]; exact List.suffix_refl _⟩
      · exact .of_eq (Net.ingesting_append (s := s) rfl j)
    | _ => exact hquiet rfl rfl (by simp)
  | restart =>
    refine .restart rfl (Function.update_self _ _ _) ?_ rfl
    intro j hj
    exact Function.update_of_ne hj _ _
  | _ => exact hquiet rfl rfl (by simp)

/-- Daemons keep their names. -/
theorem MessageStep.names (h : MessageStep C s a s' es)
    (hnames : ∀ i, (s.hub i).registry.daemonId = (C.config i).daemonId) (i : ι) :
    (s'.hub i).registry.daemonId = (C.config i).daemonId := by
  have hother : ∀ j, (∀ k, k ≠ j → s'.hub k = s.hub k) →
      (s'.hub j).registry.daemonId = (C.config j).daemonId →
      (s'.hub i).registry.daemonId = (C.config i).daemonId := by
    intro j hothers hself
    by_cases hij : i = j
    · exact hij ▸ hself
    · rw [hothers i hij]
      exact hnames i
  cases h with
  | quiet hhub hingesting hes => exact (hhub i).daemonId.trans (hnames i)
  | publish haction hid horigin hheld hkey hself hqueue hothers htask =>
    refine hother _ hothers ?_
    rw [hself]
    exact hnames _
  | ingest hnew hheld hself hchan hothers htask =>
    refine hother _ hothers ?_
    rw [hself]
    exact hnames _
  | fanOut haction hbefore hself hqueue hothers htask =>
    refine hother _ hothers ?_
    rw [hself]
    exact hnames _
  | duplicate hseen hheld hhub htask =>
    rw [hhub]
    exact hnames i
  | restart haction hself hothers htask =>
    refine hother _ hothers ?_
    rw [hself]
    rfl

/-- A step fans out a message at a daemon: the connections that are subscribed and have room are
queued it, and nobody else. -/
structure FansOut (C : Cluster ι) (s : Net ι) (a : Action ι) (s' : Net ι) (i : ι)
    (msg : Message) : Prop where
  /-- What is observed of it. -/
  step : C.step s a = some (s', [.fannedOut i msg ((s.hub i).recipients msg)])
  /-- What becomes of the queues. -/
  queue : ∀ c, ((s'.hub i).chan c).queue = ((s.hub i).chan c).queue ++
    if c ∈ (s.hub i).recipients msg then [.deliver msg] else []

/-- A call that has recorded a message is one more. -/
theorem Net.ingesting_record {i : ι} {msg : Message} {exclude : Option ι}
    (htask : s'.tasks = Function.update s.tasks i (s.tasks i ++ [⟨.feed msg, exclude, true⟩])) :
    s'.ingesting i = s.ingesting i ++ [msg] := by
  have hsome : Task.recorded (⟨.feed msg, exclude, true⟩ : Task ι) = some msg := rfl
  rw [Net.ingesting_update htask, if_pos rfl, List.filterMap_append,
    List.filterMap_cons_some hsome, List.filterMap_nil]
  rfl

/-- A call fans out the message it has recorded. -/
theorem Net.ingesting_fanOut {i : ι} {k : ℕ} {msg : Message} {exclude exclude' : Option ι}
    (hbefore : (s.tasks i)[k]? = some ⟨.feed msg, exclude, true⟩)
    (htask : s'.tasks = Function.update s.tasks i
      ((s.tasks i).set k ⟨.feed msg, exclude', false⟩)) :
    (msg :: s'.ingesting i).Perm (s.ingesting i) := by
  have hsome : Task.recorded (⟨.feed msg, exclude, true⟩ : Task ι) = some msg := rfl
  have hnone : Task.recorded (⟨.feed msg, exclude', false⟩ : Task ι) = none := rfl
  have hperm := (Cluster.cons_eraseIdx_perm hbefore).filterMap Task.recorded
  rw [List.filterMap_cons_some hsome] at hperm
  obtain ⟨hlt, _⟩ := List.getElem?_eq_some_iff.mp hbefore
  have hset := (List.set_perm_cons_eraseIdx hlt (⟨.feed msg, exclude', false⟩ : Task ι)).filterMap
    Task.recorded
  rw [List.filterMap_cons_none hnone] at hset
  rw [Net.ingesting_update htask, if_pos rfl]
  exact (hset.cons msg).trans hperm

/-- What a step does to the messages that are to be fanned out at a daemon. -/
inductive Ingesting (s s' : Net ι) (i : ι) : List (Event ι) → Prop
  /-- Nothing. -/
  | keep {es : List (Event ι)} (hperm : (s'.ingesting i).Perm (s.ingesting i)) :
      Ingesting s s' i es
  /-- One more is recorded. -/
  | record {peer : ι} {msg : Message} (happend : s'.ingesting i = s.ingesting i ++ [msg]) :
      Ingesting s s' i [.ingested i peer msg true]
  /-- One of them is fanned out. -/
  | fanOut {msg : Message} {queued : Finset ℕ}
      (hperm : (msg :: s'.ingesting i).Perm (s.ingesting i)) :
      Ingesting s s' i [.fannedOut i msg queued]
  /-- The daemon forgets them. -/
  | restart (hnil : s'.ingesting i = []) : Ingesting s s' i [.restarted i]

/-- **What every step does to the messages that are to be fanned out.** -/
theorem MessageStep.ingesting (h : MessageStep C s a s' es) (i : ι) : Ingesting s s' i es := by
  cases h with
  | quiet hhub hingesting hes => exact .keep (hingesting i)
  | publish haction hid horigin hheld hkey hself hqueue hothers htask =>
    exact .keep (.of_eq (Net.ingesting_append htask i))
  | ingest hnew hheld hself hchan hothers htask =>
    rename_i k peer msg
    by_cases hi : i = k
    · subst hi
      exact .record (Net.ingesting_record htask)
    · exact .keep (.of_eq ((Net.ingesting_update htask i).trans (if_neg hi)))
  | fanOut haction hbefore hself hqueue hothers htask =>
    rename_i k n msg exclude
    by_cases hi : i = k
    · subst hi
      exact .fanOut (Net.ingesting_fanOut hbefore htask)
    · exact .keep (.of_eq ((Net.ingesting_update htask i).trans (if_neg hi)))
  | duplicate hseen hheld hhub htask =>
    exact .keep (.of_eq (Net.ingesting_congr htask i))
  | restart haction hself hothers htask =>
    rename_i k
    by_cases hi : i = k
    · subst hi
      exact .restart ((Net.ingesting_update htask i).trans (if_pos rfl))
    · exact .keep (.of_eq ((Net.ingesting_update htask i).trans (if_neg hi)))

/-- A message that is recorded can be fanned out. -/
theorem exists_fansOut {i : ι} {msg : Message} (hmem : msg ∈ s.ingesting i) :
    ∃ k s', FansOut C s (.fanOut i k) s' i msg := by
  obtain ⟨⟨frame, exclude, ingesting⟩, ht, hrecorded⟩ := List.mem_filterMap.mp hmem
  unfold Task.recorded at hrecorded
  cases frame with
  | rreg => cases hrecorded
  | feed msg' =>
    cases ingesting with
    | false => cases hrecorded
    | true =>
      obtain rfl := Option.some.inj hrecorded
      obtain ⟨k, hk⟩ := List.mem_iff_getElem?.mp ht
      refine ⟨k, _, by simp only [Cluster.step, hk]; rfl, fun c => ?_⟩
      rw [Net.setTasks_hub, Net.setHub_hub_self]
      exact Hub.fanoutLocked_queue _ _ c

/-- **A message that is recorded at a daemon is fanned out there once.** As long as the daemon does
not restart, its call is before the fan-out, or has done it in one step of the run. -/
theorem fannedOut_of_ingesting {ok : Net ι → List (Event ι) → Action ι → Prop} {i : ι}
    {msg : Message} (hrun : Transition.Run C.step ok s s' es) (hmem : msg ∈ s.ingesting i)
    (halive : .restarted i ∉ es) :
    msg ∈ s'.ingesting i ∨ ∃ t before a t' after, Transition.Run C.step ok s t before ∧
      FansOut C t a t' i msg ∧
      es = before ++ .fannedOut i msg ((t.hub i).recipients msg) :: after := by
  have hkeep : ∀ t a t' es, msg ∈ t.ingesting i → C.step t a = some (t', es) →
      msg ∈ t'.ingesting i ∨ FansOut C t a t' i msg ∨ .restarted i ∈ es := by
    intro t a t' es hmem hstep
    have hmessages := (Cluster.stepped C hstep).messages
    cases hmessages.ingesting i with
    | keep hperm => exact Or.inl (hperm.mem_iff.mpr hmem)
    | record happend =>
      rw [happend]
      exact Or.inl (List.mem_append_left _ hmem)
    | fanOut hperm =>
      rcases List.mem_cons.mp (hperm.mem_iff.mpr hmem) with rfl | hrest
      · cases hmessages with
        | quiet hhub hingesting hes => cases hes _ (List.mem_singleton_self _)
        | fanOut haction hbefore hself hqueue => exact Or.inr (Or.inl ⟨hstep, hqueue⟩)
      · exact Or.inl hrest
    | restart => exact Or.inr (Or.inr (List.mem_singleton_self _))
  rcases hrun.kept_or_exists_step hkeep hmem with
    hkept | ⟨t, before, a, t', es', after, hrun', _, hstep, hdone, rfl⟩
  · exact Or.inl hkept
  · rcases hdone with hfans | hrestart
    · obtain rfl := (Prod.mk.inj (Option.some.inj (hstep.symm.trans hfans.step))).2
      exact Or.inr ⟨t, before, a, t', after, hrun', hfans, rfl⟩
    · exact absurd (by simp [hrestart]) halive

end Messages

end MacroBus
