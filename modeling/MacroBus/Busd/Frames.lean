import MacroBus.Busd.FederationSteps

/-!
# Frames on their way

Where a frame on a link comes from, how the phases of a link follow each other, and what
becomes of a frame on its way.
-/

namespace MacroBus

/-- The records that `dial_once` has still to push. -/
def LinkPhase.rest : LinkPhase → List (Str × TypeReg)
  | .pushing rest => rest
  | _ => []

/-- Whether the snapshot of the link is taken. -/
def LinkPhase.snapshotted : LinkPhase → Bool
  | .pushing _ | .up => true
  | _ => false

/-- The frame carries a registration. -/
def OutFrame.isRreg : OutFrame → Bool
  | .feed _ => false
  | .rreg .. => true

/-- A link whose snapshot is taken has its sender among the peers. -/
theorem isPeer_of_snapshotted {l : Link} (h : l.phase.snapshotted) : l.isPeer := by
  unfold Link.isPeer
  cases hphase : l.phase with
  | down => rw [hphase] at h; cases h
  | _ => rfl

/-- The event loses something: a frame finds no room, or a daemon dies. -/
def Event.isLoss {ι : Type} : Event ι → Bool
  | .dropped .. | .restarted _ => true
  | _ => false

section Frames

variable {ι : Type} [DecidableEq ι] {C : Cluster ι} {s s' : Net ι} {a : Action ι}
  {es : List (Event ι)} {l l' : Link} {f frame : OutFrame} {i j peer : ι}

/-- The frame is on its way over the link. -/
def Link.Holds (l : Link) (f : OutFrame) : Prop := f ∈ l.queue ∨ f ∈ l.wire ∨ f ∈ l.stale

/-- The frame carries a message with this id. -/
def OutFrame.carries (id : Str) : OutFrame → Bool
  | .feed msg => msg.msgId = id
  | .rreg _ _ => false

/-- The frame is about to be broadcast at the daemon. -/
def Net.Pending (s : Net ι) (i : ι) (f : OutFrame) : Prop := ∃ t ∈ s.tasks i, t.frame = f

omit [DecidableEq ι] in
/-- Calls at a daemon, one of which has fanned out its message, broadcast what they did. -/
theorem mem_tasks_fannedOut {ts : List (Task ι)} {k : ℕ} {msg : Message} {exclude e : Option ι}
    (htask : ts[k]? = some ⟨.feed msg, exclude, true⟩) :
    (∃ t ∈ ts.set k ⟨.feed msg, exclude, false⟩, t.frame = f ∧ t.exclude = e) ↔
      ∃ t ∈ ts, t.frame = f ∧ t.exclude = e := by
  have hmap : (ts.set k ⟨.feed msg, exclude, false⟩).map (fun t => (t.frame, t.exclude)) =
      ts.map fun t => (t.frame, t.exclude) := Cluster.map_set_of_eq htask rfl
  have hmem : ∀ us : List (Task ι), (∃ t ∈ us, t.frame = f ∧ t.exclude = e) ↔
      (f, e) ∈ us.map fun t => (t.frame, t.exclude) := by
    intro us
    simp
  rw [hmem, hmem, hmap]

/-- A call that fans out leaves the frames to broadcast. -/
theorem Net.pending_fannedOut {h : Hub} {k : ℕ} {msg : Message} {exclude : Option ι} {x : ι}
    (htask : (s.tasks i)[k]? = some ⟨.feed msg, exclude, true⟩) :
    ((s.setHub i h).setTasks i ((s.tasks i).set k ⟨.feed msg, exclude, false⟩)).Pending x f ↔
      s.Pending x f := by
  have hmap : ((s.tasks i).set k ⟨.feed msg, exclude, false⟩).map Task.frame =
      (s.tasks i).map Task.frame := Cluster.map_set_of_eq htask rfl
  unfold Net.Pending
  rw [Net.setTasks_tasks, Net.setHub_tasks]
  split
  · next hx => rw [hx, ← List.mem_map, hmap, List.mem_map]
  · rfl

@[simp] theorem Link.offer_phase (l : Link) (f : OutFrame) : (l.offer f).phase = l.phase := by
  unfold Link.offer
  split <;> rfl

@[simp] theorem Link.offer_wire (l : Link) (f : OutFrame) : (l.offer f).wire = l.wire := by
  unfold Link.offer
  split <;> rfl

@[simp] theorem Link.offer_stale (l : Link) (f : OutFrame) : (l.offer f).stale = l.stale := by
  unfold Link.offer
  split <;> rfl

/-- An offer is taken or changes nothing. -/
theorem Link.offer_queue (l : Link) (f : OutFrame) :
    (l.offer f).queue = if l.isPeer && l.hasRoom then l.queue ++ [f] else l.queue := by
  unfold Link.offer
  split <;> rfl

/-- The queue is bounded. -/
theorem Link.offer_length (h : l.queue.length ≤ PEER_QUEUE_DEPTH) (frame : OutFrame) :
    (l.offer frame).queue.length ≤ PEER_QUEUE_DEPTH := by
  rw [Link.offer_queue]
  split
  · next hroom =>
    have hlt : l.queue.length < PEER_QUEUE_DEPTH := by
      simpa [Link.hasRoom] using (Bool.and_eq_true_iff.mp hroom).2
    rw [List.length_append, List.length_singleton]
    omega
  · exact h

/-- An offer costs no frame. -/
theorem Link.mem_offer_queue (h : f ∈ l.queue) (frame : OutFrame) :
    f ∈ (l.offer frame).queue := by
  rw [Link.offer_queue]
  split
  · exact List.mem_append_left _ h
  · exact h

/-- An offer adds at most the frame offered. -/
theorem Link.Holds.of_offer (h : (l.offer frame).Holds f) : l.Holds f ∨ f = frame := by
  unfold Link.Holds at h ⊢
  rw [Link.offer_queue, Link.offer_wire, Link.offer_stale] at h
  split at h
  · rcases h with h | h | h
    · rcases List.mem_append.mp h with h | h
      · exact Or.inl (Or.inl h)
      · exact Or.inr (List.mem_singleton.mp h)
    · exact Or.inl (Or.inr (Or.inl h))
    · exact Or.inl (Or.inr (Or.inr h))
  · exact Or.inl h

/-- A frame that is read was on the link. -/
theorem Link.Read.holds_frame (h : Link.Read l l' frame) : l.Holds frame := by
  rcases h.frames with ⟨hwire, _⟩ | ⟨_, k, hk, _⟩
  · exact Or.inr (Or.inl (by simp [hwire]))
  · exact Or.inr (Or.inr (List.mem_of_getElem? hk))

/-- What is on the link after a read was there before. -/
theorem Link.Read.holds (h : Link.Read l l' frame) (hf : l'.Holds f) :
    l.Holds f := by
  unfold Link.Holds at hf ⊢
  rw [h.queue] at hf
  rcases h.frames with ⟨hwire, hstale⟩ | ⟨hwire, k, _, hstale⟩
  · rw [hstale] at hf
    rcases hf with hf | hf | hf
    · exact Or.inl hf
    · exact Or.inr (Or.inl (by rw [hwire]; exact List.mem_cons_of_mem _ hf))
    · exact Or.inr (Or.inr hf)
  · rw [hwire, hstale] at hf
    rcases hf with hf | hf | hf
    · exact Or.inl hf
    · exact Or.inr (Or.inl hf)
    · exact Or.inr (Or.inr (List.mem_of_mem_eraseIdx hf))

/-- Handling a frame changes no link. -/
theorem Cluster.Handled.link (h : Cluster.Handled C s i peer frame s' es) : s'.link = s.link := by
  cases h <;> rfl

/-- **Where frames on links come from**: from a call that broadcasts, or a snapshot. -/
theorem Cluster.Stepped.holds (h : C.Stepped s a s' es) {x y : ι}
    (hf : (s'.link x y).Holds f) :
    (s.link x y).Holds f ∨ s.Pending x f ∨
      ∃ typeName reg rest, (s.link x y).phase = .pushing ((typeName, reg) :: rest) ∧
        f = .rreg typeName reg := by
  cases h with
  | connection hsame => exact Or.inl hf
  | publish => exact Or.inl hf
  | create => exact Or.inl hf
  | fanOut => exact Or.inl hf
  | broadcast htask =>
    rename_i i k t _
    have hpending : s.Pending i t.frame := ⟨t, List.mem_of_getElem? htask, rfl⟩
    rw [Cluster.broadcast_link, Net.setTasks_link] at hf
    split at hf
    · next hx =>
      obtain ⟨rfl, _⟩ := hx
      rcases hf.of_offer with hf | rfl
      · exact Or.inl hf
      · exact Or.inr (Or.inl hpending)
    · exact Or.inl hf
  | insert hpeer hdown =>
    rw [Net.setLink_link] at hf
    split at hf
    · next heq =>
      obtain ⟨rfl, rfl⟩ := heq
      rcases hf with hf | hf
      · cases hf
      · exact Or.inl (Or.inr hf)
    · exact Or.inl hf
  | snapshot hinserted =>
    rw [Net.setLink_link] at hf
    split at hf
    · next heq =>
      obtain ⟨rfl, rfl⟩ := heq
      exact Or.inl hf
    · exact Or.inl hf
  | push hpushing =>
    rw [Net.setLink_link] at hf
    split at hf
    · next heq =>
      obtain ⟨rfl, rfl⟩ := heq
      rcases Link.Holds.of_offer hf with hf | rfl
      · exact Or.inl hf
      · exact Or.inr (Or.inr ⟨_, _, _, hpushing, rfl⟩)
    · exact Or.inl hf
  | start hpushed =>
    rw [Net.setLink_link] at hf
    split at hf
    · next heq =>
      obtain ⟨rfl, rfl⟩ := heq
      exact Or.inl hf
    · exact Or.inl hf
  | write hup hqueue =>
    rw [Net.setLink_link] at hf
    split at hf
    · next heq =>
      obtain ⟨rfl, rfl⟩ := heq
      refine Or.inl ?_
      rcases hf with hf | hf | hf
      · exact Or.inl (by rw [hqueue]; exact List.mem_cons_of_mem _ hf)
      · rcases List.mem_append.mp hf with hf | hf
        · exact Or.inr (Or.inl hf)
        · exact Or.inl (by rw [hqueue, List.mem_singleton.mp hf]; exact List.mem_cons_self)
      · exact Or.inr (Or.inr hf)
    · exact Or.inl hf
  | receive haction hread hhandled =>
    rw [hhandled.link, Net.setLink_link] at hf
    split at hf
    · next heq =>
      obtain ⟨rfl, rfl⟩ := heq
      exact Or.inl (hread.holds hf)
    · exact Or.inl hf
  | vanish =>
    rw [Net.setLink_link] at hf
    split at hf
    · next heq =>
      obtain ⟨rfl, rfl⟩ := heq
      refine Or.inl ?_
      rcases hf with hf | hf | hf
      · exact Or.inl hf
      · exact Or.inr (Or.inl hf)
      · exact Or.inr (Or.inr (List.mem_of_mem_eraseIdx hf))
    · exact Or.inl hf
  | lose =>
    rw [Net.setLink_link] at hf
    split at hf
    · next heq =>
      obtain ⟨rfl, rfl⟩ := heq
      refine Or.inl ?_
      rcases hf with hf | hf | hf
      · cases hf
      · cases hf
      · rcases List.mem_append.mp hf with hf | hf
        · exact Or.inr (Or.inr hf)
        · exact Or.inr (Or.inl hf)
    · exact Or.inl hf
  | restart =>
    simp only [Net.linksWithout] at hf
    split at hf
    · rcases hf with hf | hf | hf <;> cases hf
    · split at hf
      · refine Or.inl ?_
        rcases hf with hf | hf | hf
        · cases hf
        · cases hf
        · rcases List.mem_append.mp hf with hf | hf
          · exact Or.inr (Or.inr hf)
          · exact Or.inr (Or.inl hf)
      · exact Or.inl hf

/-- The event a new task follows from. -/
inductive Announced (s : Net ι) (i : ι) (es : List (Event ι)) : OutFrame → Prop
  /-- A message was published. -/
  | published {key : Str} {held : TypeReg} {msg : Message} {queued : Finset ℕ}
      (hevent : .published i key held msg queued ∈ es) : Announced s i es (.feed msg)
  /-- A message arrived and was new. -/
  | ingested {peer : ι} {msg : Message} (hevent : .ingested i peer msg true ∈ es)
      (hheld : (s.link peer i).Holds (.feed msg)) : Announced s i es (.feed msg)
  /-- A record was created. -/
  | created {typeName : Str} {reg : TypeReg} (hevent : .created i typeName reg ∈ es) :
      Announced s i es (.rreg typeName reg)
  /-- A record arrived and was adopted. -/
  | adopted {peer : ι} {typeName : Str} {reg : TypeReg}
      (hevent : .adopted i peer typeName reg ∈ es)
      (hheld : (s.link peer i).Holds (.rreg typeName reg)) :
      Announced s i es (.rreg typeName reg)

/-- One more task. -/
theorem Net.Pending.of_addTask {t : Task ι} {x : ι} (h : (s.addTask i t).Pending x f) :
    s.Pending x f ∨ x = i ∧ f = t.frame := by
  obtain ⟨t', ht', rfl⟩ := h
  rw [Net.addTask_tasks] at ht'
  split at ht'
  · next hx =>
    rcases List.mem_append.mp ht' with ht' | ht'
    · exact Or.inl ⟨t', ht', rfl⟩
    · exact Or.inr ⟨hx, by rw [List.mem_singleton.mp ht']⟩
  · exact Or.inl ⟨t', ht', rfl⟩

/-- **Where tasks come from**: from what the step did. -/
theorem Cluster.Stepped.pending (h : C.Stepped s a s' es) {x : ι} (hf : s'.Pending x f) :
    s.Pending x f ∨ Announced s x es f := by
  cases h with
  | publish htype hbody hheld hkey hmsg hregistry hqueue =>
    rcases hf.of_addTask with hf | ⟨rfl, rfl⟩
    · exact Or.inl hf
    · exact Or.inr (.published (List.mem_singleton_self _))
  | create htype hvalid hnone hreg hregistry =>
    rcases hf.of_addTask with hf | ⟨rfl, rfl⟩
    · exact Or.inl hf
    · exact Or.inr (.created (List.mem_singleton_self _))
  | fanOut htask => exact Or.inl ((Net.pending_fannedOut htask).mp hf)
  | broadcast htask =>
    obtain ⟨t', ht', rfl⟩ := hf
    simp only [Cluster.broadcast, Net.setTasks_tasks] at ht'
    split at ht'
    · next hx => exact Or.inl ⟨t', hx ▸ List.mem_of_mem_eraseIdx ht', rfl⟩
    · exact Or.inl ⟨t', ht', rfl⟩
  | receive haction hread hhandled =>
    cases hhandled with
    | ingest hnew hregistry hchan =>
      rcases hf.of_addTask with hf | ⟨rfl, rfl⟩
      · exact Or.inl hf
      · exact Or.inr (.ingested (List.mem_singleton_self _) hread.holds_frame)
    | adopt hlt hregistry =>
      rcases hf.of_addTask with hf | ⟨rfl, rfl⟩
      · exact Or.inl hf
      · exact Or.inr (.adopted (List.mem_singleton_self _) hread.holds_frame)
    | _ => exact Or.inl hf
  | restart =>
    obtain ⟨t', ht', rfl⟩ := hf
    dsimp only at ht'
    rw [Function.update_apply] at ht'
    split at ht'
    · cases ht'
    · exact Or.inl ⟨t', ht', rfl⟩
  | _ => exact Or.inl hf

/-- The task that was added is there. -/
theorem Net.mem_addTask (s : Net ι) (i : ι) (t : Task ι) : t ∈ (s.addTask i t).tasks i := by
  rw [Net.addTask_tasks, if_pos rfl]
  exact List.mem_append_right _ (List.mem_singleton_self t)

/-- A new task costs no other. -/
theorem Net.mem_tasks_addTask {n : Net ι} {i k : ι} {t new : Task ι} (ht : t ∈ n.tasks k) :
    t ∈ (n.addTask i new).tasks k := by
  rw [Net.addTask_tasks]
  split
  · exact List.mem_append_left _ ht
  · exact ht

/-- Handling a frame costs no task. -/
theorem Cluster.Handled.tasks {peer k : ι} {frame : OutFrame} (h : Handled C s i peer frame s' es)
    {t : Task ι} (ht : t ∈ s.tasks k) : t ∈ s'.tasks k := by
  cases h with
  | ingest => exact Net.mem_tasks_addTask ht
  | adopt => exact Net.mem_tasks_addTask ht
  | _ => exact ht

end Frames

section Phases

variable {ι : Type} {C : Cluster ι} {s s' : Net ι} {a : Action ι} {es : List (Event ι)}
  {i j : ι} {typeName : Str} {reg : TypeReg}

/-- How the phase of a link can change. -/
inductive PhaseStep (C : Cluster ι) (s : Net ι) (a : Action ι) (s' : Net ι) (es : List (Event ι))
    (i j : ι) : Prop
  /-- Not at all. -/
  | keep (hphase : (s'.link i j).phase = (s.link i j).phase)
  /-- The link is lost. -/
  | lose (hphase : (s'.link i j).phase = .down)
      (hcause : a = .lose i j ∨ ∃ k, a = .restart k)
  /-- The sender is inserted. -/
  | insert (hpeer : j ∈ C.peers i) (hphase : (s'.link i j).phase = .inserted)
  /-- The snapshot is taken. -/
  | snapshot (hhub : s'.hub = s.hub) (hbefore : (s.link i j).phase = .inserted)
      (hphase : (s'.link i j).phase = .pushing (s.hub i).registry.allRegistrations)
  /-- A record is pushed. -/
  | push {record : Str × TypeReg} {rest : List (Str × TypeReg)}
      (hbefore : (s.link i j).phase = .pushing (record :: rest))
      (hphase : (s'.link i j).phase = .pushing rest)
      (hqueue : (s'.link i j).queue = ((s.link i j).offer (.rreg record.1 record.2)).queue)
      (hes : es = [if (s.link i j).hasRoom then .sent i j (.rreg record.1 record.2)
        else .dropped i j (.rreg record.1 record.2)])
  /-- The loops start. -/
  | start (hbefore : (s.link i j).phase = .pushing []) (hphase : (s'.link i j).phase = .up)

/-- What is still to be pushed was, or is a record of the snapshot. -/
theorem PhaseStep.rest (h : PhaseStep C s a s' es i j)
    (hrest : (typeName, reg) ∈ (s'.link i j).phase.rest) :
    (typeName, reg) ∈ (s.link i j).phase.rest ∨
      (s.hub i).registry.types.lookup typeName = some reg := by
  cases h with
  | keep hphase => exact Or.inl (hphase ▸ hrest)
  | snapshot hhub hinserted hphase =>
    rw [hphase] at hrest
    exact Or.inr (Registry.mem_allRegistrations.mp hrest)
  | push hbefore hphase _ _ =>
    rw [hphase] at hrest
    rw [hbefore]
    exact Or.inl (List.mem_cons_of_mem _ hrest)
  | lose hphase | insert _ hphase | start _ hphase =>
    rw [hphase] at hrest
    cases hrest

/-- A snapshot that is taken was taken before, or is taken now. -/
theorem PhaseStep.snapshotted (h : PhaseStep C s a s' es i j)
    (hnow : (s'.link i j).phase.snapshotted) : (s.link i j).phase.snapshotted ∨
      s'.hub = s.hub ∧ (s'.link i j).phase = .pushing (s.hub i).registry.allRegistrations := by
  cases h with
  | keep hphase => exact Or.inl (hphase ▸ hnow)
  | snapshot hhub hbefore hphase => exact Or.inr ⟨hhub, hphase⟩
  | push hbefore | start hbefore =>
    rw [hbefore]
    exact Or.inl rfl
  | lose hphase | insert _ hphase =>
    rw [hphase] at hnow
    cases hnow

/-- Records are pushed after the snapshot. -/
theorem PhaseStep.pushing (h : PhaseStep C s a s' es i j) {rest' : List (Str × TypeReg)}
    (hnow : (s'.link i j).phase = .pushing rest') :
    (∃ rest, (s.link i j).phase = .pushing rest) ∨
      s'.hub = s.hub ∧ rest' = (s.hub i).registry.allRegistrations := by
  cases h with
  | keep hphase => exact Or.inl ⟨rest', hphase ▸ hnow⟩
  | snapshot hhub hbefore hphase => exact Or.inr ⟨hhub, LinkPhase.pushing.inj (hnow.symm.trans hphase)⟩
  | push hbefore => exact Or.inl ⟨_, hbefore⟩
  | lose hphase | insert _ hphase | start _ hphase => cases hphase.symm.trans hnow

/-- Only peers are dialed. -/
theorem PhaseStep.dialed (h : PhaseStep C s a s' es i j) (hpeer : (s.link i j).isPeer → j ∈ C.peers i)
    (hnow : (s'.link i j).isPeer) : j ∈ C.peers i := by
  have hne : (s'.link i j).phase ≠ .down := by simpa [Link.isPeer] using hnow
  have hbefore : (s.link i j).phase ≠ .down → j ∈ C.peers i := fun hphase =>
    hpeer (by simpa [Link.isPeer] using hphase)
  cases h with
  | keep hphase => exact hbefore (hphase ▸ hne)
  | lose hphase => exact absurd hphase hne
  | insert hpeer hphase => exact hpeer
  | snapshot hhub hinserted hphase => exact hbefore (by simp [hinserted])
  | push hpushing => exact hbefore (by simp [hpushing])
  | start hpushed hphase => exact hbefore (by simp [hpushed])

variable [DecidableEq ι]

/-- **How every step changes the phase of a link.** -/
theorem Cluster.Stepped.phase (h : C.Stepped s a s' es) (i j : ι) : PhaseStep C s a s' es i j := by
  have hset : ∀ (x y : ι) (l : Link), s'.link = (s.setLink x y l).link →
      (i = x ∧ j = y → s'.link i j = l → PhaseStep C s a s' es i j) →
      PhaseStep C s a s' es i j := by
    intro x y l hlink hself
    by_cases heq : i = x ∧ j = y
    · exact hself heq (by rw [hlink, Net.setLink_link, if_pos heq])
    · exact .keep (by rw [hlink, Net.setLink_link, if_neg heq])
  cases h with
  | broadcast htask =>
    rename_i x k t _
    refine .keep ?_
    rw [Cluster.broadcast_link]
    split
    · exact Link.offer_phase _ _
    · rfl
  | insert hpeer hdown =>
    refine hset _ _ _ rfl ?_
    rintro ⟨rfl, rfl⟩ hlink
    exact .insert hpeer (by rw [hlink])
  | snapshot hinserted =>
    refine hset _ _ _ rfl ?_
    rintro ⟨rfl, rfl⟩ hlink
    exact .snapshot rfl hinserted (by rw [hlink])
  | push hpushing =>
    refine hset _ _ _ rfl ?_
    rintro ⟨rfl, rfl⟩ hlink
    exact .push hpushing (by rw [hlink]) (by rw [hlink]) rfl
  | start hpushed =>
    refine hset _ _ _ rfl ?_
    rintro ⟨rfl, rfl⟩ hlink
    exact .start hpushed (by rw [hlink])
  | write hup hqueue =>
    refine hset _ _ _ rfl ?_
    rintro ⟨rfl, rfl⟩ hlink
    exact .keep (by rw [hlink])
  | receive haction hread hhandled =>
    refine hset _ _ _ hhandled.link ?_
    rintro ⟨rfl, rfl⟩ hlink
    exact .keep (by rw [hlink, hread.phase])
  | vanish =>
    refine hset _ _ _ rfl ?_
    rintro ⟨rfl, rfl⟩ hlink
    exact .keep (by rw [hlink])
  | lose =>
    refine hset _ _ _ rfl ?_
    rintro ⟨rfl, rfl⟩ hlink
    exact .lose (by rw [hlink]) (Or.inl rfl)
  | restart =>
    rename_i x
    by_cases hj : j = x
    · exact .lose (by simp only [Net.linksWithout, if_pos hj]) (Or.inr ⟨x, rfl⟩)
    by_cases hi : i = x
    · exact .lose (by simp only [Net.linksWithout, if_neg hj, if_pos hi]) (Or.inr ⟨x, rfl⟩)
    · exact .keep (by simp only [Net.linksWithout, if_neg hj, if_neg hi])
  | _ => exact .keep rfl

end Phases

section Transit

variable {ι : Type} {C : Cluster ι} {s s' : Net ι} {a : Action ι} {es : List (Event ι)}
  {i j : ι} {f : OutFrame}

/-- The frame is on its way from `i` to `j`, or about to be sent there. -/
def Net.OnWay (s : Net ι) (i j : ι) (f : OutFrame) : Prop :=
  f ∈ (s.link i j).queue ∨ f ∈ (s.link i j).wire ∨
    ∃ t ∈ s.tasks i, t.frame = f ∧ t.exclude ≠ some j

variable [DecidableEq ι]

/-- A broadcast in which no frame is lost reaches every peer but the one it came from. -/
theorem broadcast_queue {exclude : Option ι}
    (hloss : ∀ e ∈ (C.broadcast s i f exclude).2, e.isLoss = false) (hpeer : j ∈ C.peers i)
    (hup : (s.link i j).isPeer) (hne : exclude ≠ some j) :
    f ∈ ((C.broadcast s i f exclude).1.link i j).queue := by
  have hevent : (if (s.link i j).hasRoom then .sent i j f else .dropped i j f) ∈
      (C.broadcast s i f exclude).2 := by
    refine List.mem_map.mpr ⟨j, List.mem_filter.mpr ⟨hpeer, ?_⟩, rfl⟩
    simpa using ⟨hne.symm, hup⟩
  have hroom : (s.link i j).hasRoom := by
    by_contra hfull
    rw [if_neg hfull] at hevent
    cases hloss _ hevent
  rw [Cluster.broadcast_link, if_pos ⟨rfl, hne.symm⟩, Link.offer_queue, hup, hroom]
  exact List.mem_append_right _ (List.mem_singleton_self _)

/-- **Nothing is lost on the way.** A frame on its way over a link that is not lost stays on its
way, unless this step reads it. -/
theorem Cluster.Stepped.onWay (h : C.Stepped s a s' es) (hloss : ∀ e ∈ es, e.isLoss = false)
    (hpeer : j ∈ C.peers i) (hbefore : (s.link i j).isPeer) (hafter : (s'.link i j).isPeer)
    (hway : s.OnWay i j f) :
    s'.OnWay i j f ∨ ∃ l, Link.Read (s.link i j) l f ∧
      Cluster.Handled C (s.setLink i j l) j i f s' es := by
  -- A step that changes one link and takes no task.
  have hset : ∀ (x y : ι) (l : Link), s'.link = (s.setLink x y l).link →
      (∀ t ∈ s.tasks i, t ∈ s'.tasks i) →
      (i = x → j = y → l.isPeer → f ∈ (s.link x y).queue ∨ f ∈ (s.link x y).wire →
        f ∈ l.queue ∨ f ∈ l.wire) → s'.OnWay i j f := by
    intro x y l hlink htasks hself
    have hlinked : f ∈ (s.link i j).queue ∨ f ∈ (s.link i j).wire → s'.OnWay i j f := by
      intro hbefore
      unfold Net.OnWay
      by_cases heq : i = x ∧ j = y
      · obtain ⟨rfl, rfl⟩ := heq
        have hl : s'.link i j = l := by rw [hlink, Net.setLink_link_self]
        rw [hl]
        rcases hself rfl rfl (hl ▸ hafter) hbefore with hqueue | hwire
        · exact Or.inl hqueue
        · exact Or.inr (Or.inl hwire)
      · rw [hlink, Net.setLink_link, if_neg heq]
        rcases hbefore with hqueue | hwire
        · exact Or.inl hqueue
        · exact Or.inr (Or.inl hwire)
    rcases hway with hqueue | hwire | ⟨t, ht, hframe⟩
    · exact hlinked (Or.inl hqueue)
    · exact hlinked (Or.inr hwire)
    · exact Or.inr (Or.inr ⟨t, htasks t ht, hframe⟩)
  have hkeep : s'.link = s.link → (∀ t ∈ s.tasks i, t ∈ s'.tasks i) → s'.OnWay i j f := by
    intro hlink htasks
    unfold Net.OnWay
    rw [hlink]
    rcases hway with hqueue | hwire | ⟨t, ht, hframe⟩
    · exact Or.inl hqueue
    · exact Or.inr (Or.inl hwire)
    · exact Or.inr (Or.inr ⟨t, htasks t ht, hframe⟩)
  cases h with
  | connection => exact Or.inl (hkeep rfl fun t ht => ht)
  | publish => exact Or.inl (hkeep rfl fun t ht => Net.mem_tasks_addTask ht)
  | create => exact Or.inl (hkeep rfl fun t ht => Net.mem_tasks_addTask ht)
  | fanOut htask hregistry hqueue =>
    left
    rcases hway with hqueue | hwire | ⟨t, ht, hframe, hne⟩
    · exact Or.inl hqueue
    · exact Or.inr (Or.inl hwire)
    · refine Or.inr (Or.inr ?_)
      rw [Net.setTasks_tasks]
      split
      · next hx =>
        obtain ⟨t', ht', hframe', hexclude⟩ :=
          (mem_tasks_fannedOut htask).mpr ⟨t, hx ▸ ht, hframe, rfl⟩
        exact ⟨t', ht', hframe', hexclude ▸ hne⟩
      · exact ⟨t, ht, hframe, hne⟩
  | broadcast htask =>
    rename_i x k task _
    left
    rcases hway with hqueue | hwire | ⟨t, ht, hframe, hne⟩
    · left
      rw [Cluster.broadcast_link]
      split
      · exact Link.mem_offer_queue hqueue _
      · exact hqueue
    · refine Or.inr (Or.inl ?_)
      rw [Cluster.broadcast_link]
      split
      · rw [Link.offer_wire]
        exact hwire
      · exact hwire
    · by_cases hi : i = x
      · subst hi
        rcases Cluster.mem_eraseIdx_or_eq htask ht with rfl | hrest
        · have hqueue := broadcast_queue hloss hpeer hbefore hne
          exact Or.inl (by rw [← hframe]; exact hqueue)
        · refine Or.inr (Or.inr ⟨t, ?_, hframe, hne⟩)
          rw [Cluster.broadcast_tasks, Net.setTasks_tasks, if_pos rfl]
          exact hrest
      · refine Or.inr (Or.inr ⟨t, ?_, hframe, hne⟩)
        rw [Cluster.broadcast_tasks, Net.setTasks_tasks, if_neg hi]
        exact ht
  | insert _ hdown =>
    refine Or.inl (hset _ _ _ rfl (fun t ht => ht) ?_)
    rintro rfl rfl _ _
    simp [Link.isPeer, hdown] at hbefore
  | snapshot | start | vanish =>
    exact Or.inl (hset _ _ _ rfl (fun t ht => ht) fun _ _ _ h => h)
  | push =>
    refine Or.inl (hset _ _ _ rfl (fun t ht => ht) ?_)
    rintro _ _ _ (hqueue | hwire)
    · exact Or.inl (Link.mem_offer_queue hqueue _)
    · exact Or.inr (by rw [Link.offer_wire]; exact hwire)
  | write hup hqueue =>
    refine Or.inl (hset _ _ _ rfl (fun t ht => ht) ?_)
    rintro _ _ _ (hmem | hwire)
    · rw [hqueue] at hmem
      rcases List.mem_cons.mp hmem with rfl | hmem
      · exact Or.inr (List.mem_append_right _ (List.mem_singleton_self _))
      · exact Or.inl hmem
    · exact Or.inr (List.mem_append_left _ hwire)
  | receive haction hread hhandled =>
    rename_i x peer frame l
    by_cases hfirst : i = peer ∧ j = x ∧ f = frame
    · obtain ⟨rfl, rfl, rfl⟩ := hfirst
      exact Or.inr ⟨l, hread, hhandled⟩
    · refine Or.inl (hset _ _ _ hhandled.link (fun t ht => hhandled.tasks ht) ?_)
      rintro rfl rfl _ (hqueue | hwire)
      · exact Or.inl (hread.queue ▸ hqueue)
      · rcases hread.frames with ⟨hframes, _⟩ | ⟨hsame, _⟩
        · rw [hframes] at hwire
          rcases List.mem_cons.mp hwire with rfl | hwire
          · exact absurd ⟨rfl, rfl, rfl⟩ hfirst
          · exact Or.inr hwire
        · exact Or.inr (hsame ▸ hwire)
  | lose =>
    refine Or.inl (hset _ _ _ rfl (fun t ht => ht) ?_)
    rintro _ _ hdown _
    cases hdown
  | restart => simp [Event.isLoss] at hloss

end Transit

end MacroBus
