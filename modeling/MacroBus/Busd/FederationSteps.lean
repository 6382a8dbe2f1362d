import MacroBus.Busd.Federation

/-!
# What a step of the cluster can do

One case for each kind of step, with its guard and the state it leads to. Invariants of
the cluster are proved by cases on these and never unfold the step function.
-/

namespace MacroBus

namespace Net

variable {ι : Type} [DecidableEq ι] (s : Net ι) (i j a b : ι) (h : Hub) (l : Link)
  (ts : List (Task ι)) (t : Task ι)

theorem setHub_hub : (s.setHub i h).hub a = if a = i then h else s.hub a :=
  Function.update_apply _ _ _ _

@[simp] theorem setHub_hub_self : (s.setHub i h).hub i = h := Function.update_self _ _ _

@[simp] theorem setHub_link : (s.setHub i h).link = s.link := rfl

@[simp] theorem setHub_tasks : (s.setHub i h).tasks = s.tasks := rfl

@[simp] theorem setLink_hub : (s.setLink i j l).hub = s.hub := rfl

theorem setLink_link : (s.setLink i j l).link a b = if a = i ∧ b = j then l else s.link a b := by
  by_cases ha : a = i
  · subst ha
    by_cases hb : b = j
    · subst hb
      simp [setLink]
    · simp [setLink, hb]
  · simp [setLink, ha]

@[simp] theorem setLink_link_self : (s.setLink i j l).link i j = l := by
  rw [setLink_link, if_pos ⟨rfl, rfl⟩]

@[simp] theorem setLink_tasks : (s.setLink i j l).tasks = s.tasks := rfl

@[simp] theorem setTasks_hub : (s.setTasks i ts).hub = s.hub := rfl

@[simp] theorem setTasks_link : (s.setTasks i ts).link = s.link := rfl

theorem setTasks_tasks : (s.setTasks i ts).tasks a = if a = i then ts else s.tasks a :=
  Function.update_apply _ _ _ _

@[simp] theorem addTask_hub : (s.addTask i t).hub = s.hub := rfl

@[simp] theorem addTask_link : (s.addTask i t).link = s.link := rfl

theorem addTask_tasks :
    (s.addTask i t).tasks a = if a = i then s.tasks a ++ [t] else s.tasks a := by
  unfold addTask
  rw [setTasks_tasks]
  by_cases ha : a = i
  · rw [if_pos ha, if_pos ha, ha]
  · rw [if_neg ha, if_neg ha]

/-- Putting a hub where it is. -/
@[simp] theorem setHub_self : s.setHub i (s.hub i) = s := by
  simp [setHub]

end Net

/-- The step is one of a connection. -/
def Action.isConnection {ι : Type} : Action ι → Bool
  | .publish .. | .register .. | .subscribe .. | .unsubscribe .. | .disconnect .. | .recv .. => true
  | _ => false

/-- The link from `peer` to `i` after the frame is read from it. -/
structure Link.Read (l l' : Link) (frame : OutFrame) : Prop where
  /-- The sender does not notice. -/
  phase : l'.phase = l.phase
  /-- Nor does its queue change. -/
  queue : l'.queue = l.queue
  /-- The frame was the first on the wire, or a leftover of a lost connection. -/
  frames : (l.wire = frame :: l'.wire ∧ l'.stale = l.stale) ∨
    (l'.wire = l.wire ∧ ∃ k, l.stale[k]? = some frame ∧ l'.stale = l.stale.eraseIdx k)

namespace Cluster

variable {ι : Type} [DecidableEq ι] (C : Cluster ι)

@[simp] theorem broadcast_hub (s : Net ι) (i : ι) (frame : OutFrame) (exclude : Option ι) :
    (C.broadcast s i frame exclude).1.hub = s.hub := rfl

@[simp] theorem broadcast_tasks (s : Net ι) (i : ι) (frame : OutFrame) (exclude : Option ι) :
    (C.broadcast s i frame exclude).1.tasks = s.tasks := rfl

/-- The links after a broadcast. -/
theorem broadcast_link (s : Net ι) (i a b : ι) (frame : OutFrame) (exclude : Option ι) :
    (C.broadcast s i frame exclude).1.link a b =
      if a = i ∧ some b ≠ exclude then (s.link a b).offer frame else s.link a b := by
  unfold broadcast
  dsimp only
  by_cases ha : a = i
  · subst ha
    rw [Function.update_self]
    by_cases hb : some b = exclude
    · rw [if_pos hb, if_neg (fun h => h.2 hb)]
    · rw [if_neg hb, if_pos ⟨rfl, hb⟩]
  · rw [Function.update_of_ne ha, if_neg (fun h => ha h.1)]

/-- The registry as far as peers can tell. -/
structure SameTables (r r' : Registry) : Prop where
  /-- The daemon is the same. -/
  daemonId : r'.daemonId = r.daemonId
  /-- So is the next sequence number. -/
  seq : r'.seq = r.seq
  /-- So is the type table. -/
  types : r'.types = r.types
  /-- So are the seen ids. -/
  seen : r'.seen = r.seen

/-- Nothing has changed. -/
theorem SameTables.refl (r : Registry) : SameTables r r := ⟨rfl, rfl, rfl, rfl⟩

/-- Unsubscribing is not noticed by peers. -/
theorem sameTables_unsubscribe (r : Registry) (typeName : Str) (conn : ℕ) :
    SameTables r (r.unsubscribe typeName conn) := by
  unfold Registry.unsubscribe
  split
  · exact .refl r
  · split <;> exact ⟨rfl, rfl, rfl, rfl⟩

/-- The end of a connection is not noticed by peers. -/
theorem sameTables_removeConn (r : Registry) (conn : ℕ) (types : List Str) :
    SameTables r (r.removeConn conn types) := by
  unfold Registry.removeConn
  induction types generalizing r with
  | nil => exact .refl r
  | cons typeName types ih =>
    have hfirst := sameTables_unsubscribe r typeName conn
    have hrest := ih (r.unsubscribe typeName conn)
    exact ⟨hrest.daemonId.trans hfirst.daemonId, hrest.seq.trans hfirst.seq,
      hrest.types.trans hfirst.types, hrest.seen.trans hfirst.seen⟩

/-- What `handle` does with a frame from a peer. -/
inductive Handled (s : Net ι) (i peer : ι) : OutFrame → Net ι → List (Event ι) → Prop
  /-- A message that is malformed or too large is dropped. -/
  | refuseFeed {msg : Message} (hbad : msg.typeName = [] ∨ msg.msgId = [] ∨ msg.origin = [] ∨
      (C.config i).limits.maxMessageBytes < bodySize msg.body) :
      Handled s i peer (.feed msg) s []
  /-- A message that was seen is dropped. -/
  | duplicate {msg : Message} (hseen : msg.msgId ∈ (s.hub i).registry.seen.set) :
      Handled s i peer (.feed msg) s [.ingested i peer msg false]
  /-- A new message is recorded. It is still to be fanned out and forwarded. -/
  | ingest {msg : Message} {h : Hub} (hnew : msg.msgId ∉ (s.hub i).registry.seen.set)
      (hregistry : h.registry = { (s.hub i).registry with
        seen := ((s.hub i).registry.seen.insert msg.msgId).2 })
      (hchan : h.chan = (s.hub i).chan) :
      Handled s i peer (.feed msg) ((s.setHub i h).addTask i ⟨.feed msg, some peer, true⟩)
        [.ingested i peer msg true]
  /-- A registration that is incomplete is dropped. -/
  | refuseRreg {typeName : Str} {reg : TypeReg}
      (hbad : typeName = [] ∨ reg.key = [] ∨ reg.originDaemon = []) :
      Handled s i peer (.rreg typeName reg) s []
  /-- A registration that does not beat the table is ignored. -/
  | ignore {typeName : Str} {reg existing : TypeReg}
      (hlookup : (s.hub i).registry.types.lookup typeName = some existing)
      (hle : existing.tuple ≤ reg.tuple) : Handled s i peer (.rreg typeName reg) s []
  /-- A registration that beats the table is adopted and forwarded. -/
  | adopt {typeName : Str} {reg : TypeReg} {h : Hub}
      (hlt : ∀ existing, (s.hub i).registry.types.lookup typeName = some existing →
        reg.tuple < existing.tuple)
      (hregistry : h.registry = { (s.hub i).registry with
        types := (s.hub i).registry.types.insert typeName reg })
      (hchan : h.chan = (s.hub i).chan) :
      Handled s i peer (.rreg typeName reg)
        ((s.setHub i h).addTask i ⟨.rreg typeName reg, some peer, false⟩)
        [.adopted i peer typeName reg]

/-- Every frame is handled in one of these ways. -/
theorem handled (s : Net ι) (i peer : ι) (frame : OutFrame) :
    Handled C s i peer frame (C.handle s i peer frame).1 (C.handle s i peer frame).2 := by
  cases frame with
  | feed msg =>
    unfold handle handleFeed
    dsimp only
    split
    · next hbad => exact .refuseFeed (by tauto)
    · split
      · next hlong => exact .refuseFeed (Or.inr (Or.inr (Or.inr hlong)))
      · by_cases hid : msg.msgId ∈ (s.hub i).registry.seen.set
        · rw [Hub.recordSeen_of_mem hid]
          simp only [Net.setHub_self]
          exact .duplicate hid
        · rw [Hub.recordSeen_of_notMem hid]
          exact .ingest hid rfl rfl
  | rreg typeName reg =>
    unfold handle handleRreg
    dsimp only
    split
    · next hbad => exact .refuseRreg hbad
    · rcases happly : (s.hub i).registry.applyRemoteRegistration typeName reg with
        ⟨_ | effective, registry⟩
      · obtain ⟨⟨existing, hlookup, hle⟩, rfl⟩ :=
          Registry.applyRemoteRegistration_eq_none_iff.mp happly
        have hsame : ({ s.hub i with registry := (s.hub i).registry } : Hub) = s.hub i := rfl
        dsimp only
        rw [hsame, Net.setHub_self]
        exact .ignore hlookup hle
      · obtain ⟨hlt, rfl, rfl⟩ := Registry.applyRemoteRegistration_eq_some_iff.mp happly
        exact .adopt hlt rfl rfl

/-- **What a step can do.** -/
inductive Stepped (s : Net ι) : Action ι → Net ι → List (Event ι) → Prop
  /-- A connection does something that peers cannot tell. -/
  | connection {a : Action ι} {i : ι} {h : Hub}
      (hsame : SameTables (s.hub i).registry h.registry)
      (hqueue : ∀ c, (h.chan c).queue <:+ ((s.hub i).chan c).queue)
      (haction : a.isConnection = true) : Stepped s a (s.setHub i h) []
  /-- A message is published. -/
  | publish {i : ι} {typeName key : Str} {body : List Str} {held : TypeReg} {msg : Message}
      {h : Hub} (htype : validate.isValidType typeName = true)
      (hbody : bodySize body ≤ (C.config i).limits.maxMessageBytes)
      (hheld : (s.hub i).registry.types.lookup typeName = some held) (hkey : held.key = key)
      (hmsg : msg = ⟨typeName, (s.hub i).registry.msgId, (s.hub i).registry.daemonId, body⟩)
      (hregistry : h.registry = { (s.hub i).registry with
        seq := ((s.hub i).registry.seq + 1) % u64Values
        seen := ((s.hub i).registry.seen.insert msg.msgId).2 })
      (hqueue : ∀ c, (h.chan c).queue = ((s.hub i).chan c).queue ++
        if c ∈ (s.hub i).recipients msg then [.deliver msg] else []) :
      Stepped s (.publish i typeName key body)
        ((s.setHub i h).addTask i ⟨.feed msg, none, false⟩)
        [.published i key held msg ((s.hub i).recipients msg)]
  /-- A type is claimed. -/
  | create {i : ι} {typeName key : Str} {nowMs : ℕ} {reg : TypeReg} {h : Hub}
      (htype : validate.isValidType typeName = true) (hvalid : validate.isValidKey key = true)
      (hnone : (s.hub i).registry.types.lookup typeName = none)
      (hreg : reg = ⟨key, (s.hub i).registry.daemonId, nowMs⟩)
      (hregistry : h.registry = { (s.hub i).registry with
        types := (s.hub i).registry.types.insert typeName reg })
      (hchan : h.chan = (s.hub i).chan) :
      Stepped s (.register i typeName key nowMs)
        ((s.setHub i h).addTask i ⟨.rreg typeName reg, none, false⟩) [.created i typeName reg]
  /-- A call fans out the message it has recorded. -/
  | fanOut {i : ι} {k : ℕ} {msg : Message} {exclude : Option ι} {h : Hub}
      (htask : (s.tasks i)[k]? = some ⟨.feed msg, exclude, true⟩)
      (hregistry : h.registry = (s.hub i).registry)
      (hqueue : ∀ c, (h.chan c).queue = ((s.hub i).chan c).queue ++
        if c ∈ (s.hub i).recipients msg then [.deliver msg] else []) :
      Stepped s (.fanOut i k)
        ((s.setHub i h).setTasks i ((s.tasks i).set k ⟨.feed msg, exclude, false⟩))
        [.fannedOut i msg ((s.hub i).recipients msg)]
  /-- A call broadcasts. -/
  | broadcast {i : ι} {k : ℕ} {t : Task ι} (htask : (s.tasks i)[k]? = some t)
      (hdone : t.ingesting = false) :
      Stepped s (.broadcast i k)
        (C.broadcast (s.setTasks i ((s.tasks i).eraseIdx k)) i t.frame t.exclude).1
        (C.broadcast (s.setTasks i ((s.tasks i).eraseIdx k)) i t.frame t.exclude).2
  /-- A dialer inserts its sender. -/
  | insert {i j : ι} (hpeer : j ∈ C.peers i) (hdown : (s.link i j).phase = .down) :
      Stepped s (.insert i j)
        (s.setLink i j { s.link i j with phase := .inserted, queue := [] }) []
  /-- A dialer takes its snapshot. -/
  | snapshot {i j : ι} (hinserted : (s.link i j).phase = .inserted) :
      Stepped s (.snapshot i j) (s.setLink i j { s.link i j with
        phase := .pushing (s.hub i).registry.allRegistrations }) []
  /-- A dialer pushes a record. -/
  | push {i j : ι} {typeName : Str} {reg : TypeReg} {rest : List (Str × TypeReg)}
      (hpushing : (s.link i j).phase = .pushing ((typeName, reg) :: rest)) :
      Stepped s (.push i j)
        (s.setLink i j { (s.link i j).offer (.rreg typeName reg) with phase := .pushing rest })
        [if (s.link i j).hasRoom then .sent i j (.rreg typeName reg)
          else .dropped i j (.rreg typeName reg)]
  /-- A dialer starts its loops. -/
  | start {i j : ι} (hpushed : (s.link i j).phase = .pushing []) :
      Stepped s (.start i j) (s.setLink i j { s.link i j with phase := .up }) []
  /-- A frame is written. -/
  | write {i j : ι} {frame : OutFrame} {queue : List OutFrame} (hup : (s.link i j).phase = .up)
      (hqueue : (s.link i j).queue = frame :: queue) :
      Stepped s (.write i j) (s.setLink i j { s.link i j with
        queue := queue, wire := (s.link i j).wire ++ [frame] }) []
  /-- A frame is read. -/
  | receive {a : Action ι} {i peer : ι} {frame : OutFrame} {l : Link} {s' : Net ι}
      {es : List (Event ι)}
      (haction : (a = .read i peer ∧ (s.link peer i).wire.head? = some frame) ∨
        ∃ k, a = .readStale i peer k ∧ (s.link peer i).stale[k]? = some frame)
      (hread : Link.Read (s.link peer i) l frame)
      (hhandled : Handled C (s.setLink peer i l) i peer frame s' es) : Stepped s a s' es
  /-- A leftover frame vanishes. -/
  | vanish {i j : ι} {k : ℕ} :
      Stepped s (.vanish i j k)
        (s.setLink i j { s.link i j with stale := (s.link i j).stale.eraseIdx k }) []
  /-- A link is lost. -/
  | lose {i j : ι} :
      Stepped s (.lose i j)
        (s.setLink i j { stale := (s.link i j).stale ++ (s.link i j).wire }) []
  /-- A daemon restarts. -/
  | restart {i : ι} :
      Stepped s (.restart i) ⟨Function.update s.hub i (C.freshHub i), s.linksWithout i,
        Function.update s.tasks i []⟩ [.restarted i]

/-- Every element but the one that is taken out stays. -/
theorem mem_eraseIdx_or_eq {α : Type*} {l : List α} {k : ℕ} {x y : α} (hy : l[k]? = some y)
    (hx : x ∈ l) : x = y ∨ x ∈ l.eraseIdx k := by
  obtain ⟨n, hn⟩ := List.mem_iff_getElem?.mp hx
  by_cases hnk : n = k
  · rw [hnk, hy] at hn
    exact Or.inl (Option.some.inj hn).symm
  · exact Or.inr (List.mem_eraseIdx_iff_getElem?.mpr ⟨n, hnk, hn⟩)

/-- What is taken out of a list and what is left make up the list. -/
theorem cons_eraseIdx_perm {α : Type*} {l : List α} {k : ℕ} {x : α} (hx : l[k]? = some x) :
    (x :: l.eraseIdx k).Perm l := by
  obtain ⟨hlt, rfl⟩ := List.getElem?_eq_some_iff.mp hx
  exact List.getElem_cons_eraseIdx_perm hlt

/-- An element in the place of one that looks the same changes no look. -/
theorem map_set_of_eq {α β : Type*} {l : List α} {k : ℕ} {x y : α} {f : α → β}
    (hx : l[k]? = some x) (hf : f y = f x) : (l.set k y).map f = l.map f := by
  refine List.ext_getElem? fun n => ?_
  obtain ⟨hlt, _⟩ := List.getElem?_eq_some_iff.mp hx
  rw [List.getElem?_map, List.getElem?_map]
  by_cases hn : k = n
  · rw [← hn, List.getElem?_set_self hlt, hx, Option.map_some, Option.map_some, hf]
  · rw [List.getElem?_set_ne hn]

/-- Nor does it change a count. -/
theorem countP_set_of_eq {α : Type*} {l : List α} {k : ℕ} {x y : α} {p : α → Bool}
    (hx : l[k]? = some x) (hp : p y = p x) : (l.set k y).countP p = l.countP p := by
  have hmap := congrArg (List.countP id) (map_set_of_eq hx hp)
  rwa [List.countP_map, List.countP_map, Function.id_comp] at hmap

/-- Every step is one of these. -/
theorem stepped {s s' : Net ι} {a : Action ι} {es : List (Event ι)}
    (hstep : C.step s a = some (s', es)) : Stepped C s a s' es := by
  have hkeep : ∀ {h : Hub} (c : ℕ), (h.chan c).queue <:+ (h.chan c).queue :=
    fun c => List.suffix_refl _
  cases a with
  | publish i typeName key body =>
    simp only [step] at hstep
    split at hstep
    · next hguard =>
      simp only [Bool.and_eq_true, decide_eq_true_eq] at hguard
      obtain ⟨⟨htype, hkey⟩, hbody⟩ := hguard
      rcases hpub : (s.hub i).publishLocal typeName key body with ⟨e | msg, h⟩
      · rw [hpub] at hstep
        simp only [Option.some.injEq, Prod.mk.injEq] at hstep
        obtain ⟨rfl, rfl⟩ := hstep
        rw [Hub.publishLocal_error hpub]
        exact .connection ⟨rfl, rfl, rfl, rfl⟩ hkeep rfl
      · obtain ⟨⟨held, hheld, hkey'⟩, rfl, rfl⟩ := Hub.publishLocal_eq_ok_iff.mp hpub
        rw [hpub, hheld] at hstep
        simp only [Option.some.injEq, Prod.mk.injEq] at hstep
        obtain ⟨rfl, rfl⟩ := hstep
        exact .publish htype hbody hheld hkey' rfl (Hub.fanoutLocked_registry _ _)
          (Hub.fanoutLocked_queue _ _)
    · cases hstep
  | register i typeName key nowMs =>
    simp only [step] at hstep
    split at hstep
    · next hguard =>
      simp only [Bool.and_eq_true, decide_eq_true_eq] at hguard
      obtain ⟨⟨htype, hkey⟩, _⟩ := hguard
      by_cases hnone : (s.hub i).registry.types.lookup typeName = none
      · have hcreated := Registry.registerLocal_created_iff.mpr
          ⟨hnone, Eq.refl (TypeReg.mk key (s.hub i).registry.daemonId nowMs), rfl⟩
        rw [hcreated] at hstep
        simp only [Option.some.injEq, Prod.mk.injEq] at hstep
        obtain ⟨rfl, rfl⟩ := hstep
        exact .create htype hkey hnone rfl rfl rfl
      · have hsame : ((s.hub i).registry.registerLocal typeName key nowMs).2 = (s.hub i).registry :=
          Registry.registerLocal_unchanged hnone
        split at hstep
        · next reg registry hreg =>
          exact absurd (Registry.registerLocal_created_iff.mp hreg).1 hnone
        · next heq =>
          rw [heq] at hsame
          simp only [Option.some.injEq, Prod.mk.injEq] at hstep
          obtain ⟨rfl, rfl⟩ := hstep
          exact .connection (hsame ▸ .refl _) hkeep rfl
    · cases hstep
  | subscribe i conn typeName =>
    simp only [step] at hstep
    split at hstep
    · simp only [Option.some.injEq, Prod.mk.injEq] at hstep
      obtain ⟨rfl, rfl⟩ := hstep
      exact .connection ⟨rfl, rfl, rfl, rfl⟩ hkeep rfl
    · cases hstep
  | unsubscribe i conn typeName =>
    simp only [step, Option.some.injEq, Prod.mk.injEq] at hstep
    obtain ⟨rfl, rfl⟩ := hstep
    exact .connection (sameTables_unsubscribe _ _ _) hkeep rfl
  | disconnect i conn types =>
    simp only [step, Option.some.injEq, Prod.mk.injEq] at hstep
    obtain ⟨rfl, rfl⟩ := hstep
    refine .connection (sameTables_removeConn _ _ _) ?_ rfl
    intro c
    dsimp only
    rw [Function.update_apply]
    split
    · next heq => exact heq ▸ List.suffix_refl _
    · exact List.suffix_refl _
  | recv i conn =>
    simp only [step] at hstep
    split at hstep
    · cases hstep
    · next item queue hqueue =>
      simp only [Option.some.injEq, Prod.mk.injEq] at hstep
      obtain ⟨rfl, rfl⟩ := hstep
      refine .connection ⟨rfl, rfl, rfl, rfl⟩ ?_ rfl
      intro c
      dsimp only
      rw [Function.update_apply]
      split
      · next heq =>
        rw [heq, hqueue]
        exact List.suffix_cons item queue
      · exact List.suffix_refl _
  | fanOut i k =>
    simp only [step] at hstep
    split at hstep
    · next msg exclude htask =>
      simp only [Option.some.injEq, Prod.mk.injEq] at hstep
      obtain ⟨rfl, rfl⟩ := hstep
      exact .fanOut htask (Hub.fanoutLocked_registry _ _) (Hub.fanoutLocked_queue _ _)
    · cases hstep
  | broadcast i k =>
    simp only [step] at hstep
    split at hstep
    · next frame exclude htask =>
      rw [Option.some.injEq] at hstep
      have hbroadcast : Stepped C s (.broadcast i k) _ _ := .broadcast htask rfl
      rwa [hstep] at hbroadcast
    · cases hstep
  | insert i j =>
    simp only [step] at hstep
    split at hstep
    · next hguard =>
      simp only [Option.some.injEq, Prod.mk.injEq] at hstep
      obtain ⟨rfl, rfl⟩ := hstep
      exact .insert hguard.1 hguard.2
    · cases hstep
  | snapshot i j =>
    simp only [step] at hstep
    split at hstep
    · next hguard =>
      simp only [Option.some.injEq, Prod.mk.injEq] at hstep
      obtain ⟨rfl, rfl⟩ := hstep
      exact .snapshot hguard
    · cases hstep
  | push i j =>
    simp only [step] at hstep
    split at hstep
    · next hpushing =>
      simp only [Option.some.injEq, Prod.mk.injEq] at hstep
      obtain ⟨rfl, rfl⟩ := hstep
      exact .push hpushing
    · cases hstep
  | start i j =>
    simp only [step] at hstep
    split at hstep
    · next hguard =>
      simp only [Option.some.injEq, Prod.mk.injEq] at hstep
      obtain ⟨rfl, rfl⟩ := hstep
      exact .start hguard
    · cases hstep
  | write i j =>
    simp only [step] at hstep
    split at hstep
    · next hup hqueue =>
      simp only [Option.some.injEq, Prod.mk.injEq] at hstep
      obtain ⟨rfl, rfl⟩ := hstep
      exact .write hup hqueue
    · cases hstep
  | read i peer =>
    simp only [step] at hstep
    split at hstep
    · cases hstep
    · next frame wire hwire =>
      have hhandled := handled C (s.setLink peer i { s.link peer i with wire := wire }) i peer frame
      rw [Option.some.inj hstep] at hhandled
      have hread : Link.Read (s.link peer i) { s.link peer i with wire := wire } frame :=
        ⟨rfl, rfl, Or.inl ⟨hwire, rfl⟩⟩
      exact .receive (Or.inl ⟨rfl, by rw [hwire, List.head?_cons]⟩) hread hhandled
  | readStale i peer k =>
    simp only [step, Option.map_eq_some_iff] at hstep
    obtain ⟨frame, hframe, heq⟩ := hstep
    have hhandled := handled C (s.setLink peer i { s.link peer i with
      stale := (s.link peer i).stale.eraseIdx k }) i peer frame
    rw [heq] at hhandled
    have hread : Link.Read (s.link peer i)
        { s.link peer i with stale := (s.link peer i).stale.eraseIdx k } frame :=
      ⟨rfl, rfl, Or.inr ⟨rfl, k, hframe, rfl⟩⟩
    exact .receive (Or.inr ⟨k, rfl, hframe⟩) hread hhandled
  | vanish i j k =>
    simp only [step, Option.some.injEq, Prod.mk.injEq] at hstep
    obtain ⟨rfl, rfl⟩ := hstep
    exact .vanish
  | lose i j =>
    simp only [step, Option.some.injEq, Prod.mk.injEq] at hstep
    obtain ⟨rfl, rfl⟩ := hstep
    exact .lose
  | restart i =>
    simp only [step, Option.some.injEq, Prod.mk.injEq] at hstep
    obtain ⟨rfl, rfl⟩ := hstep
    exact .restart

section Forward

variable {C} {s : Net ι}

/-- A type is claimed. -/
theorem step_register {i : ι} {typeName key : Str} {nowMs : ℕ} (htype : validate.isValidType typeName = true)
    (hkey : validate.isValidKey key = true) (hnow : nowMs < u64Values)
    (hnone : (s.hub i).registry.types.lookup typeName = none) :
    C.step s (.register i typeName key nowMs) =
      some ((s.setHub i { s.hub i with registry := { (s.hub i).registry with
          types := (s.hub i).registry.types.insert typeName
            ⟨key, (s.hub i).registry.daemonId, nowMs⟩ } }).addTask i
          ⟨.rreg typeName ⟨key, (s.hub i).registry.daemonId, nowMs⟩, none, false⟩,
        [.created i typeName ⟨key, (s.hub i).registry.daemonId, nowMs⟩]) := by
  have hcreated := Registry.registerLocal_created_iff.mpr
    ⟨hnone, Eq.refl (TypeReg.mk key (s.hub i).registry.daemonId nowMs), rfl⟩
  simp only [Cluster.step, htype, hkey, hnow, hcreated, decide_true, Bool.and_self, if_true]

/-- A message is published. -/
theorem step_publish {i : ι} {typeName key : Str} {body : List Str} {msg : Message} {h : Hub}
    {held : TypeReg} (htype : validate.isValidType typeName = true)
    (hkey : validate.isValidKey key = true)
    (hbody : bodySize body ≤ (C.config i).limits.maxMessageBytes)
    (hheld : (s.hub i).registry.types.lookup typeName = some held)
    (hpublish : (s.hub i).publishLocal typeName key body = (.ok msg, h)) :
    C.step s (.publish i typeName key body) =
      some ((s.setHub i h).addTask i ⟨.feed msg, none, false⟩,
        [.published i key held msg ((s.hub i).recipients msg)]) := by
  simp only [Cluster.step, htype, hkey, hbody, hheld, hpublish, decide_true, Bool.and_self, if_true]

/-- A connection that is open subscribes. -/
theorem step_subscribe {i : ι} {conn : ℕ} {typeName : Str}
    (hopen : ((s.hub i).chan conn).isOpen = true) :
    C.step s (.subscribe i conn typeName) = some (s.setHub i { s.hub i with
      registry := (s.hub i).registry.subscribe typeName conn }, []) := by
  simp only [Cluster.step, hopen, if_true]

end Forward

end Cluster

end MacroBus
