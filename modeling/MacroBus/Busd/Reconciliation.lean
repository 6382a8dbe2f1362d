import Mathlib.Data.List.Perm.Subperm
import MacroBus.Busd.MessageIds
import MacroBus.Busd.Registrations

/-!
# Reconciliation on link-up

Between the snapshot and the start of the write loop every record of the table is
accounted for: it is queued, or still to be pushed, or in line for a broadcast, or was
learned from the peer. A record drops out only where it finds the queue full, and nothing
drains the queue in that time.
-/

namespace MacroBus

namespace Cluster

variable {ι : Type} {C : Cluster ι} {s s' start : Net ι} {a : Action ι}
  {past es : List (Event ι)} {i j : ι} {typeName : Str} {reg : TypeReg}

open Transition

/-- The link can do without this offer of the record, or has room for it. -/
def Spared (s : Net ι) (past : List (Event ι)) (i j : ι) (typeName : Str) (reg : TypeReg) : Prop :=
  (s.link i j).hasRoom ∨ .rreg typeName reg ∈ (s.link i j).queue ∨
    (s.hub i).registry.types.lookup typeName ≠ some reg ∨ .adopted i j typeName reg ∈ past

/-- While the records of the snapshot are pushed, no record is discarded that the peer
needs. -/
def sparesRecords (i j : ι) (s : Net ι) (past : List (Event ι)) : Action ι → Prop
  | .push a b => a = i → b = j → ∀ typeName reg rest,
      (s.link i j).phase = .pushing ((typeName, reg) :: rest) → Spared s past i j typeName reg
  | .broadcast a k => a = i → ∀ rest t typeName reg, (s.link i j).phase = .pushing rest →
      (s.tasks i)[k]? = some t → t.frame = .rreg typeName reg → t.exclude ≠ some j →
      Spared s past i j typeName reg
  | _ => True

/-- The link has the record, or its dialer is about to push it. -/
def Has (l : Link) (typeName : Str) (reg : TypeReg) : Prop :=
  .rreg typeName reg ∈ l.queue ∨ (typeName, reg) ∈ l.phase.rest

/-- The record will reach the peer, or came from there. -/
def Accounted (s : Net ι) (past : List (Event ι)) (i j : ι) (typeName : Str)
    (reg : TypeReg) : Prop :=
  Has (s.link i j) typeName reg ∨
    (∃ t ∈ s.tasks i, t.frame = .rreg typeName reg ∧ t.exclude ≠ some j) ∨
    .adopted i j typeName reg ∈ past

/-- An offer that is spared leaves the record accounted for. -/
theorem Spared.offer (h : Spared s past i j typeName reg)
    (hlookup : (s.hub i).registry.types.lookup typeName = some reg)
    (hpeer : (s.link i j).isPeer) :
    .rreg typeName reg ∈ ((s.link i j).offer (.rreg typeName reg)).queue ∨
      .adopted i j typeName reg ∈ past := by
  rcases h with hroom | hqueue | hother | hadopted
  · rw [Link.offer_queue, hpeer, hroom]
    exact Or.inl (List.mem_append_right _ (List.mem_singleton_self _))
  · exact Or.inl (Link.mem_offer_queue hqueue _)
  · exact absurd hlookup hother
  · exact Or.inr hadopted

/-- Offering a frame costs no record. -/
theorem Has.offer {l : Link} (h : Has l typeName reg) (frame : OutFrame) :
    Has (l.offer frame) typeName reg := by
  unfold Has
  rw [Link.offer_phase]
  rcases h with hqueue | hrest
  · exact Or.inl (Link.mem_offer_queue hqueue frame)
  · exact Or.inr hrest

variable [DecidableEq ι]

/-- **Nothing drains the queue before the write loop starts.** A record of the table that is
accounted for stays so as long as the snapshot is being pushed. -/
theorem Stepped.accounted (h : C.Stepped s a s' es) (hspares : sparesRecords i j s past a)
    {rest rest' : List (Str × TypeReg)} (hbefore : (s.link i j).phase = .pushing rest)
    (hafter : (s'.link i j).phase = .pushing rest')
    (hlookup : (s.hub i).registry.types.lookup typeName = some reg)
    (haccounted : Accounted s past i j typeName reg) :
    Accounted s' (past ++ es) i j typeName reg := by
  have hpeer : (s.link i j).isPeer := isPeer_of_snapshotted (by rw [hbefore]; rfl)
  -- A step that changes one link and takes no task.
  have hset : ∀ (x y : ι) (l : Link), s'.link = (s.setLink x y l).link →
      (∀ t ∈ s.tasks i, t ∈ s'.tasks i) →
      (i = x → j = y → l.phase = .pushing rest' → Has (s.link i j) typeName reg →
        Has l typeName reg ∨ .adopted i j typeName reg ∈ past) →
      Accounted s' (past ++ es) i j typeName reg := by
    intro x y l hlink htasks hself
    rcases haccounted with hhas | ⟨t, ht, hframe⟩ | hadopted
    · by_cases heq : i = x ∧ j = y
      · have hl : s'.link i j = l := by rw [hlink, Net.setLink_link, if_pos heq]
        rcases hself heq.1 heq.2 (hl ▸ hafter) hhas with h | h
        · exact Or.inl (hl ▸ h)
        · exact Or.inr (Or.inr (List.mem_append_left es h))
      · left
        rw [hlink, Net.setLink_link, if_neg heq]
        exact hhas
    · exact Or.inr (Or.inl ⟨t, htasks t ht, hframe⟩)
    · exact Or.inr (Or.inr (List.mem_append_left es hadopted))
  have hkeep : s'.link i j = s.link i j → (∀ t ∈ s.tasks i, t ∈ s'.tasks i) →
      Accounted s' (past ++ es) i j typeName reg := by
    intro hlink htasks
    unfold Accounted
    rw [hlink]
    rcases haccounted with hhas | ⟨t, ht, hframe⟩ | hadopted
    · exact Or.inl hhas
    · exact Or.inr (Or.inl ⟨t, htasks t ht, hframe⟩)
    · exact Or.inr (Or.inr (List.mem_append_left es hadopted))
  cases h with
  | connection hsame => exact hkeep rfl fun t ht => ht
  | publish => exact hkeep rfl fun t ht => Net.mem_tasks_addTask ht
  | create => exact hkeep rfl fun t ht => Net.mem_tasks_addTask ht
  | fanOut htask hregistry hqueue =>
    rename_i x k msg exclude h
    rcases haccounted with hhas | ⟨t, ht, hframe, hne⟩ | hadopted
    · exact Or.inl hhas
    · refine Or.inr (Or.inl ?_)
      rw [Net.setTasks_tasks]
      split
      · next hi =>
        obtain ⟨t', ht', hframe', hexclude⟩ :=
          (mem_tasks_fannedOut htask).mpr ⟨t, hi ▸ ht, hframe, rfl⟩
        exact ⟨t', ht', hframe', hexclude ▸ hne⟩
      · exact ⟨t, ht, hframe, hne⟩
    · exact Or.inr (Or.inr (List.mem_append_left _ hadopted))
  | broadcast htask hdone =>
    rename_i x k task
    rcases haccounted with hhas | ⟨t, ht, hframe, hne⟩ | hadopted
    · left
      rw [broadcast_link]
      split
      · exact hhas.offer task.frame
      · exact hhas
    · by_cases hi : i = x
      · subst hi
        rcases mem_eraseIdx_or_eq htask ht with rfl | hmem
        · have hspared := hspares rfl rest t typeName reg hbefore htask hframe hne
          rcases hspared.offer hlookup hpeer with hqueue | hadopted
          · refine Or.inl (Or.inl ?_)
            rw [broadcast_link, if_pos ⟨rfl, hne.symm⟩, hframe]
            exact hqueue
          · exact Or.inr (Or.inr (List.mem_append_left _ hadopted))
        · refine Or.inr (Or.inl ⟨t, ?_, hframe, hne⟩)
          rw [broadcast_tasks, Net.setTasks_tasks, if_pos rfl]
          exact hmem
      · refine Or.inr (Or.inl ⟨t, ?_, hframe, hne⟩)
        rw [broadcast_tasks, Net.setTasks_tasks, if_neg hi]
        exact ht
    · exact Or.inr (Or.inr (List.mem_append_left _ hadopted))
  | push hpushing =>
    refine hset _ _ _ rfl (fun t ht => ht) ?_
    rintro rfl rfl _ (hqueue | hmem)
    · exact Or.inl (Or.inl (Link.mem_offer_queue hqueue _))
    · rw [hpushing] at hmem
      rcases List.mem_cons.mp hmem with heq | hmem
      · obtain ⟨rfl, rfl⟩ := Prod.mk.inj heq
        have hspared := hspares rfl rfl _ _ _ hpushing
        rcases hspared.offer hlookup hpeer with hqueue | hadopted
        · exact Or.inl (Or.inl hqueue)
        · exact Or.inr hadopted
      · exact Or.inl (Or.inr hmem)
  | receive haction hread hhandled =>
    refine hset _ _ _ hhandled.link (fun t ht => hhandled.tasks ht) ?_
    rintro rfl rfl _ (hqueue | hmem)
    · exact Or.inl (Or.inl (hread.queue ▸ hqueue))
    · exact Or.inl (Or.inr (hread.phase ▸ hmem))
  | vanish =>
    refine hset _ _ _ rfl (fun t ht => ht) ?_
    rintro rfl rfl _ hhas
    exact Or.inl hhas
  | snapshot hinserted =>
    refine hset _ _ _ rfl (fun t ht => ht) ?_
    rintro rfl rfl _ _
    rw [hinserted] at hbefore
    cases hbefore
  | write hup hqueue =>
    refine hset _ _ _ rfl (fun t ht => ht) ?_
    rintro rfl rfl _ _
    rw [hup] at hbefore
    cases hbefore
  | insert | start | lose =>
    refine hset _ _ _ rfl (fun t ht => ht) ?_
    rintro rfl rfl hphase _
    cases hphase
  | restart =>
    rename_i x
    simp only [Net.linksWithout] at hafter
    split at hafter
    · cases hafter
    · split at hafter
      · cases hafter
      · next hj hi =>
        refine hkeep (by simp only [Net.linksWithout, if_neg hj, if_neg hi]) ?_
        intro t ht
        dsimp only
        rw [Function.update_of_ne hi]
        exact ht

/-- Every record of the table is accounted for while the snapshot is being pushed. -/
def Reconciling (i j : ι) (s : Net ι) (past : List (Event ι)) : Prop :=
  ∀ rest, (s.link i j).phase = .pushing rest → ∀ typeName reg,
    (s.hub i).registry.types.lookup typeName = some reg → Accounted s past i j typeName reg

/-- A step that discards no record keeps them accounted for. -/
theorem Reconciling.step (hinv : Reconciling i j s past) (hstepped : C.Stepped s a s' es)
    (hspares : sparesRecords i j s past a) : Reconciling i j s' (past ++ es) := by
  intro rest' hafter typeName reg hlookup
  rcases hstepped.tables.lookup hlookup with hheld | ⟨_, htask⟩ | ⟨peer, hadopted, _, htask⟩
  · rcases (hstepped.phase i j).pushing hafter with ⟨rest, hbefore⟩ | ⟨_, rfl⟩
    · have haccounted := hinv rest hbefore typeName reg hheld
      exact hstepped.accounted hspares hbefore hafter hheld haccounted
    · refine Or.inl (Or.inr ?_)
      rw [hafter]
      exact Registry.mem_allRegistrations.mpr hheld
  · exact Or.inr (Or.inl ⟨_, htask, rfl, by simp⟩)
  · by_cases hpeer : peer = j
    · subst hpeer
      exact Or.inr (Or.inr (List.mem_append_right past hadopted))
    · exact Or.inr (Or.inl ⟨_, htask, rfl, by simpa using hpeer⟩)

/-- **Reconciliation is complete where no record is discarded.** From any state in which the
link is down, in every run that discards no record that the peer needs, the queue has every
record of the table at the moment the write loop starts, save those learned from the peer. -/
theorem reconciliation_complete (hdown : (start.link i j).phase = .down)
    (hrun : Run C.step (sparesRecords i j) start s past)
    (hsettled : ∀ t ∈ s.tasks i, t.frame.isRreg = false)
    (hstart : C.step s (.start i j) = some (s', es))
    (hlookup : (s'.hub i).registry.types.lookup typeName = some reg) :
    .rreg typeName reg ∈ (s'.link i j).queue ∨ .adopted i j typeName reg ∈ past := by
  have hinv : Reconciling i j s past := by
    refine Run.invariant (I := Reconciling i j) ?_ ?_ hrun
    · intro rest hpushing
      rw [hdown] at hpushing
      cases hpushing
    · intro s past a s' es hinv hspares hstep
      exact hinv.step (stepped C hstep) hspares
  have hpushed : (s.link i j).phase = .pushing [] := by
    by_contra hnot
    simp [Cluster.step, hnot] at hstart
  simp only [Cluster.step, if_pos hpushed, Option.some.injEq, Prod.mk.injEq] at hstart
  obtain ⟨rfl, rfl⟩ := hstart
  rw [Net.setLink_link_self]
  rcases hinv [] hpushed typeName reg hlookup with (hqueue | hrest) | ⟨t, ht, hframe, _⟩ | hadopted
  · exact Or.inl hqueue
  · rw [hpushed] at hrest
    cases hrest
  · have hrreg := hsettled t ht
    rw [hframe] at hrreg
    cases hrreg
  · exact Or.inr hadopted

/-- A type is claimed while the link comes up. -/
def racingTrace : List (Action Bool) :=
  [.register false "t1".toList "k".toList 1, .insert false true,
    .register false "t2".toList "k".toList 2, .broadcast false 0, .snapshot false true,
    .register false "t3".toList "k".toList 3, .push false true, .broadcast false 1,
    .push false true, .broadcast false 0]

/-- The claim is queued with the others. -/
theorem reconciliation_complete_racing :
    ∃ (s s' : Net Bool) (past es : List (Event Bool)),
      Run pair.step (sparesRecords false true) pair.initial s past ∧
      (∀ t ∈ s.tasks false, t.frame.isRreg = false) ∧
      pair.step s (.start false true) = some (s', es) ∧
      (.rreg "t3".toList ⟨"k".toList, "d1".toList, 3⟩ ∈ (s'.link false true).queue ∨
        .adopted false true "t3".toList ⟨"k".toList, "d1".toList, 3⟩ ∈ past) := by
  obtain ⟨s, past, hrun, hsettled, hstart⟩ :=
    exists_run pair.step (fun s _ _ => (s.link false true).hasRoom) pair.initial racingTrace
      (P := fun s _ => (∀ t ∈ s.tasks false, t.frame.isRreg = false) ∧
        ((pair.step s (.start false true)).any fun p =>
          (p.1.hub false).registry.types.lookup "t3".toList =
            some ⟨"k".toList, "d1".toList, 3⟩) = true) (by decide)
  obtain ⟨⟨s', es⟩, hstep, hlookup⟩ := (Option.any_eq_true _ _).mp hstart
  have hspares : Run pair.step (sparesRecords false true) pair.initial s past := by
    refine hrun.weaken ?_
    intro s past a hroom
    cases a with
    | push => exact fun _ _ _ _ _ _ => Or.inl hroom
    | broadcast => exact fun _ _ _ _ _ _ _ _ _ => Or.inl hroom
    | _ => trivial
  exact ⟨s, s', past, es, hspares, hsettled, hstep,
    reconciliation_complete rfl hspares hsettled hstep (of_decide_eq_true hlookup)⟩

section Overflow

/-- The name of the type with this number. -/
def typeNumber (n : ℕ) : Str := 't' :: lowerHex n

/-- The name of a type by its number is valid. -/
theorem isValidType_typeNumber (n : ℕ) : validate.isValidType (typeNumber n) = true := by
  have hdigit : ∀ d < 16, validate.isTchar (Nat.digitChar d) = true := by decide
  have hall : (typeNumber n).all validate.isTchar = true := by
    refine List.all_eq_true.mpr ?_
    intro c hc
    rcases List.mem_cons.mp hc with rfl | hc
    · decide
    · obtain ⟨d, hd, rfl⟩ := exists_of_mem_lowerHex hc
      exact hdigit d hd
  simpa [validate.isValidType, typeNumber] using hall

/-- A daemon knows the types below a number, all of its own, and no link has come up. -/
structure Stocked (i : ι) (n : ℕ) (s : Net ι) (past : List (Event ι)) : Prop where
  /-- There are as many types. -/
  length : (s.hub i).registry.types.keys.length = n
  /-- The others are unknown. -/
  fresh : ∀ m, n ≤ m → (s.hub i).registry.types.lookup (typeNumber m) = none
  /-- All links are down. -/
  links : ∀ a b, s.link a b = {}
  /-- Nothing awaits its broadcast. -/
  tasks : ∀ a, s.tasks a = []
  /-- No record was learned from a peer. -/
  own : ∀ a peer typeName reg, .adopted a peer typeName reg ∉ past

/-- Tables of every size are reached. -/
theorem exists_stocked (C : Cluster ι) (i : ι) (n : ℕ) :
    ∃ s past, Run C.step anyStep C.initial s past ∧ Stocked i n s past := by
  induction n with
  | zero =>
    exact ⟨C.initial, [], .init, rfl, fun _ _ => rfl, fun _ _ => rfl, fun _ => rfl, by simp⟩
  | succ n ih =>
    obtain ⟨s, past, hrun, hstocked⟩ := ih
    have hnone := hstocked.fresh n (le_refl n)
    have hregister := step_register (C := C) (isValidType_typeNumber n)
      (show validate.isValidKey "k".toList = true by decide)
      (show 0 < u64Values by decide) hnone
    generalize hreg : TypeReg.mk "k".toList (s.hub i).registry.daemonId 0 = reg at hregister
    generalize hs : (s.setHub i _).addTask i _ = s₁ at hregister
    have hregistered := Run.step hrun trivial hregister
    have htask : s₁.tasks i = [⟨.rreg (typeNumber n) reg, none, false⟩] := by
      rw [← hs, Net.addTask_tasks, if_pos rfl, Net.setHub_tasks, hstocked.tasks i, List.nil_append]
    have hbroadcast : C.step s₁ (.broadcast i 0) =
        some (C.broadcast (s₁.setTasks i []) i (.rreg (typeNumber n) reg) none) := by
      simp only [Cluster.step, htask]
      rfl
    refine ⟨(C.broadcast (s₁.setTasks i []) i (.rreg (typeNumber n) reg) none).1,
      past ++ [.created i (typeNumber n) reg] ++
        (C.broadcast (s₁.setTasks i []) i (.rreg (typeNumber n) reg) none).2,
      .step hregistered trivial hbroadcast, ?_⟩
    have hlinks : ∀ a b, s₁.link a b = {} := by
      intro a b
      rw [← hs]
      exact hstocked.links a b
    have htypes : (s₁.hub i).registry.types =
        (s.hub i).registry.types.insert (typeNumber n) reg := by
      rw [← hs, Net.addTask_hub, Net.setHub_hub_self]
    constructor
    · rw [broadcast_hub, Net.setTasks_hub, htypes, AList.keys,
        AList.entries_insert_of_notMem (AList.lookup_eq_none.mp hnone), List.keys_cons,
        List.length_cons]
      exact congrArg (· + 1) hstocked.length
    · intro m hm
      have hne : typeNumber m ≠ typeNumber n := by
        intro heq
        have := lowerHex_injective (List.cons.inj heq).2
        omega
      rw [broadcast_hub, Net.setTasks_hub, htypes, AList.lookup_insert_ne hne]
      exact hstocked.fresh m (by omega)
    · intro a b
      rw [broadcast_link, Net.setTasks_link, hlinks]
      split <;> rfl
    · intro a
      rw [broadcast_tasks, Net.setTasks_tasks]
      split
      · rfl
      · next ha =>
        rw [← hs, Net.addTask_tasks, if_neg ha]
        exact hstocked.tasks a
    · intro a peer typeName reg hmem
      rcases List.mem_append.mp hmem with hmem | hmem
      · rcases List.mem_append.mp hmem with hmem | hmem
        · exact hstocked.own a peer typeName reg hmem
        · simp at hmem
      · obtain ⟨b, _, heq⟩ := List.mem_map.mp hmem
        split at heq <;> cases heq

/-- A dialer pushes all its records into a queue that nothing drains. -/
theorem exists_pushed (hrun : Run C.step anyStep start s past) {rest : List (Str × TypeReg)}
    (hpushing : (s.link i j).phase = .pushing rest)
    (hdepth : (s.link i j).queue.length ≤ PEER_QUEUE_DEPTH) :
    ∃ s' es, Run C.step anyStep start s' (past ++ es) ∧ s'.hub = s.hub ∧ s'.tasks = s.tasks ∧
      (s'.link i j).phase = .pushing [] ∧ (s'.link i j).queue.length ≤ PEER_QUEUE_DEPTH ∧
      ∀ e ∈ es, e.isTable = false := by
  induction rest generalizing s past with
  | nil => exact ⟨s, [], by rwa [List.append_nil], rfl, rfl, hpushing, hdepth, by simp⟩
  | cons record rest ih =>
    obtain ⟨typeName, reg⟩ := record
    have hstep : C.step s (.push i j) = some (s.setLink i j
        { (s.link i j).offer (.rreg typeName reg) with phase := .pushing rest },
        [if (s.link i j).hasRoom then .sent i j (.rreg typeName reg)
          else .dropped i j (.rreg typeName reg)]) := by
      simp only [Cluster.step, hpushing]
    obtain ⟨s', es, hrun', hhub, htasks, hphase, hlength, hes⟩ := ih (.step hrun trivial hstep)
      (by rw [Net.setLink_link_self]) (by
        rw [Net.setLink_link_self]
        exact Link.offer_length hdepth _)
    refine ⟨s', _ ++ es, by rwa [← List.append_assoc], hhub, htasks, hphase, hlength, ?_⟩
    intro e he
    rcases List.mem_append.mp he with he | he
    · rw [List.mem_singleton.mp he]
      split <;> rfl
    · exact hes e he

/-- The type a frame is about. -/
def typeOf : OutFrame → Str
  | .feed msg => msg.typeName
  | .rreg typeName _ => typeName

/-- **A table larger than the queue is not pushed completely.** -/
theorem table_overflows (C : Cluster ι) {i j : ι} (hpeer : j ∈ C.peers i) {n : ℕ}
    (hlarge : PEER_QUEUE_DEPTH < n) :
    ∃ s s' past es typeName reg, Run C.step anyStep C.initial s past ∧ (∀ a, s.tasks a = []) ∧
      (∀ a peer typeName reg, .adopted a peer typeName reg ∉ past) ∧
      C.step s (.start i j) = some (s', es) ∧
      (s'.hub i).registry.types.keys.length = n ∧
      (s'.hub i).registry.types.lookup typeName = some reg ∧
      .rreg typeName reg ∉ (s'.link i j).queue := by
  obtain ⟨s, past, hrun, hstocked⟩ := exists_stocked C i n
  have hinsert : C.step s (.insert i j) = some (s.setLink i j { phase := .inserted }, []) := by
    simp only [Cluster.step, hstocked.links, hpeer, true_and, if_true]
  have hsnapshot : C.step (s.setLink i j { phase := .inserted }) (.snapshot i j) =
      some ((s.setLink i j { phase := .inserted }).setLink i j
        { phase := .pushing (s.hub i).registry.allRegistrations }, []) := by
    simp only [Cluster.step, Net.setLink_link_self, if_true, Net.setLink_hub]
  have hdialed := Run.step (Run.step hrun trivial hinsert) trivial hsnapshot
  obtain ⟨s₁, es, hrun₁, hhub, htasks, hphase, hlength, hes⟩ :=
    exists_pushed hdialed (i := i) (j := j) (by rw [Net.setLink_link_self])
      (by rw [Net.setLink_link_self]; exact Nat.zero_le _)
  have hstart : C.step s₁ (.start i j) =
      some (s₁.setLink i j { s₁.link i j with phase := .up }, []) := by
    simp only [Cluster.step, hphase, if_true]
  -- The queue is too short for all types, so one of them is missing.
  have hmissing : ∃ typeName ∈ (s.hub i).registry.types.keys,
      typeName ∉ (s₁.link i j).queue.map typeOf := by
    by_contra hall
    push Not at hall
    have hle := (List.subperm_of_subset (s.hub i).registry.types.keys_nodup hall).length_le
    rw [hstocked.length, List.length_map] at hle
    omega
  obtain ⟨typeName, hkey, hnot⟩ := hmissing
  obtain ⟨reg, hlookup⟩ := Option.isSome_iff_exists.mp (AList.lookup_isSome.mpr hkey)
  refine ⟨s₁, _, _, [], typeName, reg, hrun₁, ?_, ?_, hstart, ?_, ?_, ?_⟩
  · intro a
    rw [htasks]
    exact hstocked.tasks a
  · intro a peer typeName reg hmem
    rw [List.append_nil, List.append_nil] at hmem
    rcases List.mem_append.mp hmem with hmem | hmem
    · exact hstocked.own a peer typeName reg hmem
    · cases hes _ hmem
  · rw [Net.setLink_hub, hhub]
    exact hstocked.length
  · rw [Net.setLink_hub, hhub]
    exact hlookup
  · rw [Net.setLink_link_self]
    intro hmem
    exact hnot (List.mem_map.mpr ⟨_, hmem, rfl⟩)

/-- One record more than the queue holds is one too many. -/
theorem record_is_discarded :
    ∃ (s s' : Net Bool) (past es : List (Event Bool)) (typeName : Str) (reg : TypeReg),
      Run pair.step anyStep pair.initial s past ∧ (∀ a, s.tasks a = []) ∧
      (∀ a peer typeName reg, .adopted a peer typeName reg ∉ past) ∧
      pair.step s (.start false true) = some (s', es) ∧
      (s'.hub false).registry.types.keys.length = 4097 ∧
      (s'.hub false).registry.types.lookup typeName = some reg ∧
      .rreg typeName reg ∉ (s'.link false true).queue :=
  table_overflows pair (by decide) (by decide)

end Overflow

end Cluster

end MacroBus
