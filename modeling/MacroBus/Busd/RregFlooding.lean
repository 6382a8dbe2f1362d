import Mathlib.Algebra.BigOperators.Group.Finset.Piecewise
import Mathlib.Algebra.BigOperators.Ring.Finset
import Mathlib.Algebra.Group.Action.Defs
import Mathlib.Algebra.Order.BigOperators.Group.Finset
import Mathlib.Tactic.Ring
import MacroBus.Busd.Registrations
import MacroBus.Busd.Totals

/-!
# Registration flooding dies out

A registration goes on only where it lowered the rank of what a table holds, and the records
under way are never new ones. So a daemon forwards records of a type at most as often as
there are ranks to go through, and each of these forwards puts finitely many frames under way.
-/

namespace MacroBus

/-- The record the frame carries, with its type. -/
def OutFrame.record : OutFrame → Option (Str × TypeReg)
  | .feed _ => none
  | .rreg typeName reg => some (typeName, reg)

/-- The frame carries a registration of this type. -/
def OutFrame.registers (typeName : Str) : OutFrame → Bool
  | .feed _ => false
  | .rreg other _ => other = typeName

/-- The records on a link, and those still to be pushed. -/
def Link.records (l : Link) : List (Str × TypeReg) :=
  (l.queue ++ l.wire ++ l.stale).filterMap OutFrame.record ++ l.phase.rest

/-- How many moves the registrations on a link can still make: a record of a snapshot is
pushed, written, and read. -/
def Link.load (l : Link) : ℕ :=
  3 * l.phase.rest.length + 2 * l.queue.countP OutFrame.isRreg +
    (l.wire.countP OutFrame.isRreg + l.stale.countP OutFrame.isRreg)

namespace Net

variable {ι : Type} (s : Net ι)

/-- The frame a step moves on: out of a call, a snapshot, a queue, or a wire. -/
def moved : Action ι → Option OutFrame
  | .fanOut i k | .broadcast i k => (s.tasks i)[k]?.map Task.frame
  | .push i j => (s.link i j).phase.rest.head?.map fun record => .rreg record.1 record.2
  | .write i j => (s.link i j).queue.head?
  | .read i peer => (s.link peer i).wire.head?
  | .readStale i peer k => (s.link peer i).stale[k]?
  | _ => none

/-- The step moves a registration. -/
def movesRreg (a : Action ι) : Bool := (s.moved a).any OutFrame.isRreg

/-- The step is a broadcast of a registration of the type by the daemon. -/
def forwards [DecidableEq ι] (i : ι) (typeName : Str) : Action ι → Bool
  | .broadcast j k =>
    decide (j = i) && ((s.tasks j)[k]?.any fun t => t.frame.registers typeName)
  | _ => false

/-- The step brings registrations under way: a type is claimed, a link comes up, or a daemon
restarts without its table. -/
def Seeds : Action ι → Prop
  | .register i typeName _ _ => (s.hub i).registry.types.lookup typeName = none
  | .snapshot _ _ | .restart _ => True
  | _ => False

/-- The broadcasts of registrations of a type that are pending at a daemon. -/
def pendingOf (i : ι) (typeName : Str) : ℕ :=
  (s.tasks i).countP fun t => t.frame.registers typeName

variable [Fintype ι]

/-- All records of the cluster, in tables and under way. -/
def records [DecidableEq ι] : Finset (Str × TypeReg) :=
  Finset.univ.biUnion fun i =>
    ((s.hub i).registry.allRegistrations ++
      (s.tasks i).filterMap fun t => t.frame.record).toFinset ∪
    Finset.univ.biUnion fun j => (s.link i j).records.toFinset

/-- The distinct `(ts, origin)` pairs present for a type. -/
def pairs [DecidableEq ι] (typeName : Str) : Finset (ℕ ×ₗ Str) :=
  (s.records.filter fun record => record.1 = typeName).image fun record => record.2.tuple

/-- The moves that the registrations on the links can still make. -/
def load : ℕ := ∑ i, ∑ j, (s.link i j).load

end Net

section Links

variable {l l' : Link} {f frame : OutFrame} {typeName : Str} {reg : TypeReg}

/-- A frame carries a record if it is its registration. -/
theorem OutFrame.record_eq_some_iff : f.record = some (typeName, reg) ↔ f = .rreg typeName reg := by
  cases f with
  | feed msg => simp [OutFrame.record]
  | rreg other reg' => simp [OutFrame.record]

/-- The records on a link. -/
theorem Link.mem_records : (typeName, reg) ∈ l.records ↔
    l.Holds (.rreg typeName reg) ∨ (typeName, reg) ∈ l.phase.rest := by
  unfold Link.records Link.Holds
  simp only [List.mem_append, List.mem_filterMap, OutFrame.record_eq_some_iff, or_assoc,
    exists_eq_right]

/-- One element less. -/
theorem countP_eraseIdx {α : Type*} {p : α → Bool} {as : List α} {k : ℕ} {a : α}
    (h : as[k]? = some a) : (as.eraseIdx k).countP p + (p a).toNat = as.countP p := by
  obtain ⟨hk, rfl⟩ := List.getElem?_eq_some_iff.mp h
  have hperm := (List.getElem_cons_eraseIdx_perm hk).countP_eq p
  rw [← hperm, List.countP_cons]
  cases p as[k] <;> rfl

/-- An offer brings at most two moves. -/
theorem Link.load_offer (l : Link) (f : OutFrame) :
    (l.offer f).load ≤ l.load + 2 * f.isRreg.toNat := by
  unfold Link.load
  rw [Link.offer_queue, Link.offer_phase, Link.offer_wire, Link.offer_stale]
  split
  · rw [List.countP_append, List.countP_singleton]
    cases f.isRreg <;> simp +arith
  · omega

/-- A frame that is read is off the link. -/
theorem Link.Read.load (h : Link.Read l l' f) : l'.load + f.isRreg.toNat = l.load := by
  unfold Link.load
  rw [h.phase, h.queue]
  rcases h.frames with ⟨hwire, hstale⟩ | ⟨hwire, k, hk, hstale⟩
  · rw [hwire, hstale, List.countP_cons]
    cases f.isRreg <;> simp +arith
  · have herase := countP_eraseIdx (p := OutFrame.isRreg) hk
    rw [hwire, hstale]
    omega

end Links

section Nets

variable {ι : Type} [DecidableEq ι] [Fintype ι] {C : Cluster ι} {s s' : Net ι} {a : Action ι}
  {es : List (Event ι)} {l : Link} {f frame : OutFrame} {i j peer : ι} {typeName : Str}
  {reg : TypeReg} {P : Finset (ℕ ×ₗ Str)}

/-- The records of a cluster. -/
theorem Net.mem_records : (typeName, reg) ∈ s.records ↔
    ∃ i, (s.hub i).registry.types.lookup typeName = some reg ∨ s.Emits i typeName reg := by
  unfold Net.records Net.Emits Net.Pending
  simp only [Finset.mem_biUnion, Finset.mem_univ, true_and, Finset.mem_union, List.mem_toFinset,
    List.mem_append, Registry.mem_allRegistrations, Link.mem_records, List.mem_filterMap,
    OutFrame.record_eq_some_iff]
  refine exists_congr fun i => ?_
  rw [or_assoc, or_comm (a := ∃ t ∈ s.tasks i, _)]

/-- The tuple of a record is among the pairs of its type. -/
theorem Net.mem_pairs (h : (typeName, reg) ∈ s.records) : reg.tuple ∈ s.pairs typeName :=
  Finset.mem_image.mpr ⟨(typeName, reg), Finset.mem_filter.mpr ⟨h, rfl⟩, rfl⟩

/-- The scale on which only links weigh anything: what they carry. -/
def rregScale (ι : Type) : Scale ι := ⟨fun _ _ => 0, fun _ _ => 0, fun _ _ => Link.load⟩

omit [DecidableEq ι] in
/-- What a cluster weighs on it is its load. -/
theorem Net.load_eq_total (s : Net ι) : s.load = (rregScale ι).total s := by
  have hhubs : (rregScale ι).hubs s = 0 := Finset.sum_eq_zero fun _ _ => rfl
  have htasks : (rregScale ι).tasks s = 0 := Finset.sum_eq_zero fun _ _ => by
    simp [rregScale]
  unfold Scale.total
  rw [hhubs, htasks, Nat.zero_add]
  rfl

/-- Replacing a link changes the load by what it carries. -/
theorem Net.load_setLink (s : Net ι) (i j : ι) (l : Link) :
    (s.setLink i j l).load + (s.link i j).load = s.load + l.load := by
  have hset := Scale.total_setLink (w := rregScale ι) (s := s) i j l
  rw [Net.load_eq_total, Net.load_eq_total]
  exact hset

/-- A broadcast of a registration brings at most two moves for each link. -/
theorem Net.load_broadcast (s : Net ι) (i : ι) (f : OutFrame) (exclude : Option ι) :
    (C.broadcast s i f exclude).1.load ≤ s.load + 2 * Fintype.card ι * f.isRreg.toNat := by
  have hmore := Scale.total_broadcast_le (w := rregScale ι) (s := s) C i f exclude
    (fun _ => 2 * f.isRreg.toNat) fun j _ => Link.load_offer (s.link i j) f
  have hcard : ∑ j with some j ≠ exclude, 2 * f.isRreg.toNat ≤
      2 * Fintype.card ι * f.isRreg.toNat := by
    calc ∑ j with some j ≠ exclude, 2 * f.isRreg.toNat
        ≤ ∑ _j : ι, 2 * f.isRreg.toNat :=
          Finset.sum_le_sum_of_subset (Finset.filter_subset _ _)
      _ = 2 * Fintype.card ι * f.isRreg.toNat := by
          rw [Finset.sum_const, Finset.card_univ, smul_eq_mul]
          ring
  rw [Net.load_eq_total, Net.load_eq_total]
  omega

omit [Fintype ι] in
/-- No record is new. -/
theorem Cluster.Stepped.not_created (h : C.Stepped s a s' es) (hseed : ¬s.Seeds a) :
    .created i typeName reg ∉ es := by
  cases h with
  | create htype hvalid hnone => exact absurd hnone hseed
  | broadcast htask =>
    intro he
    obtain ⟨j, _, heq⟩ := List.mem_map.mp he
    split at heq <;> cases heq
  | push hpushing =>
    intro he
    have heq := List.mem_singleton.mp he
    split at heq <;> cases heq
  | receive haction hread hhandled => cases hhandled <;> simp
  | _ => simp

/-- **Records are passed on, not made up**, unless new ones are brought under way. -/
theorem Cluster.Stepped.records (h : C.Stepped s a s' es) (hseed : ¬s.Seeds a)
    (hmem : (typeName, reg) ∈ s'.records) : (typeName, reg) ∈ s.records := by
  rw [Net.mem_records] at hmem ⊢
  have htable : ∀ i, (s'.hub i).registry.types.lookup typeName = some reg →
      ∃ i, (s.hub i).registry.types.lookup typeName = some reg ∨ s.Emits i typeName reg := by
    intro i hlookup
    rcases h.tables.lookup hlookup with hbefore | ⟨hcreated, _⟩ | ⟨peer, _, hemits, _⟩
    · exact ⟨i, Or.inl hbefore⟩
    · exact absurd hcreated (h.not_created hseed)
    · exact ⟨peer, Or.inr hemits⟩
  obtain ⟨i, hlookup | hemits⟩ := hmem
  · exact htable i hlookup
  · rcases h.emits hemits with hbefore | hafter | hbefore
    · exact ⟨i, Or.inr hbefore⟩
    · exact htable i hafter
    · exact ⟨i, Or.inl hbefore⟩

end Nets

section Potential

variable {ι : Type} [DecidableEq ι] {C : Cluster ι} {s s' : Net ι} {a : Action ι}
  {es : List (Event ι)} {i j : ι} {typeName other : Str} {reg : TypeReg} {r r' : Registry}
  {P : Finset (ℕ ×ₗ Str)} {t : Task ι}

/-- How many of these tuples beat the record held for a type. -/
def Registry.better (P : Finset (ℕ ×ₗ Str)) (r : Registry) (typeName : Str) : ℕ :=
  (P.filter fun p : ℕ ×ₗ Str => (p : WithTop (ℕ ×ₗ Str)) < r.rank typeName).card

/-- How many broadcasts of registrations of a type a daemon can still make: those that are
pending, and one for each tuple that beats its record. -/
def Net.toForward (P : Finset (ℕ ×ₗ Str)) (s : Net ι) (i : ι) (typeName : Str) : ℕ :=
  (s.hub i).registry.better P typeName + s.pendingOf i typeName

/-- With the same table as many tuples are better. -/
theorem Registry.better_congr (h : r'.types = r.types) :
    r'.better P typeName = r.better P typeName := by
  unfold Registry.better
  rw [Registry.rank_congr h]

/-- Entering a record that beats the table uses up its tuple. -/
theorem Registry.better_insert (hmem : reg.tuple ∈ P)
    (hlt : (reg.tuple : WithTop (ℕ ×ₗ Str)) < r.rank typeName)
    (h : r'.types = r.types.insert typeName reg) :
    r'.better P typeName + 1 ≤ r.better P typeName := by
  unfold Registry.better
  rw [Registry.rank_insert h, if_pos rfl]
  refine Nat.succ_le_of_lt (Finset.card_lt_card ?_)
  rw [Finset.ssubset_iff_of_subset]
  · refine ⟨reg.tuple, Finset.mem_filter.mpr ⟨hmem, hlt⟩, fun hin => ?_⟩
    exact lt_irrefl _ (Finset.mem_filter.mp hin).2
  · intro p hp
    obtain ⟨hpP, hp⟩ := Finset.mem_filter.mp hp
    exact Finset.mem_filter.mpr ⟨hpP, hp.trans hlt⟩

/-- Entering a record for another type changes nothing. -/
theorem Registry.better_insert_ne (hne : typeName ≠ other)
    (h : r'.types = r.types.insert other reg) :
    r'.better P typeName = r.better P typeName := by
  unfold Registry.better
  rw [Registry.rank_insert h, if_neg hne]

/-- One more call to broadcast. -/
theorem Net.pendingOf_addTask (s : Net ι) (i j : ι) (t : Task ι) (typeName : Str) :
    (s.addTask i t).pendingOf j typeName = s.pendingOf j typeName +
      (decide (i = j) && t.frame.registers typeName).toNat := by
  unfold Net.pendingOf
  rw [Net.addTask_tasks]
  by_cases hj : j = i
  · rw [if_pos hj, decide_eq_true hj.symm, List.countP_append, List.countP_singleton]
    cases t.frame.registers typeName <;> rfl
  · rw [if_neg hj, decide_eq_false (Ne.symm hj)]
    rfl

omit [DecidableEq ι] in
/-- With the same table and the same calls as much is left to forward. -/
theorem Net.toForward_congr (htypes : (s'.hub i).registry.types = (s.hub i).registry.types)
    (htasks : s'.tasks i = s.tasks i) :
    s'.toForward P i typeName = s.toForward P i typeName := by
  unfold Net.toForward Net.pendingOf
  rw [Registry.better_congr htypes, htasks]

/-- A message that is to be broadcast leaves as many registrations to forward. -/
theorem Net.toForward_addFeed {h : Hub} {k : ι} {msg : Message} {exclude : Option ι}
    {ingesting : Bool} (htypes : h.registry.types = (s.hub k).registry.types) :
    ((s.setHub k h).addTask k ⟨.feed msg, exclude, ingesting⟩).toForward P i typeName =
      s.toForward P i typeName := by
  unfold Net.toForward
  rw [Net.pendingOf_addTask, Net.addTask_hub, Net.setHub_hub]
  have hsame : ((if i = k then h else s.hub i).registry).better P typeName =
      (s.hub i).registry.better P typeName := by
    split
    · next hi => rw [hi, Registry.better_congr htypes]
    · rfl
  rw [hsame]
  simp [OutFrame.registers, Net.pendingOf]

/-- **Forwards use up what is left to forward**: no step raises it, and a broadcast lowers
it, unless new registrations are brought under way. -/
theorem Cluster.Stepped.toForward [Fintype ι] (h : C.Stepped s a s' es) (hseed : ¬s.Seeds a)
    (hP : ∀ reg, (typeName, reg) ∈ s.records → reg.tuple ∈ P) :
    s'.toForward P i typeName + (s.forwards i typeName a).toNat ≤ s.toForward P i typeName := by
  cases h with
  | connection hsame hqueue haction =>
    have hno : s.forwards i typeName a = false := by
      cases a with
      | broadcast => cases haction
      | _ => rfl
    rename_i k h
    have htypes : ((s.setHub k h).hub i).registry.types = (s.hub i).registry.types := by
      rw [Net.setHub_hub]
      split
      · next hi => rw [hi, hsame.types]
      · rfl
    rw [hno]
    exact (Net.toForward_congr htypes rfl).le
  | publish htype hbody hheld hkey hmsg hregistry =>
    exact (Net.toForward_addFeed (by rw [hregistry])).le
  | create htype hvalid hnone => exact absurd hnone hseed
  | fanOut htask hregistry hqueue =>
    rename_i k n msg exclude h
    have htypes : ((s.setHub k h).hub i).registry.types = (s.hub i).registry.types := by
      rw [Net.setHub_hub]
      split
      · next hi => rw [hi, hregistry]
      · rfl
    have hpending : ((s.setHub k h).setTasks k
        ((s.tasks k).set n ⟨.feed msg, exclude, false⟩)).pendingOf i typeName =
        s.pendingOf i typeName := by
      unfold Net.pendingOf
      rw [Net.setTasks_tasks]
      split
      · next hi =>
        subst hi
        exact Cluster.countP_set_of_eq htask rfl
      · rfl
    unfold Net.toForward
    rw [Net.setTasks_hub, Registry.better_congr htypes, hpending]
    exact le_rfl
  | broadcast htask hdone =>
    rename_i k n t
    unfold Net.toForward Net.pendingOf
    rw [Cluster.broadcast_hub, Cluster.broadcast_tasks, Net.setTasks_hub, Net.setTasks_tasks]
    dsimp only [Net.forwards]
    rw [htask, Option.any_some]
    by_cases hi : i = k
    · have hcount := countP_eraseIdx (p := fun t : Task ι => t.frame.registers typeName) htask
      rw [if_pos hi, decide_eq_true hi.symm, Bool.true_and, hi]
      omega
    · rw [if_neg hi, decide_eq_false (Ne.symm hi)]
      exact le_rfl
  | receive haction hread hhandled =>
    rename_i k peer frame l
    have hno : s.forwards i typeName a = false := by
      rcases haction with ⟨rfl, _⟩ | ⟨n, rfl, _⟩ <;> rfl
    rw [hno]
    have hsame : (s.setLink peer k l).toForward P i typeName = s.toForward P i typeName := rfl
    rw [← hsame]
    cases hhandled with
    | ingest hnew hregistry => exact (Net.toForward_addFeed (by rw [hregistry])).le
    | adopt hlt hregistry hchan =>
      rename_i other reg h
      have hheld : (other, reg) ∈ s.records :=
        Net.mem_records.mpr ⟨peer, Or.inr (Or.inl ⟨k, Or.inl hread.holds_frame⟩)⟩
      have hrank : (reg.tuple : WithTop (ℕ ×ₗ Str)) < (s.hub k).registry.rank other := by
        unfold Registry.rank
        split
        · exact WithTop.coe_lt_top _
        · next existing hlookup => exact WithTop.coe_lt_coe.mpr (hlt existing hlookup)
      have hinsert : h.registry.types = (s.hub k).registry.types.insert other reg := by
        rw [hregistry]
        rfl
      unfold Net.toForward
      rw [Net.pendingOf_addTask, Net.addTask_hub, Net.setHub_hub]
      dsimp only [OutFrame.registers]
      by_cases hi : i = k
      · subst hi
        rw [if_pos rfl, decide_eq_true rfl, Bool.true_and]
        by_cases ht : typeName = other
        · subst ht
          have hbetter := Registry.better_insert (hP reg hheld) hrank hinsert
          rw [decide_eq_true rfl]
          exact Nat.add_le_add_right hbetter _ |>.trans' (by
            simp only [Bool.toNat_true, Bool.toNat_false]
            unfold Net.pendingOf
            simp only [Net.setHub_tasks]
            omega)
        · rw [decide_eq_false (Ne.symm ht), Registry.better_insert_ne ht hinsert]
          exact le_rfl
      · rw [if_neg hi, decide_eq_false (Ne.symm hi)]
        exact le_rfl
    | _ => exact le_rfl
  | restart => exact absurd trivial hseed
  | _ => exact le_rfl

end Potential

section Measure

variable {ι : Type} [DecidableEq ι] [Fintype ι] {C : Cluster ι} {s s' : Net ι} {a : Action ι}
  {es : List (Event ι)} {T : Finset Str}

/-- The broadcasts of registrations in a step, over all daemons and these types. -/
def Net.forwardsIn (T : Finset Str) (s : Net ι) (a : Action ι) : ℕ :=
  ∑ i, ∑ typeName ∈ T, (s.forwards i typeName a).toNat

/-- **Moves use up the load of the links**, and only a broadcast raises it. -/
theorem Cluster.Stepped.load (h : C.Stepped s a s' es) (hseed : ¬s.Seeds a)
    (hT : ∀ typeName reg, (typeName, reg) ∈ s.records → typeName ∈ T) :
    s'.load + (s.movesRreg a).toNat ≤
      s.load + (2 * Fintype.card ι + 1) * s.forwardsIn T a := by
  -- A step that replaces one link.
  have hlink : ∀ (i j : ι) (l : Link), l.load + (s.movesRreg a).toNat ≤ (s.link i j).load →
      (s.setLink i j l).load + (s.movesRreg a).toNat ≤
        s.load + (2 * Fintype.card ι + 1) * s.forwardsIn T a := by
    intro i j l hl
    have hset := Net.load_setLink s i j l
    omega
  cases h with
  | connection hsame hqueue haction =>
    have hno : s.movesRreg a = false := by
      cases a with
      | publish | register | subscribe | unsubscribe | disconnect | recv => rfl
      | _ => cases haction
    rw [hno]
    exact Nat.le_add_right _ _
  | publish | create => exact Nat.le_add_right _ _
  | fanOut htask hregistry hqueue =>
    rename_i i k msg exclude h
    have hno : s.movesRreg (.fanOut i k) = false := by
      simp only [Net.movesRreg, Net.moved, htask, Option.map_some, Option.any_some]
      rfl
    rw [hno]
    exact Nat.le_add_right _ _
  | broadcast htask hdone =>
    rename_i i k t
    have hload := Net.load_broadcast (C := C) (s.setTasks i ((s.tasks i).eraseIdx k)) i t.frame
      t.exclude
    have hsame : (s.setTasks i ((s.tasks i).eraseIdx k)).load = s.load := rfl
    have hmoves : s.movesRreg (.broadcast i k) = t.frame.isRreg := by
      simp only [Net.movesRreg, Net.moved, htask, Option.map_some, Option.any_some]
    rw [hmoves]
    cases hframe : t.frame with
    | feed msg =>
      rw [hframe] at hload
      dsimp only [OutFrame.isRreg, Bool.toNat_false] at hload ⊢
      omega
    | rreg typeName reg =>
      have hheld : (typeName, reg) ∈ s.records :=
        Net.mem_records.mpr ⟨i, Or.inr (Or.inr ⟨t, List.mem_of_getElem? htask, hframe⟩)⟩
      have hone : (s.forwards i typeName (.broadcast i k)).toNat = 1 := by
        simp [Net.forwards, htask, hframe, OutFrame.registers]
      have hforwards : 1 ≤ s.forwardsIn T (.broadcast i k) := by
        calc 1 = (s.forwards i typeName (.broadcast i k)).toNat := hone.symm
          _ ≤ ∑ typeName ∈ T, (s.forwards i typeName (.broadcast i k)).toNat :=
            Finset.single_le_sum (f := fun typeName =>
              (s.forwards i typeName (.broadcast i k)).toNat) (fun _ _ => Nat.zero_le _)
              (hT typeName reg hheld)
          _ ≤ s.forwardsIn T (.broadcast i k) :=
            Finset.single_le_sum (f := fun j => ∑ typeName ∈ T,
              (s.forwards j typeName (.broadcast i k)).toNat) (fun _ _ => Nat.zero_le _)
              (Finset.mem_univ i)
      have hmul := Nat.mul_le_mul_left (2 * Fintype.card ι + 1) hforwards
      rw [hframe] at hload
      dsimp only [OutFrame.isRreg, Bool.toNat_true] at hload ⊢
      omega
  | insert hpeer hdown =>
    refine hlink _ _ _ ?_
    simp [Link.load, Net.movesRreg, Net.moved, hdown, LinkPhase.rest]
  | snapshot => exact absurd trivial hseed
  | push hpushing =>
    rename_i i j typeName reg rest
    refine hlink _ _ _ ?_
    have hoffer := Link.load_offer (s.link i j) (.rreg typeName reg)
    simp only [Link.load, Net.movesRreg, Net.moved, hpushing, LinkPhase.rest, List.head?_cons,
      Option.map_some, Option.any_some, OutFrame.isRreg, Bool.toNat_true, List.length_cons,
      Link.offer_phase] at hoffer ⊢
    omega
  | start hpushed =>
    refine hlink _ _ _ ?_
    simp [Link.load, Net.movesRreg, Net.moved, hpushed, LinkPhase.rest]
  | write hup hqueue =>
    rename_i i j frame queue
    refine hlink _ _ _ ?_
    simp only [Link.load, Net.movesRreg, Net.moved, hqueue, List.head?_cons, Option.any_some,
      List.countP_cons, List.countP_append, List.countP_nil]
    cases frame.isRreg <;> simp +arith
  | receive haction hread hhandled =>
    rename_i i peer frame l
    have hmoves : s.movesRreg a = frame.isRreg := by
      rcases haction with ⟨rfl, hframe⟩ | ⟨k, rfl, hframe⟩
      · simp only [Net.movesRreg, Net.moved, hframe, Option.any_some]
      · simp only [Net.movesRreg, Net.moved, hframe, Option.any_some]
    have hstate : s'.load = (s.setLink peer i l).load := by
      unfold Net.load
      rw [hhandled.link]
    rw [hstate]
    refine hlink _ _ _ ?_
    rw [hmoves, hread.load]
  | vanish =>
    rename_i i j k
    refine hlink _ _ _ ?_
    have hle := (List.eraseIdx_sublist (s.link i j).stale k).countP_le (p := OutFrame.isRreg)
    simp only [Link.load, Net.movesRreg, Net.moved, Option.any_none, Bool.toNat_false]
    omega
  | lose =>
    refine hlink _ _ _ ?_
    simp only [Link.load, Net.movesRreg, Net.moved, Option.any_none, Bool.toNat_false,
      LinkPhase.rest, List.countP_append, List.countP_nil, List.length_nil]
    omega
  | restart => exact absurd trivial hseed

/-- The moves that registrations can still make, with `T` the types and `P` the tuples of
the records that are present. -/
def Net.moves (P : Str → Finset (ℕ ×ₗ Str)) (T : Finset Str) (s : Net ι) : ℕ :=
  (2 * Fintype.card ι + 1) * ∑ i, ∑ typeName ∈ T, s.toForward (P typeName) i typeName + s.load

/-- Every move of a registration uses one of these up. -/
theorem Cluster.Stepped.moves {P : Str → Finset (ℕ ×ₗ Str)} (h : C.Stepped s a s' es)
    (hseed : ¬s.Seeds a)
    (hheld : ∀ typeName reg, (typeName, reg) ∈ s.records →
      typeName ∈ T ∧ reg.tuple ∈ P typeName) :
    s'.moves P T + (s.movesRreg a).toNat ≤ s.moves P T := by
  have hload := h.load hseed fun typeName reg hmem => (hheld typeName reg hmem).1
  have hforward : ∑ i, ∑ typeName ∈ T, s'.toForward (P typeName) i typeName + s.forwardsIn T a ≤
      ∑ i, ∑ typeName ∈ T, s.toForward (P typeName) i typeName := by
    unfold Net.forwardsIn
    simp only [← Finset.sum_add_distrib]
    exact Finset.sum_le_sum fun i _ => Finset.sum_le_sum fun typeName _ =>
      h.toForward hseed fun reg hmem => (hheld typeName reg hmem).2
  have hmul := Nat.mul_le_mul_left (2 * Fintype.card ι + 1) hforward
  rw [Nat.mul_add] at hmul
  unfold Net.moves
  omega

/-- **Registration flooding terminates.** From any state of the cluster, with arbitrary
tables and records under way, registrations can be moved only a bounded number of times
while no type is claimed, no link comes up, and no daemon restarts. Until then each daemon
broadcasts registrations of a type at most once for each distinct `(ts, origin)` pair present
for the type, apart from broadcasts that were pending from the start. -/
theorem registration_flooding_terminates (C : Cluster ι) (start : Net ι) :
    ∃ bound, ∀ (s : ℕ → Net ι) (a : ℕ → Action ι) (n : ℕ), s 0 = start →
      Transition.Upto C.step s a n → (∀ k < n, ¬(s k).Seeds (a k)) →
      ((Finset.range n).filter fun k => (s k).movesRreg (a k)).card ≤ bound ∧
      ∀ i typeName, ((Finset.range n).filter fun k => (s k).forwards i typeName (a k)).card ≤
        (start.pairs typeName).card + start.pendingOf i typeName := by
  refine ⟨start.moves start.pairs (start.records.image Prod.fst), ?_⟩
  rintro s a n rfl hrun hseeds
  -- All records that turn up were there at the start.
  have hkeep : ∀ t b u es, t.records ⊆ (s 0).records → ¬t.Seeds b →
      C.step t b = some (u, es) → u.records ⊆ (s 0).records := by
    rintro t b u es hsub hseed hstep ⟨typeName, reg⟩ hmem
    exact hsub ((Cluster.stepped C hstep).records hseed hmem)
  constructor
  · refine Transition.card_marked_le _ (fun t b => ¬t.Seeds b) Net.movesRreg hrun
      (Finset.Subset.refl (s 0).records) hseeds hkeep ?_
    intro t b u es hsub hseed hstep
    refine (Cluster.stepped C hstep).moves hseed fun typeName reg hmem => ?_
    exact ⟨Finset.mem_image_of_mem Prod.fst (hsub hmem), Net.mem_pairs (hsub hmem)⟩
  · intro i typeName
    have hcount := Transition.card_marked_le
      (fun t : Net ι => t.toForward ((s 0).pairs typeName) i typeName) (fun t b => ¬t.Seeds b)
      (fun t b => t.forwards i typeName b) hrun (Finset.Subset.refl (s 0).records) hseeds hkeep
      fun t b u es hsub hseed hstep => (Cluster.stepped C hstep).toForward hseed
        fun reg hmem => Net.mem_pairs (hsub hmem)
    refine hcount.trans (Nat.add_le_add_right ?_ _)
    exact Finset.card_filter_le _ _

end Measure

end MacroBus
