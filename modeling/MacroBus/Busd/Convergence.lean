import MacroBus.Lib.Connected
import MacroBus.Busd.MessageSteps
import MacroBus.Busd.Registrations

/-!
# Type ownership converges

For every link, the record at its far end ranks no later than the one at its near end, or
a record that ranks no later is on its way. When nothing is on its way and the links
connect all daemons, all of them therefore hold the same record.
-/

namespace MacroBus

namespace Cluster

variable {ι : Type} {C : Cluster ι} {s s' : Net ι} {a : Action ι} {past es : List (Event ι)}
  {i j : ι} {typeName : Str} {reg : TypeReg}

open Transition Connected

/-- The record is on its way from `i` to `j`, or about to be sent there. -/
def Carried (s : Net ι) (i j : ι) (typeName : Str) (reg : TypeReg) : Prop :=
  s.OnWay i j (.rreg typeName reg) ∨ (typeName, reg) ∈ (s.link i j).phase.rest

/-- The far end of the link ranks no later than the near end, or will. -/
def Covered (s : Net ι) (i j : ι) (typeName : Str) : Prop :=
  (s.hub j).registry.rank typeName ≤ (s.hub i).registry.rank typeName ∨
    ∃ reg, Carried s i j typeName reg ∧ (reg.tuple : WithTop (ℕ ×ₗ Str)) ≤ (s.hub i).registry.rank typeName

/-- A record was created for the type somewhere. -/
def Created (past : List (Event ι)) (typeName : Str) (reg : TypeReg) : Prop :=
  ∃ i, .created i typeName reg ∈ past

/-- What holds of registrations as long as nothing is lost. -/
structure RegistrationInvariant (C : Cluster ι) (s : Net ι) (past : List (Event ι)) : Prop where
  /-- Daemons keep their names. -/
  names : ∀ i, (s.hub i).registry.daemonId = (C.config i).daemonId
  /-- Only peers are dialed. -/
  dialed : ∀ i j, (s.link i j).isPeer → j ∈ C.peers i
  /-- A record that was created is complete, and bounds the table of its creator. -/
  created : ∀ i typeName reg, .created i typeName reg ∈ past → typeName ≠ [] ∧ reg.key ≠ [] ∧
    reg.originDaemon = (C.config i).daemonId ∧ (s.hub i).registry.rank typeName ≤ reg.tuple
  /-- A daemon creates at most one record for a type. -/
  once : ∀ i typeName reg reg', .created i typeName reg ∈ past →
    .created i typeName reg' ∈ past → reg = reg'
  /-- Tables hold records that were created. -/
  held : ∀ i typeName reg, (s.hub i).registry.types.lookup typeName = some reg →
    Created past typeName reg
  /-- So do links, and their near ends rank no later. -/
  emitted : ∀ i typeName reg, s.Emits i typeName reg →
    Created past typeName reg ∧ (s.hub i).registry.rank typeName ≤ reg.tuple
  /-- Links are covered from the snapshot on. -/
  covered : ∀ i j typeName, (s.link i j).phase.snapshotted → Covered s i j typeName

/-- What is on its way was given out. -/
theorem Carried.emits (h : Carried s i j typeName reg) : s.Emits i typeName reg := by
  rcases h with (hqueue | hwire | ⟨t, ht, hframe, _⟩) | hrest
  · exact Or.inl ⟨j, Or.inl (Or.inl hqueue)⟩
  · exact Or.inl ⟨j, Or.inl (Or.inr (Or.inl hwire))⟩
  · exact Or.inr ⟨t, ht, hframe⟩
  · exact Or.inl ⟨j, Or.inr hrest⟩

/-- Nothing is registered when all daemons have started. -/
theorem registrationInvariant_initial : RegistrationInvariant C C.initial [] where
  names _ := rfl
  dialed _ _ hpeer := by cases hpeer
  created := by simp
  once := by simp
  held _ _ _ hlookup := by cases hlookup
  emitted i typeName reg hemits := by
    rcases hemits with ⟨j, (h | h | h) | h⟩ | ⟨t, ht, _⟩
    · cases h
    · cases h
    · cases h
    · cases h
    · cases ht
  covered _ _ _ hsnapshot := by cases hsnapshot

/-- What was created stays created. -/
theorem Created.append (h : Created past typeName reg) (es : List (Event ι)) :
    Created (past ++ es) typeName reg := by
  obtain ⟨i, hi⟩ := h
  exact ⟨i, List.mem_append_left es hi⟩

/-- What was created is complete. -/
theorem RegistrationInvariant.complete (hinv : RegistrationInvariant C s past)
    (h : Created past typeName reg) :
    typeName ≠ [] ∧ reg.key ≠ [] ∧ reg.originDaemon ≠ [] := by
  obtain ⟨i, hi⟩ := h
  obtain ⟨htype, hkey, horigin, _⟩ := hinv.created i typeName reg hi
  exact ⟨htype, hkey, horigin ▸ (C.token i).1⟩

/-- Of the records created for a type, the rank tells which one it is. -/
theorem RegistrationInvariant.eq_of_tuple (hinv : RegistrationInvariant C s past)
    {reg reg' : TypeReg} (h : Created past typeName reg) (h' : Created past typeName reg')
    (htuple : reg.tuple = reg'.tuple) : reg = reg' := by
  obtain ⟨i, hi⟩ := h
  obtain ⟨j, hj⟩ := h'
  have horigin : reg.originDaemon = reg'.originDaemon :=
    congrArg (fun t => (ofLex t).2) htuple
  have hij : i = j := by
    refine C.distinct ?_
    calc (C.config i).daemonId = reg.originDaemon := (hinv.created i typeName reg hi).2.2.1.symm
      _ = reg'.originDaemon := horigin
      _ = (C.config j).daemonId := (hinv.created j typeName reg' hj).2.2.1
  subst hij
  exact hinv.once i typeName reg reg' hi hj

/-- A step bounds the table of the creator. -/
theorem RegistrationInvariant.created_step (hinv : RegistrationInvariant C s past)
    (htables : TableStep C s s' es) (hloss : ∀ e ∈ es, e.isLoss = false)
    (h : .created i typeName reg ∈ past ++ es) : typeName ≠ [] ∧ reg.key ≠ [] ∧
      reg.originDaemon = (C.config i).daemonId ∧ (s'.hub i).registry.rank typeName ≤ reg.tuple := by
  rcases List.mem_append.mp h with hbefore | hnow
  · obtain ⟨htype, hkey, horigin, hrank⟩ := hinv.created i typeName reg hbefore
    exact ⟨htype, hkey, horigin, (htables.rank_le hloss i typeName).trans hrank⟩
  · cases htables with
    | quiet htypes hes => cases hes _ hnow
    | create htype hkey horigin hnone hself hothers htask =>
      obtain ⟨rfl, rfl, rfl⟩ := Event.created.inj (List.mem_singleton.mp hnow)
      refine ⟨htype, hkey, horigin.trans (hinv.names i), ?_⟩
      rw [Registry.rank_insert hself, if_pos rfl]
    | adopt => simp at hnow
    | restart => simp at hnow

/-- A daemon that has created a record does not create another. -/
theorem RegistrationInvariant.once_step (hinv : RegistrationInvariant C s past)
    (htables : TableStep C s s' es) {reg' : TypeReg} (h : .created i typeName reg ∈ past ++ es)
    (h' : .created i typeName reg' ∈ past ++ es) : reg = reg' := by
  have hnew : ∀ r r', .created i typeName r ∈ past → .created i typeName r' ∉ es := by
    intro r r' hbefore hnow
    have hrank := (hinv.created i typeName r hbefore).2.2.2
    cases htables with
    | quiet htypes hes => cases hes _ hnow
    | create htype hkey horigin hnone hself hothers htask =>
      obtain ⟨rfl, rfl, rfl⟩ := Event.created.inj (List.mem_singleton.mp hnow)
      rw [Registry.rank_eq_top_iff.mpr hnone] at hrank
      exact absurd (WithTop.coe_lt_top _) (not_lt.mpr hrank)
    | adopt => simp at hnow
    | restart => simp at hnow
  rcases List.mem_append.mp h with h | h
  · rcases List.mem_append.mp h' with h' | h'
    · exact hinv.once i typeName reg reg' h h'
    · exact absurd h' (hnew _ _ h)
  · rcases List.mem_append.mp h' with h' | h'
    · exact absurd h (hnew _ _ h')
    · cases htables with
      | quiet htypes hes => cases hes _ h
      | create =>
        obtain ⟨_, _, heq⟩ := Event.created.inj (List.mem_singleton.mp h)
        obtain ⟨_, _, heq'⟩ := Event.created.inj (List.mem_singleton.mp h')
        exact heq.trans heq'.symm
      | adopt => simp at h
      | restart => simp at h

/-- No registration is on its way, and no link is half up. -/
structure Settled (s : Net ι) : Prop where
  /-- None is queued or on a wire. -/
  links : ∀ i j, ∀ f ∈ (s.link i j).queue ++ (s.link i j).wire, f.isRreg = false
  /-- None awaits its broadcast. -/
  tasks : ∀ i, ∀ t ∈ s.tasks i, t.frame.isRreg = false
  /-- Every link is up or down. -/
  phases : ∀ i j, (s.link i j).phase = .up ∨ (s.link i j).phase = .down

instance [Fintype ι] (s : Net ι) : Decidable (Settled s) :=
  decidable_of_iff
    ((∀ i j, ∀ f ∈ (s.link i j).queue ++ (s.link i j).wire, f.isRreg = false) ∧
      (∀ i, ∀ t ∈ s.tasks i, t.frame.isRreg = false) ∧
      ∀ i j, (s.link i j).phase = .up ∨ (s.link i j).phase = .down)
    ⟨fun ⟨hlinks, htasks, hphases⟩ => ⟨hlinks, htasks, hphases⟩,
      fun h => ⟨h.links, h.tasks, h.phases⟩⟩

/-- Nothing is on its way then. -/
theorem Settled.not_carried (h : Settled s) (hup : (s.link i j).phase = .up) :
    ¬Carried s i j typeName reg := by
  rintro ((hqueue | hwire | ⟨t, ht, hframe, _⟩) | hrest)
  · cases h.links i j _ (List.mem_append_left _ hqueue)
  · cases h.links i j _ (List.mem_append_right _ hwire)
  · have hrreg := h.tasks i t ht
    rw [hframe] at hrreg
    cases hrreg
  · rw [hup] at hrest
    cases hrest

/-- Among the records created for the type, this one ranks first. -/
def IsFirst (past : List (Event ι)) (typeName : Str) (reg : TypeReg) : Prop :=
  Created past typeName reg ∧ ∀ reg', Created past typeName reg' → reg.tuple ≤ reg'.tuple

variable [DecidableEq ι]

/-- A complete record that is handled bounds the table. -/
theorem Handled.rank_le {peer : ι} (h : Handled C s i peer (.rreg typeName reg) s' es)
    (hcomplete : typeName ≠ [] ∧ reg.key ≠ [] ∧ reg.originDaemon ≠ []) :
    (s'.hub i).registry.rank typeName ≤ reg.tuple := by
  cases h with
  | refuseRreg hbad => tauto
  | ignore hlookup hle =>
    rw [Registry.rank_of_lookup hlookup]
    exact WithTop.coe_le_coe.mpr hle
  | adopt hlt hregistry =>
    have htypes := congrArg Registry.types hregistry
    rw [Net.addTask_hub, Net.setHub_hub_self, Registry.rank_insert htypes, if_pos rfl]

/-- **No record is lost on the way.** A record on its way over a link whose snapshot is taken
stays on its way, or has arrived. -/
theorem Stepped.carried (h : C.Stepped s a s' es) (hloss : ∀ e ∈ es, e.isLoss = false)
    (hdialed : (s.link i j).isPeer → j ∈ C.peers i)
    (hcomplete : typeName ≠ [] ∧ reg.key ≠ [] ∧ reg.originDaemon ≠ [])
    (hbefore : (s.link i j).phase.snapshotted) (hafter : (s'.link i j).phase.snapshotted)
    (hcarried : Carried s i j typeName reg) :
    Carried s' i j typeName reg ∨ (s'.hub j).registry.rank typeName ≤ reg.tuple := by
  have hpeer := isPeer_of_snapshotted hbefore
  rcases hcarried with hway | hrest
  · rcases h.onWay hloss (hdialed hpeer) hpeer (isPeer_of_snapshotted hafter) hway with
      hway | ⟨l, _, hhandled⟩
    · exact Or.inl (Or.inl hway)
    · exact Or.inr (hhandled.rank_le hcomplete)
  · cases h.phase i j with
    | keep hphase => exact Or.inl (Or.inr (hphase ▸ hrest))
    | push hpushing hphase hqueue hes =>
      rename_i record rest
      have hroom : (s.link i j).hasRoom := by
        by_contra hfull
        rw [hes, if_neg hfull] at hloss
        cases hloss _ (List.mem_singleton_self _)
      rw [hpushing] at hrest
      rcases List.mem_cons.mp hrest with rfl | hrest
      · refine Or.inl (Or.inl (Or.inl ?_))
        rw [hqueue, Link.offer_queue, hpeer, hroom]
        exact List.mem_append_right _ (List.mem_singleton_self _)
      · exact Or.inl (Or.inr (hphase ▸ hrest))
    | snapshot _ hphase | start hphase =>
      rw [hphase] at hrest
      cases hrest
    | lose hphase | insert _ hphase =>
      rw [hphase] at hafter
      cases hafter

/-- Links stay covered. -/
theorem RegistrationInvariant.covered_step (hinv : RegistrationInvariant C s past)
    (hstepped : C.Stepped s a s' es) (hloss : ∀ e ∈ es, e.isLoss = false)
    (hsnapshot : (s'.link i j).phase.snapshotted) : Covered s' i j typeName := by
  have htables := hstepped.tables
  have hrank := htables.rank_le hloss
  rcases (hstepped.phase i j).snapshotted hsnapshot with hbefore | ⟨hhub, hphase⟩
  · -- A rank that stays is covered as before.
    have hsame : (s'.hub i).registry.rank typeName = (s.hub i).registry.rank typeName →
        Covered s' i j typeName := by
      intro heq
      unfold Covered
      rw [heq]
      rcases hinv.covered i j typeName hbefore with hle | ⟨reg, hcarried, hle⟩
      · exact Or.inl ((hrank j typeName).trans hle)
      · have hcomplete := hinv.complete (hinv.emitted i typeName reg hcarried.emits).1
        rcases hstepped.carried hloss (hinv.dialed i j) hcomplete hbefore hsnapshot hcarried with h | h
        · exact Or.inr ⟨reg, h, hle⟩
        · exact Or.inl (h.trans hle)
    rcases htables.types hloss i with htypes | ⟨other, reg, hinsert, _, hsource⟩
    · exact hsame (Registry.rank_congr htypes)
    · by_cases heq : typeName = other
      · -- The record that was entered is in line for a broadcast, or came from the far end.
        subst heq
        have hself : (s'.hub i).registry.rank typeName = reg.tuple := by
          rw [Registry.rank_insert hinsert, if_pos rfl]
        rcases hsource with ⟨_, htask⟩ | ⟨peer, hemits, htask⟩
        · exact Or.inr ⟨reg, Or.inl (Or.inr (Or.inr ⟨_, htask, rfl, by simp⟩)), hself.ge⟩
        · by_cases hpeer : peer = j
          · subst hpeer
            have hfar := (hrank peer typeName).trans (hinv.emitted peer typeName reg hemits).2
            exact Or.inl (hfar.trans hself.ge)
          · exact Or.inr ⟨reg, Or.inl (Or.inr (Or.inr ⟨_, htask, rfl, by simpa using hpeer⟩)),
              hself.ge⟩
      · exact hsame (by rw [Registry.rank_insert hinsert, if_neg heq])
  · -- The snapshot has the record of the table.
    unfold Covered
    rw [hhub]
    cases hlookup : (s.hub i).registry.types.lookup typeName with
    | none =>
      rw [Registry.rank_eq_top_iff.mpr hlookup]
      exact Or.inl le_top
    | some reg =>
      refine Or.inr ⟨reg, Or.inr ?_, (Registry.rank_of_lookup hlookup).ge⟩
      rw [hphase]
      exact Registry.mem_allRegistrations.mpr hlookup

/-- **The invariant of registrations** is kept by every step that loses nothing. -/
theorem RegistrationInvariant.step (hinv : RegistrationInvariant C s past)
    (hstepped : C.Stepped s a s' es) (hloss : ∀ e ∈ es, e.isLoss = false) :
    RegistrationInvariant C s' (past ++ es) := by
  have htables := hstepped.tables
  have hheld : ∀ i typeName reg, (s'.hub i).registry.types.lookup typeName = some reg →
      Created (past ++ es) typeName reg := by
    intro i typeName reg hlookup
    rcases htables.lookup hlookup with hbefore | ⟨hcreated, _⟩ | ⟨peer, _, hemits, _⟩
    · exact (hinv.held i typeName reg hbefore).append es
    · exact ⟨i, List.mem_append_right past hcreated⟩
    · exact (hinv.emitted peer typeName reg hemits).1.append es
  constructor
  · exact hstepped.messages.names hinv.names
  · exact fun i j => (hstepped.phase i j).dialed (hinv.dialed i j)
  · exact fun i typeName reg h => hinv.created_step htables hloss h
  · exact fun i typeName reg reg' h h' => hinv.once_step htables h h'
  · exact hheld
  · intro i typeName reg hemits
    have hrank := htables.rank_le hloss i typeName
    rcases hstepped.emits hemits with hbefore | hlookup | hlookup
    · obtain ⟨hcreated, hle⟩ := hinv.emitted i typeName reg hbefore
      exact ⟨hcreated.append es, hrank.trans hle⟩
    · exact ⟨hheld i typeName reg hlookup, (Registry.rank_of_lookup hlookup).le⟩
    · exact ⟨(hinv.held i typeName reg hlookup).append es,
        hrank.trans (Registry.rank_of_lookup hlookup).le⟩
  · exact fun i j typeName hsnapshot => hinv.covered_step hstepped hloss hsnapshot

/-- **Type ownership converges.** In every run without restarts and without dropped frames,
whenever no registration is on its way and the links that are up connect all daemons, every
daemon holds for every type the record that ranks first among all that were created. -/
theorem ownership_converges (hrun : Run C.step anyStep C.initial s past)
    (hloss : ∀ e ∈ past, e.isLoss = false) (hsettled : Settled s)
    (hconnected : StronglyConnected fun i j => (s.link i j).phase = .up) (i : ι)
    (typeName : Str) (reg : TypeReg) :
    (s.hub i).registry.types.lookup typeName = some reg ↔ IsFirst past typeName reg := by
  have hinv : RegistrationInvariant C s past := by
    refine Run.invariant_of_history (I := RegistrationInvariant C)
      (H := fun past => ∀ e ∈ past, e.isLoss = false) ?_ registrationInvariant_initial ?_ hrun hloss
    · exact fun past es h e he => h e (List.mem_append_left es he)
    · intro s past a s' es hinv _ hstep hes
      exact hinv.step (stepped C hstep) fun e he => hes e (List.mem_append_right past he)
  have hedge : ∀ a b, (s.link a b).phase = .up →
      (s.hub b).registry.rank typeName ≤ (s.hub a).registry.rank typeName := by
    intro a b hup
    rcases hinv.covered a b typeName (by rw [hup]; rfl) with hle | ⟨reg, hcarried, _⟩
    · exact hle
    · exact absurd hcarried (hsettled.not_carried hup)
  have hsame := hconnected.constant (f := fun k => (s.hub k).registry.rank typeName) hedge
  have hbound : ∀ reg', Created past typeName reg' →
      (s.hub i).registry.rank typeName ≤ reg'.tuple := by
    rintro reg' ⟨k, hk⟩
    exact (hsame i k).trans_le (hinv.created k typeName reg' hk).2.2.2
  constructor
  · intro hlookup
    refine ⟨hinv.held i typeName reg hlookup, ?_⟩
    intro reg' hcreated
    have hle := hbound reg' hcreated
    rw [Registry.rank_of_lookup hlookup] at hle
    exact WithTop.coe_le_coe.mp hle
  · rintro ⟨hcreated, hfirst⟩
    have hle := hbound reg hcreated
    cases hlookup : (s.hub i).registry.types.lookup typeName with
    | none =>
      rw [Registry.rank_eq_top_iff.mpr hlookup] at hle
      exact absurd (WithTop.coe_lt_top _) (not_lt.mpr hle)
    | some held =>
      rw [Registry.rank_of_lookup hlookup] at hle
      have hheld := hinv.held i typeName held hlookup
      have htuple : held.tuple = reg.tuple :=
        le_antisymm (WithTop.coe_le_coe.mp hle) (hfirst held hheld)
      rw [hinv.eq_of_tuple hheld hcreated htuple]

/-- Two daemons claim a type before their links come up; the links meet the broadcasts of the
claims. -/
def claimTrace : List (Action Bool) :=
  [.register false "t".toList "k1".toList 5, .register true "t".toList "k2".toList 3,
    .insert false true, .snapshot false true, .broadcast false 0, .push false true,
    .start false true, .insert true false, .broadcast true 0, .snapshot true false,
    .push true false, .start true false,
    .write false true, .write false true, .read true false, .read true false,
    .write true false, .write true false, .read false true, .read false true,
    .broadcast false 0]

/-- The earlier claim wins at both daemons. -/
theorem ownership_converges_claimed : ∃ (s : Net Bool) (past : List (Event Bool)),
    Run pair.step anyStep pair.initial s past ∧ (∀ e ∈ past, e.isLoss = false) ∧ Settled s ∧
      StronglyConnected (fun i j => (s.link i j).phase = .up) ∧
      IsFirst past "t".toList ⟨"k2".toList, "d2".toList, 3⟩ ∧
      ∀ i, (s.hub i).registry.types.lookup "t".toList =
        some ⟨"k2".toList, "d2".toList, 3⟩ := by
  obtain ⟨s, past, hrun, hloss, hsettled, hup, hlookup⟩ :=
    exists_run pair.step (fun _ _ _ => true) pair.initial claimTrace
      (P := fun s past => (∀ e ∈ past, e.isLoss = false) ∧ Settled s ∧
        (∀ i, (s.link i !i).phase = .up) ∧
        (s.hub true).registry.types.lookup "t".toList = some ⟨"k2".toList, "d2".toList, 3⟩)
      (by decide)
  have hrun' : Run pair.step anyStep pair.initial s past := hrun.weaken fun _ _ _ _ => trivial
  have hconnected : StronglyConnected fun i j => (s.link i j).phase = .up := by
    intro i j
    by_cases hij : j = i
    · rw [hij]
    · have hj : j = !i := by cases i <;> cases j <;> simp_all
      exact .single (hj ▸ hup i)
  have hconverged := ownership_converges hrun' hloss hsettled hconnected
  have hfirst := (hconverged true "t".toList _).mp hlookup
  exact ⟨s, past, hrun', hloss, hsettled, hconnected, hfirst,
    fun i => (hconverged i "t".toList _).mpr hfirst⟩

end Cluster

end MacroBus
