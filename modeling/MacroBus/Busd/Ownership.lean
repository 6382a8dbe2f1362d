import MacroBus.Busd.EndToEnd

/-!
# Who owns a type

A record is in a table because a client has registered its type, at the daemon that the record names
as its origin. A daemon that holds a record keeps the type as long as it runs; it gives the record
up only for an earlier claim, and only if it listens for peers.
-/

namespace MacroBus

open Transition

variable {ι : Type} [DecidableEq ι]

section Tables

variable {C : Cluster ι} {s s' : Net ι} {past es : List (Event ι)} {i : ι} {typeName : Str}
  {reg : TypeReg}

omit [DecidableEq ι] in
/-- **A daemon that does not restart keeps its record**, or holds one that beats it and that has come
from a peer. -/
theorem TableStep.kept (h : TableStep C s s' es) (halive : .restarted i ∉ es)
    (hheld : (s.hub i).registry.types.lookup typeName = some reg) :
    ∃ reg', (s'.hub i).registry.types.lookup typeName = some reg' ∧ (reg' = reg ∨
      reg'.tuple < reg.tuple ∧ ∃ peer, (s.link peer i).Holds (.rreg typeName reg')) := by
  have hsame : (s'.hub i).registry.types = (s.hub i).registry.types →
      ∃ reg', (s'.hub i).registry.types.lookup typeName = some reg' ∧ (reg' = reg ∨
        reg'.tuple < reg.tuple ∧ ∃ peer, (s.link peer i).Holds (.rreg typeName reg')) := by
    intro htypes
    exact ⟨reg, htypes ▸ hheld, Or.inl rfl⟩
  cases h with
  | quiet htypes hes => exact hsame (htypes i)
  | @create k other new htype hkey horigin hnone hself hothers htask =>
    by_cases hi : i = k
    · subst hi
      have hne : typeName ≠ other := by
        rintro rfl
        rw [hnone] at hheld
        cases hheld
      exact ⟨reg, by rw [hself, AList.lookup_insert_ne hne, hheld], Or.inl rfl⟩
    · exact hsame (by rw [hothers i hi])
  | @adopt k peer other new hholds hlt hself hothers htask =>
    by_cases hi : i = k
    · subst hi
      by_cases hne : typeName = other
      · subst hne
        rw [Registry.rank_of_lookup hheld] at hlt
        refine ⟨new, by rw [hself, AList.lookup_insert], Or.inr ⟨?_, peer, hholds⟩⟩
        exact WithTop.coe_lt_coe.mp hlt
      · exact ⟨reg, by rw [hself, AList.lookup_insert_ne hne, hheld], Or.inl rfl⟩
    · exact hsame (by rw [hothers i hi])
  | @restart k hself hothers =>
    have hi : i ≠ k := by
      rintro rfl
      exact halive (List.mem_singleton_self _)
    exact hsame (by rw [hothers i hi])

/-- What holds of registrations on their way, whether daemons restart or not. -/
structure OnlyCreated (s : Net ι) (past : List (Event ι)) : Prop where
  /-- Records in tables were created. -/
  tables : ∀ i typeName reg, (s.hub i).registry.types.lookup typeName = some reg →
    Cluster.Created past typeName reg
  /-- So were records on their way. -/
  records : ∀ i typeName reg, s.Emits i typeName reg → Cluster.Created past typeName reg

/-- A step puts only created records on their way. -/
theorem OnlyCreated.step (hinv : OnlyCreated s past) {a : Action ι}
    (hstep : C.step s a = some (s', es)) : OnlyCreated s' (past ++ es) := by
  have hstepped := Cluster.stepped C hstep
  have htables : ∀ i typeName reg, (s'.hub i).registry.types.lookup typeName = some reg →
      Cluster.Created (past ++ es) typeName reg := by
    intro i typeName reg hlookup
    rcases hstepped.tables.lookup hlookup with hbefore | ⟨hcreated, _⟩ | ⟨peer, _, hemits, _⟩
    · exact (hinv.tables i typeName reg hbefore).append es
    · exact ⟨i, List.mem_append_right past hcreated⟩
    · exact (hinv.records peer typeName reg hemits).append es
  refine ⟨htables, fun i typeName reg hemits => ?_⟩
  rcases hstepped.emits hemits with hbefore | hnow | hbefore
  · exact (hinv.records i typeName reg hbefore).append es
  · exact htables i typeName reg hnow
  · exact (hinv.tables i typeName reg hbefore).append es

/-- In every run, records on their way have been created. -/
theorem onlyCreated_of_run {ok : Net ι → List (Event ι) → Action ι → Prop}
    (hrun : Run C.step ok C.initial s past) : OnlyCreated s past := by
  refine Run.invariant (I := OnlyCreated) ⟨fun i typeName reg hlookup => ?_,
    fun i typeName reg hemits => ?_⟩ ?_ hrun
  · cases hlookup
  · rcases hemits with ⟨j, hheld | hrest⟩ | ⟨t, ht, _⟩
    · rcases hheld with hheld | hheld | hheld <;> cases hheld
    · cases hrest
    · cases ht
  · exact fun _ _ _ _ _ hinv _ hstep => hinv.step hstep

end Tables

namespace Network

/-- A client of the daemon has registered the type under the key of this record, at its time, where
the table of the daemon had no record for the type. -/
def RegisteredAt (C : Cluster ι) (past : List (Event ι)) (j : ι) (typeName : Str) (reg : TypeReg) :
    Prop :=
  ∃ n before a n' es after client,
    Run (fun n a => n.step C a) clocked (initial C) n before ∧ n.step C a = some (n', es) ∧
    past = before ++ (es ++ after) ∧
    .daemon j (.did client (.call (.registerLocal typeName reg.key reg.ts))) ∈ es ∧
    reg.originDaemon = (C.config j).daemonId ∧
    (n.daemon j).hub.registry.types.lookup typeName = none

section Registered

variable {C : Cluster ι} {n n' : Network ι} {es past : List (Event ι)} {i j : ι} {typeName : Str}
  {reg : TypeReg} {a : Action ι}

omit [DecidableEq ι] in
/-- **A record that the cluster sees created is a call by a client.** -/
theorem Observed.created (h : Observed C n es) (hmem : .cluster (.created j typeName reg) ∈ es) :
    (∃ client, .daemon j (.did client (.call (.registerLocal typeName reg.key reg.ts))) ∈ es) ∧
      reg.originDaemon = (n.daemon j).hub.registry.daemonId ∧
      (n.daemon j).hub.registry.types.lookup typeName = none := by
  cases h.source hmem with
  | @call k x made _ hcall hshown =>
    cases made with
    | publishLocal typeName' key body =>
      simp only [shown] at hshown
      split at hshown <;> simp at hshown
    | registerLocal typeName' key nowMs =>
      simp only [shown] at hshown
      split at hshown
      · next new hok =>
        obtain ⟨rfl, rfl, rfl⟩ := Event.created.inj (List.mem_singleton.mp hshown)
        obtain ⟨hnone, rfl, _⟩ := Registry.registerLocal_created_iff.mp (Prod.ext hok rfl)
        exact ⟨⟨x, hcall⟩, rfl, hnone⟩
      · cases hshown
    | _ => cases hshown
  | @inbound k peer made _ hshown =>
    cases made with
    | ingestRemote msg => simp [shownInbound] at hshown
    | applyRemoteRegistration typeName' incoming => simp [shownInbound] at hshown
  | transfer htransfer => cases htransfer

/-- **Every record that the cluster sees created was registered by a client.** -/
theorem registeredAt_of_run (hrun : Run (fun n a => n.step C a) clocked (initial C) n past)
    (h : Cluster.Created (past.filterMap Event.seen) typeName reg) :
    ∃ j, RegisteredAt C past j typeName reg := by
  obtain ⟨j, hseen⟩ := h
  obtain ⟨m, before, a, m', es, after, hbefore, _, hstep, rfl, he⟩ :=
    hrun.exists_step (mem_seen.mp hseen)
  obtain ⟨⟨client, hcall⟩, horigin, hnone⟩ := (observed hstep).created he
  refine ⟨j, m, before, a, m', es, after, client, hbefore, hstep, rfl, hcall, ?_, hnone⟩
  rw [horigin, name_of_run hbefore j]

/-- **A step of the network keeps a record**, or replaces it at a listener by one that beats it. -/
theorem kept_of_step (hrun : Run (fun n a => n.step C a) clocked (initial C) n past)
    (hclocked : clocked n past a) (hstep : n.step C a = some (n', es))
    (halive : .cluster (.restarted i) ∉ es)
    (hheld : (n.daemon i).hub.registry.types.lookup typeName = some reg) :
    ∃ reg', (n'.daemon i).hub.registry.types.lookup typeName = some reg' ∧ (reg' = reg ∨
      reg'.tuple < reg.tuple ∧ (C.config i).cluster.listen.isSome = true) := by
  obtain ⟨s, hcluster, hR⟩ := refines_of_run hrun
  obtain ⟨s', hnext, hR'⟩ := step_matched hcluster hR hclocked hstep
  rw [← (hR.hub i).registry] at hheld
  rw [← (hR'.hub i).registry]
  rcases hnext.eq_or_step with ⟨rfl, _⟩ | ⟨b, _, hb⟩
  · exact ⟨reg, hheld, Or.inl rfl⟩
  · have hseen : .restarted i ∉ es.filterMap Event.seen := fun hmem => halive (mem_seen.mp hmem)
    obtain ⟨reg', hlookup, hbeats⟩ := (Cluster.stepped C hb).tables.kept hseen hheld
    refine ⟨reg', hlookup, hbeats.imp_right ?_⟩
    rintro ⟨hlt, peer, hholds⟩
    exact ⟨hlt, (hR.link peer i).listens_of_holds hholds⟩

end Registered

end Network

section Result

variable {C : Cluster ι} {n n' : Network ι} {past later : List (Network.Event ι)} {i : ι}
  {typeName : Str} {reg : TypeReg}

/-- **A type changes hands only for an earlier claim.** In every run of the network, whatever happens
to its connections and to other daemons: from where a daemon holds a record for a type, and as long
as it does not restart, it holds one. It is the same, or, if the daemon listens for peers, one that
beats it; and a client has registered the type under the key it holds, at the daemon that the
record names, where the type was then unknown. -/
theorem ownership_moves_to_earlier_claims
    (hrun : Run (fun n a => n.step C a) Network.clocked (Network.initial C) n past)
    (hheld : (n.daemon i).hub.registry.types.lookup typeName = some reg)
    (hmore : Run (fun n a => n.step C a) Network.clocked n n' later)
    (halive : .cluster (.restarted i) ∉ later) :
    ∃ reg', (n'.daemon i).hub.registry.types.lookup typeName = some reg' ∧
      (reg' = reg ∨ reg'.tuple < reg.tuple ∧ (C.config i).cluster.listen.isSome = true) ∧
      ∃ j, Network.RegisteredAt C (past ++ later) j typeName reg' := by
  have hwhole := hrun.append (fun _ _ _ hok => hok) hmore
  obtain ⟨reg', hlookup, hbeats⟩ : ∃ reg',
      (n'.daemon i).hub.registry.types.lookup typeName = some reg' ∧
      (reg' = reg ∨ reg'.tuple < reg.tuple ∧ (C.config i).cluster.listen.isSome = true) := by
    refine Run.invariant_of_reached (I := fun m later => .cluster (.restarted i) ∉ later →
      ∃ reg', (m.daemon i).hub.registry.types.lookup typeName = some reg' ∧
        (reg' = reg ∨ reg'.tuple < reg.tuple ∧ (C.config i).cluster.listen.isSome = true))
      (fun _ => ⟨reg, hheld, Or.inl rfl⟩) ?_ hmore halive
    intro m later a m' es hreached ih hok hstep halive
    obtain ⟨held, hlookup, hbefore⟩ := ih fun hmem => halive (List.mem_append_left es hmem)
    have hrun' := hrun.append (fun _ _ _ hok => hok) hreached
    obtain ⟨reg', hlookup', hnow⟩ := Network.kept_of_step hrun' hok hstep
      (fun hmem => halive (List.mem_append_right later hmem)) hlookup
    refine ⟨reg', hlookup', ?_⟩
    rcases hnow with rfl | ⟨hlt, hlisten⟩
    · exact hbefore
    · rcases hbefore with rfl | ⟨hlt', _⟩
      · exact Or.inr ⟨hlt, hlisten⟩
      · exact Or.inr ⟨hlt.trans hlt', hlisten⟩
  obtain ⟨s, hcluster, hR⟩ := Network.refines_of_run hwhole
  have hlookup' := hlookup
  rw [← (hR.hub i).registry] at hlookup'
  have hcreated := (onlyCreated_of_run hcluster).tables i typeName reg' hlookup'
  exact ⟨reg', hlookup, hbeats, Network.registeredAt_of_run hwhole hcreated⟩

/-- A daemon gives up a record that its own client has registered. -/
theorem ownership_moves_to_earlier_claims_given_up :
    ∃ (n n' : Network Bool) (past later : List (Network.Event Bool)) (reg' : TypeReg),
      Run (fun n a => n.step pair a) Network.clocked (Network.initial pair) n past ∧
      (n.daemon true).hub.registry.types.lookup "t".toList =
        some ⟨"k2".toList, "d2".toList, 0⟩ ∧
      Run (fun n a => n.step pair a) Network.clocked n n' later ∧
      (n'.daemon true).hub.registry.types.lookup "t".toList = some reg' ∧
      reg' = ⟨"k".toList, "d1".toList, 0⟩ ∧
      ∃ j, Network.RegisteredAt pair (past ++ later) j "t".toList reg' := by
  obtain ⟨n, past, hrun, hheld, hsettles⟩ := exists_run (fun n a => n.step pair a)
    (fun _ _ a => Network.onTime a) (Network.initial pair) registeringTrace
    (P := fun n _ => (n.daemon true).hub.registry.types.lookup "t".toList =
        some ⟨"k2".toList, "d2".toList, 0⟩ ∧
      (exec (fun n a => Network.step pair n a) (fun _ _ a => Network.onTime a) n []
        settlingTrace).any (fun p => decide ((∀ k, .cluster (.restarted k) ∉ p.2) ∧
          (p.1.daemon true).hub.registry.types.lookup "t".toList =
            some ⟨"k".toList, "d1".toList, 0⟩)) = true) (by decide +kernel)
  obtain ⟨n', later, hmore, halive, hlookup⟩ := exists_run (fun n a => Network.step pair n a)
    (fun _ _ a => Network.onTime a) n settlingTrace
    (P := fun n' later => (∀ k, .cluster (.restarted k) ∉ later) ∧
      (n'.daemon true).hub.registry.types.lookup "t".toList =
        some ⟨"k".toList, "d1".toList, 0⟩) hsettles
  have hrun' : Run (fun n a => n.step pair a) Network.clocked (Network.initial pair) n past :=
    hrun.weaken fun _ _ _ hok => Network.clocked_of_onTime hok
  have hmore' : Run (fun n a => n.step pair a) Network.clocked n n' later :=
    hmore.weaken fun _ _ _ hok => Network.clocked_of_onTime hok
  obtain ⟨reg', hlookup', _, hregistered⟩ :=
    ownership_moves_to_earlier_claims hrun' hheld hmore' (halive true)
  refine ⟨n, n', past, later, reg', hrun', hheld, hmore', hlookup', ?_, hregistered⟩
  exact Option.some.inj (hlookup'.symm.trans hlookup)

end Result

end MacroBus
