import Mathlib.Order.WithBot
import MacroBus.Busd.Frames

/-!
# What a step does about registrations

Only two kinds of step change a type table, and both put the record they enter in line
for a broadcast. The record a daemon holds for a type is compared by its rank, where no
record at all ranks last.
-/

namespace MacroBus

/-- The rank of the record held for a type: the lowest wins. -/
def Registry.rank (r : Registry) (typeName : Str) : WithTop (ℕ ×ₗ Str) :=
  match r.types.lookup typeName with
  | none => ⊤
  | some reg => reg.tuple

section Ranks

variable {r r' : Registry} {typeName other : Str} {reg : TypeReg}

/-- The rank of a record that is held. -/
theorem Registry.rank_of_lookup (h : r.types.lookup typeName = some reg) :
    r.rank typeName = (reg.tuple : WithTop (ℕ ×ₗ Str)) := by
  unfold Registry.rank
  rw [h]

/-- A type without a record ranks last. -/
theorem Registry.rank_eq_top_iff : r.rank typeName = ⊤ ↔ r.types.lookup typeName = none := by
  unfold Registry.rank
  split
  · next h => simp [h]
  · next reg h => simp [h]

/-- With the same table a type ranks the same. -/
theorem Registry.rank_congr (h : r'.types = r.types) : r'.rank typeName = r.rank typeName := by
  unfold Registry.rank
  rw [h]

/-- Entering a record sets the rank of its type. -/
theorem Registry.rank_insert (h : r'.types = r.types.insert typeName reg) :
    r'.rank other = if other = typeName then (reg.tuple : WithTop (ℕ ×ₗ Str)) else r.rank other := by
  unfold Registry.rank
  rw [h]
  by_cases heq : other = typeName
  · subst heq
    rw [AList.lookup_insert, if_pos rfl]
  · rw [AList.lookup_insert_ne heq, if_neg heq]

end Ranks

section Steps

variable {ι : Type} {C : Cluster ι} {s s' : Net ι} {a : Action ι} {es : List (Event ι)}
  {i j : ι} {typeName : Str} {reg : TypeReg}

/-- The event changes a type table. -/
def Event.isTable : Event ι → Bool
  | .created .. | .adopted .. | .restarted _ => true
  | _ => false

/-- What a step can do to type tables. -/
inductive TableStep (C : Cluster ι) (s s' : Net ι) : List (Event ι) → Prop
  /-- Nothing. -/
  | quiet {es : List (Event ι)}
      (htypes : ∀ i, (s'.hub i).registry.types = (s.hub i).registry.types)
      (hes : ∀ e ∈ es, e.isTable = false) : TableStep C s s' es
  /-- A type is claimed. -/
  | create {i : ι} {typeName : Str} {reg : TypeReg} (htype : typeName ≠ []) (hkey : reg.key ≠ [])
      (horigin : reg.originDaemon = (s.hub i).registry.daemonId)
      (hnone : (s.hub i).registry.types.lookup typeName = none)
      (hself : (s'.hub i).registry.types = (s.hub i).registry.types.insert typeName reg)
      (hothers : ∀ j, j ≠ i → s'.hub j = s.hub j)
      (htask : ⟨.rreg typeName reg, none, false⟩ ∈ s'.tasks i) :
      TableStep C s s' [.created i typeName reg]
  /-- A record arrives and beats the table. -/
  | adopt {i peer : ι} {typeName : Str} {reg : TypeReg}
      (hheld : (s.link peer i).Holds (.rreg typeName reg))
      (hlt : (reg.tuple : WithTop (ℕ ×ₗ Str)) < (s.hub i).registry.rank typeName)
      (hself : (s'.hub i).registry.types = (s.hub i).registry.types.insert typeName reg)
      (hothers : ∀ j, j ≠ i → s'.hub j = s.hub j)
      (htask : ⟨.rreg typeName reg, some peer, false⟩ ∈ s'.tasks i) :
      TableStep C s s' [.adopted i peer typeName reg]
  /-- A daemon forgets its table. -/
  | restart {i : ι} (hself : s'.hub i = C.freshHub i) (hothers : ∀ j, j ≠ i → s'.hub j = s.hub j) :
      TableStep C s s' [.restarted i]

/-- A record the daemon has given out, or is about to. -/
def Net.Emits (s : Net ι) (i : ι) (typeName : Str) (reg : TypeReg) : Prop :=
  (∃ j, (s.link i j).Holds (.rreg typeName reg) ∨ (typeName, reg) ∈ (s.link i j).phase.rest) ∨
    s.Pending i (.rreg typeName reg)

/-- The tables a step can lead to. -/
theorem TableStep.types (h : TableStep C s s' es) (hloss : ∀ e ∈ es, e.isLoss = false) (i : ι) :
    (s'.hub i).registry.types = (s.hub i).registry.types ∨
      ∃ typeName reg, (s'.hub i).registry.types =
          (s.hub i).registry.types.insert typeName reg ∧
        (reg.tuple : WithTop (ℕ ×ₗ Str)) < (s.hub i).registry.rank typeName ∧
        (.created i typeName reg ∈ es ∧ ⟨.rreg typeName reg, none, false⟩ ∈ s'.tasks i ∨
          ∃ peer, s.Emits peer typeName reg ∧ ⟨.rreg typeName reg, some peer, false⟩ ∈ s'.tasks i) := by
  cases h with
  | quiet htypes hes => exact Or.inl (htypes i)
  | create htype hkey horigin hnone hself hothers htask =>
    rename_i k typeName reg
    by_cases hi : i = k
    · subst hi
      refine Or.inr ⟨typeName, reg, hself, ?_, Or.inl ⟨List.mem_singleton_self _, htask⟩⟩
      rw [Registry.rank_eq_top_iff.mpr hnone]
      exact WithTop.coe_lt_top _
    · exact Or.inl (by rw [hothers i hi])
  | adopt hheld hlt hself hothers htask =>
    rename_i k peer typeName reg
    by_cases hi : i = k
    · subst hi
      have hemits : s.Emits peer typeName reg := Or.inl ⟨i, Or.inl hheld⟩
      exact Or.inr ⟨typeName, reg, hself, hlt, Or.inr ⟨peer, hemits, htask⟩⟩
    · exact Or.inl (by rw [hothers i hi])
  | restart => simp [Event.isLoss] at hloss

/-- Without restarts ranks never rise. -/
theorem TableStep.rank_le (h : TableStep C s s' es) (hloss : ∀ e ∈ es, e.isLoss = false) (i : ι)
    (typeName : Str) : (s'.hub i).registry.rank typeName ≤ (s.hub i).registry.rank typeName := by
  rcases h.types hloss i with hsame | ⟨other, reg, hinsert, hlt, _⟩
  · exact (Registry.rank_congr hsame).le
  · rw [Registry.rank_insert hinsert]
    split
    · next heq => exact heq ▸ hlt.le
    · exact le_refl _

/-- A record is in a table because it was, or was created there, or came from a peer; a new
one is in line for a broadcast. -/
theorem TableStep.lookup (h : TableStep C s s' es)
    (hlookup : (s'.hub i).registry.types.lookup typeName = some reg) :
    (s.hub i).registry.types.lookup typeName = some reg ∨
      .created i typeName reg ∈ es ∧ ⟨.rreg typeName reg, none, false⟩ ∈ s'.tasks i ∨
      ∃ peer, .adopted i peer typeName reg ∈ es ∧ s.Emits peer typeName reg ∧
        ⟨.rreg typeName reg, some peer, false⟩ ∈ s'.tasks i := by
  -- The record that was entered, or another.
  have hentered : ∀ {other : Str} {reg' : TypeReg}, (s'.hub i).registry.types =
      (s.hub i).registry.types.insert other reg' →
      (s.hub i).registry.types.lookup typeName = some reg ∨ other = typeName ∧ reg' = reg := by
    intro other reg' hinsert
    rw [hinsert] at hlookup
    by_cases heq : typeName = other
    · subst heq
      rw [AList.lookup_insert] at hlookup
      exact Or.inr ⟨rfl, Option.some.inj hlookup⟩
    · rw [AList.lookup_insert_ne heq] at hlookup
      exact Or.inl hlookup
  cases h with
  | quiet htypes hes => exact Or.inl (htypes i ▸ hlookup)
  | create htype hkey horigin hnone hself hothers htask =>
    rename_i k other reg'
    by_cases hi : i = k
    · subst hi
      rcases hentered hself with hbefore | ⟨rfl, rfl⟩
      · exact Or.inl hbefore
      · exact Or.inr (Or.inl ⟨List.mem_singleton_self _, htask⟩)
    · exact Or.inl (hothers i hi ▸ hlookup)
  | adopt hheld hlt hself hothers htask =>
    rename_i k peer other reg'
    by_cases hi : i = k
    · subst hi
      rcases hentered hself with hbefore | ⟨rfl, rfl⟩
      · exact Or.inl hbefore
      · exact Or.inr (Or.inr ⟨peer, List.mem_singleton_self _, Or.inl ⟨i, Or.inl hheld⟩, htask⟩)
    · exact Or.inl (hothers i hi ▸ hlookup)
  | restart hself hothers =>
    rename_i k
    by_cases hi : i = k
    · rw [hi, hself] at hlookup
      cases hlookup
    · exact Or.inl (hothers i hi ▸ hlookup)

variable [DecidableEq ι]

/-- **What every step does to type tables.** -/
theorem Cluster.Stepped.tables (h : C.Stepped s a s' es) : TableStep C s s' es := by
  have hquiet : s'.hub = s.hub → (∀ e ∈ es, e.isTable = false) → TableStep C s s' es := by
    intro hhub hes
    exact .quiet (fun i => by rw [hhub]) hes
  have hset : ∀ (t : Net ι) (i : ι) (h : Hub), h.registry.types = (t.hub i).registry.types →
      ∀ j, ((t.setHub i h).hub j).registry.types = (t.hub j).registry.types := by
    intro t i h hsame j
    rw [Net.setHub_hub]
    split
    · next hj => rw [hj, hsame]
    · rfl
  have hothers : ∀ (t : Net ι) (i : ι) (h : Hub), ∀ j, j ≠ i → (t.setHub i h).hub j = t.hub j := by
    intro t i h j hj
    rw [Net.setHub_hub, if_neg hj]
  cases h with
  | connection hsame => exact .quiet (hset s _ _ hsame.types) (by simp)
  | publish htype hbody hheld hkey hmsg hregistry hqueue =>
    refine .quiet (hset s _ _ ?_) (by simp [Event.isTable])
    rw [hregistry]
  | create htype hvalid hnone hreg hregistry =>
    refine .create ?_ ?_ ?_ hnone ?_ (hothers s _ _) (Net.mem_addTask _ _ _)
    · rintro rfl
      simp [validate.isValidType] at htype
    · rw [hreg]
      rintro rfl
      simp [validate.isValidKey] at hvalid
    · rw [hreg]
    · rw [Net.addTask_hub, Net.setHub_hub_self, hregistry]
  | fanOut htask hregistry =>
    refine .quiet (hset (s.setTasks _ _) _ _ ?_) (by simp [Event.isTable])
    rw [hregistry]
    rfl
  | broadcast htask =>
    refine hquiet rfl ?_
    intro e he
    obtain ⟨j, _, rfl⟩ := List.mem_map.mp he
    split <;> rfl
  | push hpushing =>
    refine hquiet rfl ?_
    intro e he
    rw [List.mem_singleton.mp he]
    split <;> rfl
  | receive haction hread hhandled =>
    cases hhandled with
    | ingest hnew hregistry hqueue =>
      refine .quiet (hset _ _ _ ?_) (by simp [Event.isTable])
      rw [hregistry]
    | adopt hlt hregistry =>
      refine .adopt hread.holds_frame ?_ ?_ (hothers _ _ _) (Net.mem_addTask _ _ _)
      · unfold Registry.rank
        split
        · exact WithTop.coe_lt_top _
        · next existing hlookup => exact WithTop.coe_lt_coe.mpr (hlt existing hlookup)
      · rw [Net.addTask_hub, Net.setHub_hub_self, hregistry]
        rfl
    | _ => exact hquiet rfl (by simp [Event.isTable])
  | restart =>
    refine .restart (Function.update_self _ _ _) ?_
    intro j hj
    exact Function.update_of_ne hj _ _
  | _ => exact hquiet rfl (by simp)

/-- **Where records come from.** What a daemon gives out it has given out before, or holds
in its table now. -/
theorem Cluster.Stepped.emits (h : C.Stepped s a s' es)
    (hemits : s'.Emits i typeName reg) :
    s.Emits i typeName reg ∨ (s'.hub i).registry.types.lookup typeName = some reg ∨
      (s.hub i).registry.types.lookup typeName = some reg := by
  rcases hemits with ⟨j, hheld | hrest⟩ | hpending
  · rcases h.holds hheld with hheld | hpending | ⟨typeName', reg', rest, hpushing, heq⟩
    · exact Or.inl (Or.inl ⟨j, Or.inl hheld⟩)
    · exact Or.inl (Or.inr hpending)
    · obtain ⟨rfl, rfl⟩ := OutFrame.rreg.inj heq
      refine Or.inl (Or.inl ⟨j, Or.inr ?_⟩)
      rw [hpushing]
      exact List.mem_cons_self
  · rcases (h.phase i j).rest hrest with hrest | hlookup
    · exact Or.inl (Or.inl ⟨j, Or.inr hrest⟩)
    · exact Or.inr (Or.inr hlookup)
  · rcases h.pending hpending with hpending | hannounced
    · exact Or.inl (Or.inr hpending)
    · refine Or.inr (Or.inl ?_)
      have htables := h.tables
      cases hannounced with
      | created hevent =>
        cases htables with
        | quiet htypes hes => cases hes _ hevent
        | create htype hkey horigin hnone hself hothers htask =>
          obtain ⟨rfl, rfl, rfl⟩ := Event.created.inj (List.mem_singleton.mp hevent)
          rw [hself, AList.lookup_insert]
        | adopt => simp at hevent
        | restart => simp at hevent
      | adopted hevent =>
        cases htables with
        | quiet htypes hes => cases hes _ hevent
        | create => simp at hevent
        | adopt hheld hlt hself hothers htask =>
          obtain ⟨rfl, rfl, rfl, rfl⟩ := Event.adopted.inj (List.mem_singleton.mp hevent)
          rw [hself, AList.lookup_insert]
        | restart => simp at hevent

end Steps

end MacroBus
