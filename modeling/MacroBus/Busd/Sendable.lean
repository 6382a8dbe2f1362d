import MacroBus.Busd.FrameStream
import MacroBus.Busd.Delivery
import MacroBus.Busd.Registrations
import MacroBus.Busd.Identity

/-!
# What a cluster sends survives the wire

Names are checked where a connection hands them in, and bodies are cut out of lines. So every
frame that is ever queued, written or kept for a broadcast is one that is read back as it was,
and so is every record of every table.
-/

namespace MacroBus

variable {ι : Type} [DecidableEq ι]

open Transition

/-- A connection publishes lines. -/
def publishesLines (_ : Net ι) (_ : List (Event ι)) (a : Action ι) : Prop :=
  ∀ i typeName key body, a = .publish i typeName key body → ∀ line ∈ body, '\n' ∉ line

/-- Everything on the way through a cluster survives the wire. -/
structure Net.Sendable (s : Net ι) : Prop where
  /-- The records in the tables. -/
  tables : ∀ i typeName reg, (s.hub i).registry.types.lookup typeName = some reg →
    (OutFrame.rreg typeName reg).Sendable
  /-- The records on their way. -/
  records : ∀ i typeName reg, s.Emits i typeName reg → (OutFrame.rreg typeName reg).Sendable
  /-- The messages on links. -/
  links : ∀ i j msg, (s.link i j).Holds (.feed msg) → (OutFrame.feed msg).Sendable
  /-- The messages that are still to be broadcast. -/
  tasks : ∀ i msg, s.Pending i (.feed msg) → (OutFrame.feed msg).Sendable

section Names

variable {name : Str}

/-- Visible characters make a token. -/
theorem isToken_of_visible (hne : name ≠ []) (h : ∀ c ∈ name, 0x21 ≤ c.toNat ∧ c.toNat ≤ 0x7E) :
    IsToken name := by
  refine ⟨hne, fun c hc => ⟨?_, ?_, ?_⟩⟩ <;>
  · rintro rfl
    exact absurd (h _ hc).1 (by decide)

/-- A valid type is a token. -/
theorem isToken_of_isValidType (h : validate.isValidType name = true) : IsToken name := by
  obtain ⟨hne, hall⟩ := isValidType_iff.mp h
  exact isToken_of_visible hne fun c hc => command.visible_of_isTchar (hall c hc)

/-- A valid key is a token. -/
theorem isToken_of_isValidKey (h : validate.isValidKey name = true) : IsToken name := by
  obtain ⟨hne, hall⟩ := isValidKey_iff.mp h
  exact isToken_of_visible hne hall

/-- The id of a message is a token, where the id of its daemon is. -/
theorem isToken_msgId {r : Registry} (h : IsToken r.daemonId) : IsToken r.msgId := by
  have hdigits : ∀ x : Char, x ∉ r.daemonId → x ≠ '-' → (∀ d < 16, Nat.digitChar d ≠ x) →
      x ∉ r.msgId := fun x hid hhyphen hdigit => notMem_msgId hid hhyphen hdigit r.seq
  have hspace := hdigits ' ' (fun hmem => (h.2 _ hmem).1 rfl) (by decide) (by decide)
  have hnewline := hdigits '\n' (fun hmem => (h.2 _ hmem).2.1 rfl) (by decide) (by decide)
  have hreturn := hdigits '\r' (fun hmem => (h.2 _ hmem).2.2 rfl) (by decide) (by decide)
  refine ⟨by simp [Registry.msgId], fun c hc => ⟨?_, ?_, ?_⟩⟩
  · rintro rfl
    exact hspace hc
  · rintro rfl
    exact hnewline hc
  · rintro rfl
    exact hreturn hc

end Names

section Steps

variable {C : Cluster ι} {s s' : Net ι} {a : Action ι} {past es : List (Event ι)} {i : ι}

omit [DecidableEq ι] in
/-- A link that holds a frame emits what it carries. -/
theorem Net.Sendable.holds (hinv : s.Sendable) {j : ι} {f : OutFrame}
    (hf : (s.link i j).Holds f) : f.Sendable := by
  cases f with
  | feed msg => exact hinv.links i j msg hf
  | rreg typeName reg => exact hinv.records i typeName reg (Or.inl ⟨j, Or.inl hf⟩)

/-- A record that is created survives the wire. -/
theorem sendable_created {typeName : Str} {reg : TypeReg}
    (hname : ∀ i, (s.hub i).registry.daemonId = (C.config i).daemonId)
    (hstep : C.step s a = some (s', es)) (hmem : .created i typeName reg ∈ es) :
    (OutFrame.rreg typeName reg).Sendable := by
  have hstepped := Cluster.stepped C hstep
  cases hstepped with
  | create htype hvalid hnone hreg hregistry hchan =>
    rename_i k typeName' key nowMs reg' h
    have hnow : nowMs < u64Values := by
      simp only [Cluster.step] at hstep
      split at hstep
      · next hchecked =>
        simp only [Bool.and_eq_true, decide_eq_true_eq] at hchecked
        exact hchecked.2
      · cases hstep
    obtain ⟨rfl, rfl, rfl⟩ := by
      simpa only [List.mem_singleton, Event.created.injEq] using hmem
    subst hreg
    have horigin : IsToken (s.hub i).registry.daemonId := hname i ▸ C.token i
    exact ⟨isToken_of_isValidType htype, isToken_of_isValidKey hvalid, horigin, hnow⟩
  | broadcast =>
    simp only [Cluster.broadcast, List.mem_map] at hmem
    obtain ⟨j, _, heq⟩ := hmem
    split at heq <;> cases heq
  | push =>
    have heq := List.mem_singleton.mp hmem
    split at heq <;> cases heq
  | receive _ _ hhandled => cases hhandled <;> simp at hmem
  | _ => simp at hmem

/-- A message that is published survives the wire. -/
theorem sendable_published {key : Str} {held : TypeReg} {msg : Message} {queued : Finset ℕ}
    (hname : ∀ i, (s.hub i).registry.daemonId = (C.config i).daemonId)
    (hlines : publishesLines s past a) (hstep : C.step s a = some (s', es))
    (hmem : .published i key held msg queued ∈ es) : (OutFrame.feed msg).Sendable := by
  have hstepped := Cluster.stepped C hstep
  cases hstepped with
  | publish htype hbody hheld hkey hmsg hregistry hqueue =>
    rename_i k typeName key' body held' msg' h
    simp only [List.mem_singleton, Event.published.injEq] at hmem
    obtain ⟨rfl, _, _, rfl, _⟩ := hmem
    have horigin : IsToken (s.hub i).registry.daemonId := hname i ▸ C.token i
    subst hmsg
    exact ⟨isToken_of_isValidType htype, isToken_msgId horigin, horigin, hlines _ _ _ _ rfl⟩
  | broadcast =>
    simp only [Cluster.broadcast, List.mem_map] at hmem
    obtain ⟨j, _, heq⟩ := hmem
    split at heq <;> cases heq
  | push =>
    have heq := List.mem_singleton.mp hmem
    split at heq <;> cases heq
  | receive _ _ hhandled => cases hhandled <;> simp at hmem
  | _ => simp at hmem

/-- **Every step keeps what is on the way fit for the wire.** -/
theorem Net.Sendable.step (hinv : s.Sendable)
    (hname : ∀ i, (s.hub i).registry.daemonId = (C.config i).daemonId)
    (hlines : publishesLines s past a) (hstep : C.step s a = some (s', es)) : s'.Sendable := by
  have hstepped := Cluster.stepped C hstep
  have htables : ∀ i typeName reg, (s'.hub i).registry.types.lookup typeName = some reg →
      (OutFrame.rreg typeName reg).Sendable := by
    intro i typeName reg hlookup
    rcases hstepped.tables.lookup hlookup with hbefore | ⟨hcreated, _⟩ | ⟨peer, _, hemits, _⟩
    · exact hinv.tables i typeName reg hbefore
    · exact sendable_created hname hstep hcreated
    · exact hinv.records peer typeName reg hemits
  have hannounced : ∀ i msg, Announced s i es (.feed msg) → (OutFrame.feed msg).Sendable := by
    intro i msg hannounced
    cases hannounced with
    | published hevent => exact sendable_published hname hlines hstep hevent
    | ingested _ hheld => exact hinv.links _ i msg hheld
  refine ⟨htables, fun i typeName reg hemits => ?_, fun i j msg hheld => ?_, fun i msg hpending => ?_⟩
  · rcases hstepped.emits hemits with hbefore | hnow | hbefore
    · exact hinv.records i typeName reg hbefore
    · exact htables i typeName reg hnow
    · exact hinv.tables i typeName reg hbefore
  · rcases hstepped.holds hheld with hbefore | hpending | ⟨_, _, _, _, heq⟩
    · exact hinv.links i j msg hbefore
    · exact hinv.tasks i msg hpending
    · cases heq
  · rcases hstepped.pending hpending with hbefore | hnew
    · exact hinv.tasks i msg hbefore
    · exact hannounced i msg hnew

/-- **Everything on the way survives the wire** in every run in which connections publish lines. -/
theorem sendable_of_run (hrun : Run C.step publishesLines C.initial s past) : s.Sendable := by
  refine hrun.invariant_of_reached (I := fun s _ => s.Sendable) ?_ ?_
  · refine ⟨fun i typeName reg hlookup => ?_, fun i typeName reg hemits => ?_,
      fun i j msg hheld => ?_, fun i msg hpending => ?_⟩
    · cases hlookup
    · rcases hemits with ⟨j, hheld | hrest⟩ | ⟨t, ht, _⟩
      · rcases hheld with hheld | hheld | hheld <;> cases hheld
      · cases hrest
      · cases ht
    · rcases hheld with hheld | hheld | hheld <;> cases hheld
    · obtain ⟨t, ht, _⟩ := hpending
      cases ht
  · intro s past a s' es hbefore hinv hlines hstep
    exact hinv.step (names_of_run (hbefore.weaken fun _ _ _ _ => trivial)) hlines hstep

end Steps

end MacroBus
