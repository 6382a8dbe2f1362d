import MacroBus.Lib.Simulation
import MacroBus.Busd.Network
import MacroBus.Busd.SharedQueue

/-!
# Hubs that the cluster does not tell apart

The cluster model knows of a connection its queue and whether it is open. Drop counters and
wake-ups are left to the daemon. Calls of hubs that agree on the rest return the same, lead to
hubs that agree again, and are steps of the cluster.
-/

namespace MacroBus

/-- Hubs that differ in drop counters and wake-ups only. -/
structure Hub.Alike (h h' : Hub) : Prop where
  /-- The registry is the same. -/
  registry : h'.registry = h.registry
  /-- So is the capacity of every queue. -/
  depth : ∀ id, (h'.chan id).depth = (h.chan id).depth
  /-- So is every queue. -/
  queue : ∀ id, (h'.chan id).queue = (h.chan id).queue
  /-- So is whether it is open. -/
  isOpen : ∀ id, (h'.chan id).isOpen = (h.chan id).isOpen

namespace Hub.Alike

variable {h h' : Hub} {msg : Message} {typeName key : Str} {body : List Str}

/-- A hub is like itself. -/
theorem refl (h : Hub) : h.Alike h := ⟨rfl, fun _ => rfl, fun _ => rfl, fun _ => rfl⟩

/-- A message is taken by the same queues of hubs that are alike. -/
theorem recipients (hal : h.Alike h') (msg : Message) : h'.recipients msg = h.recipients msg := by
  have hroom : ∀ id, (h'.chan id).hasRoom = (h.chan id).hasRoom := by
    intro id
    unfold Chan.hasRoom
    rw [hal.isOpen, hal.queue, hal.depth]
  unfold Hub.recipients
  rw [hal.registry]
  simp only [hroom]

/-- The registry changes in the same way. -/
theorem withRegistry (hal : h.Alike h') (r : Registry) :
    Hub.Alike { h with registry := r } { h' with registry := r } :=
  ⟨rfl, hal.depth, hal.queue, hal.isOpen⟩

/-- One channel changes. -/
theorem update (hal : h.Alike h') (id : ℕ) {ch ch' : Chan} (hdepth : ch'.depth = ch.depth)
    (hqueue : ch'.queue = ch.queue) (hopen : ch'.isOpen = ch.isOpen) :
    Hub.Alike { h with chan := Function.update h.chan id ch }
      { h' with chan := Function.update h'.chan id ch' } := by
  refine ⟨hal.registry, fun k => ?_, fun k => ?_, fun k => ?_⟩ <;>
  · dsimp only
    by_cases hk : k = id
    · rw [hk, Function.update_self, Function.update_self]
      assumption
    · rw [Function.update_of_ne hk, Function.update_of_ne hk]
      first | exact hal.depth k | exact hal.queue k | exact hal.isOpen k

/-- One channel changes in what the cluster does not see. -/
theorem updateLeft (hal : h.Alike h') (id : ℕ) {ch : Chan} (hdepth : ch.depth = (h.chan id).depth)
    (hqueue : ch.queue = (h.chan id).queue) (hopen : ch.isOpen = (h.chan id).isOpen) :
    Hub.Alike { h with chan := Function.update h.chan id ch } h' := by
  have hsame : h' = { h' with chan := Function.update h'.chan id (h'.chan id) } := by
    rw [Function.update_eq_self]
  rw [hsame]
  exact hal.update id ((hal.depth id).trans hdepth.symm) ((hal.queue id).trans hqueue.symm)
    ((hal.isOpen id).trans hopen.symm)

/-- A message is fanned out to the same queues. -/
theorem fanoutLocked (hal : h.Alike h') (msg : Message) :
    (h.fanoutLocked msg).Alike (h'.fanoutLocked msg) := by
  have hkeeps := fun (h : Hub) id => (Daemon.offered_fanoutLocked h msg id).keeps
  refine ⟨?_, fun id => ?_, fun id => ?_, fun id => ?_⟩
  · rw [Hub.fanoutLocked_registry, Hub.fanoutLocked_registry, hal.registry]
  · rw [(hkeeps h' id).1, (hkeeps h id).1, hal.depth]
  · rw [Hub.fanoutLocked_queue, Hub.fanoutLocked_queue, hal.queue, hal.recipients]
  · rw [(hkeeps h' id).2, (hkeeps h id).2, hal.isOpen]

/-- A publish ends in the same way. -/
theorem publishLocal (hal : h.Alike h') (typeName key : Str) (body : List Str) :
    (h'.publishLocal typeName key body).1 = (h.publishLocal typeName key body).1 ∧
      (h.publishLocal typeName key body).2.Alike (h'.publishLocal typeName key body).2 := by
  unfold Hub.publishLocal
  rw [hal.registry]
  cases h.registry.types.lookup typeName with
  | none => exact ⟨rfl, hal⟩
  | some held =>
    dsimp only
    split
    · exact ⟨rfl, hal⟩
    · exact ⟨rfl, (hal.withRegistry _).fanoutLocked _⟩

/-- A message is recorded in the same way. -/
theorem recordSeen (hal : h.Alike h') (msg : Message) :
    (h'.recordSeen msg).1 = (h.recordSeen msg).1 ∧
      (h.recordSeen msg).2.Alike (h'.recordSeen msg).2 := by
  unfold Hub.recordSeen
  rw [hal.registry]
  exact ⟨rfl, hal.withRegistry _⟩

end Hub.Alike

open Transition

variable {ι : Type} [DecidableEq ι] {C : Cluster ι}

/-- A step breaks a link or restarts a daemon. -/
def Action.breaks : Action ι → Bool
  | .lose .. | .restart _ => true
  | _ => false

/-- A step publishes lines, if anything, and breaks nothing. -/
def calmly (s : Net ι) (past : List (Event ι)) (a : Action ι) : Prop :=
  publishesLines s past a ∧ a.breaks = false

omit [DecidableEq ι] in
/-- A step that publishes nothing passes. -/
theorem calmly_of_quiet {s : Net ι} {past : List (Event ι)} {a : Action ι}
    (hquiet : ∀ i typeName key body, a ≠ .publish i typeName key body) (hbreaks : a.breaks = false) :
    calmly s past a :=
  ⟨fun i typeName key body heq => absurd heq (hquiet i typeName key body), hbreaks⟩

/-- A daemon of the cluster has done something; these calls have still to broadcast. -/
def Net.acted (s : Net ι) (i : ι) (h : Hub) (ts : List (Task ι)) : Net ι where
  hub := Function.update s.hub i h
  link := s.link
  tasks := Function.update s.tasks i (s.tasks i ++ ts)

section Acted

variable {s : Net ι} {i : ι} {h : Hub}

/-- Only the hub has changed. -/
theorem Net.acted_nil (s : Net ι) (i : ι) (h : Hub) : s.acted i h [] = s.setHub i h := by
  unfold Net.acted Net.setHub
  rw [List.append_nil, Function.update_eq_self]

/-- Nothing has changed. -/
theorem Net.acted_self (s : Net ι) (i : ι) : s.acted i (s.hub i) [] = s := by
  rw [Net.acted_nil, Net.setHub_self]

/-- One call has still to broadcast. -/
theorem Net.acted_singleton (s : Net ι) (i : ι) (h : Hub) (t : Task ι) :
    s.acted i h [t] = (s.setHub i h).addTask i t := rfl

end Acted

/-- A call that is still to go on, as a daemon knows it. -/
def Task.sending (C : Cluster ι) (t : Task ι) : Sending :=
  ⟨t.frame, t.exclude.map fun k => (C.config k).daemonId, t.ingesting⟩

/-- Without a forwarder nothing is handed on. -/
theorem Call.handed_false (h : Hub) (made : Call) : made.handed false h = [] := by
  cases made with
  | publishLocal typeName key body =>
    simp only [Call.handed]
    split <;> rfl
  | registerLocal typeName key nowMs =>
    simp only [Call.handed, Bool.and_false]
    split <;> rfl
  | _ => rfl

section Calls

variable {s : Net ι} {past : List (Event ι)} {i : ι} {h : Hub} {id nowMs : ℕ} {limits : Limits}

/-- **A call by a connection is at most one step of the cluster**, which shows the call and is left
with the same to do. -/
theorem call_matched {made : Call} (hal : h.Alike (s.hub i))
    (hchecked : made.Checked (C.config i).limits nowMs) (hframed : made.Framed)
    (hnow : nowMs < u64Values) (hopen : (h.chan id).isOpen = true) :
    ∃ h' ts, AtMostOne C.step calmly s past (s.acted i h' ts)
        (Network.shown h i (.did id (.call made))) ∧
      (h.execute id made).Alike h' ∧
      ts.map (Task.sending C) = (made.handed true h).map fun frame => ⟨frame, none, false⟩ := by
  have hstay : Network.shown h i (.did id (.call made)) = [] → made.handed true h = [] →
      h.execute id made = h → ∃ h' ts, AtMostOne C.step calmly s past (s.acted i h' ts)
        (Network.shown h i (.did id (.call made))) ∧
      (h.execute id made).Alike h' ∧
      ts.map (Task.sending C) = (made.handed true h).map fun frame => ⟨frame, none, false⟩ := by
    intro hshown hhanded hexecute
    refine ⟨s.hub i, [], ?_, ?_, by rw [hhanded]; rfl⟩
    · rw [Net.acted_self, hshown]
      exact .stay
    · rw [hexecute]
      exact hal
  cases made with
  | listTypes => exact hstay rfl rfl rfl
  | publishPrecheck typeName key => exact hstay rfl rfl rfl
  | registerLocal typeName key now =>
    obtain ⟨htype, hkey, rfl⟩ := hchecked
    have hguard : (validate.isValidType typeName && validate.isValidKey key &&
        decide (now < u64Values)) = true := by
      rw [htype, hkey, decide_eq_true hnow]
      rfl
    have hok : calmly s past (.register i typeName key now) := calmly_of_quiet (by simp) rfl
    rcases hres : h.registry.registerLocal typeName key now with ⟨⟨e⟩ | ⟨⟨reg, _ | _⟩⟩, r⟩
    · refine ⟨{ s.hub i with registry := r }, [], .one (.register i typeName key now) hok ?_,
        ?_, ?_⟩
      · simp only [Cluster.step, hguard, if_true, hal.registry, hres, Network.shown, Net.acted_nil]
      · simp only [Hub.execute, hres]
        exact hal.withRegistry r
      · simp only [Call.handed, hres, List.map_nil]
    · refine ⟨{ s.hub i with registry := r }, [], .one (.register i typeName key now) hok ?_,
        ?_, ?_⟩
      · simp only [Cluster.step, hguard, if_true, hal.registry, hres, Network.shown, Net.acted_nil]
      · simp only [Hub.execute, hres]
        exact hal.withRegistry r
      · simp only [Call.handed, hres, List.map_nil, Bool.false_and, Bool.false_eq_true, if_false]
    · refine ⟨{ s.hub i with registry := r }, [⟨.rreg typeName reg, none, false⟩],
        .one (.register i typeName key now) hok ?_, ?_, ?_⟩
      · simp only [Cluster.step, hguard, if_true, hal.registry, hres, Network.shown,
          Net.acted_singleton]
      · simp only [Hub.execute, hres]
        exact hal.withRegistry r
      · simp only [Call.handed, hres, List.map_cons, List.map_nil, Bool.and_self, if_true,
        Task.sending, Option.map_none]
  | subscribe typeName =>
    have hopen' : ((s.hub i).chan id).isOpen = true := (hal.isOpen id).trans hopen
    refine ⟨{ s.hub i with registry := (s.hub i).registry.subscribe typeName id }, [],
      .one (.subscribe i id typeName) (calmly_of_quiet (by simp) rfl) ?_, ?_, rfl⟩
    · rw [Cluster.step_subscribe hopen', Net.acted_nil]
      rfl
    · rw [hal.registry]
      exact hal.withRegistry _
  | unsubscribe typeName =>
    refine ⟨{ s.hub i with registry := (s.hub i).registry.unsubscribe typeName id }, [],
      .one (.unsubscribe i id typeName) (calmly_of_quiet (by simp) rfl) ?_, ?_, rfl⟩
    · rw [Net.acted_nil]
      rfl
    · rw [hal.registry]
      exact hal.withRegistry _
  | removeConn types =>
    refine ⟨{
        registry := (s.hub i).registry.removeConn id types
        chan := Function.update (s.hub i).chan id { (s.hub i).chan id with isOpen := false } }, [],
      .one (.disconnect i id types) (calmly_of_quiet (by simp) rfl) ?_, ?_, rfl⟩
    · rw [Net.acted_nil]
      rfl
    · have hkept := hal.withRegistry (h.registry.removeConn id types)
      rw [hal.registry]
      exact hkept.update id (hal.depth id) (hal.queue id) rfl
  | publishLocal typeName key body =>
    obtain ⟨htype, hkey, hsize⟩ := hchecked
    have hguard : (validate.isValidType typeName && validate.isValidKey key &&
        decide (bodySize body ≤ (C.config i).limits.maxMessageBytes)) = true := by
      rw [htype, hkey, decide_eq_true hsize]
      rfl
    have hok : calmly s past (.publish i typeName key body) := by
      refine ⟨fun _ _ _ _ heq => ?_, rfl⟩
      cases heq
      exact hframed.2
    obtain ⟨hsame, halike⟩ := hal.publishLocal typeName key body
    rcases hres : h.publishLocal typeName key body with ⟨e | msg, h₁⟩
    · rcases hres' : (s.hub i).publishLocal typeName key body with ⟨r, h₁'⟩
      rw [hres, hres'] at hsame halike
      obtain rfl := hsame
      refine ⟨h₁', [], .one (.publish i typeName key body) hok ?_, ?_, ?_⟩
      · simp only [Cluster.step, hguard, if_true, hres', Network.shown, hres, Net.acted_nil]
      · simp only [Hub.execute, hres]
        exact halike
      · simp only [Call.handed, hres, List.map_nil]
    · obtain ⟨⟨held, hheld, _⟩, _, _⟩ := Hub.publishLocal_eq_ok_iff.mp hres
      rcases hres' : (s.hub i).publishLocal typeName key body with ⟨r, h₁'⟩
      rw [hres, hres'] at hsame halike
      obtain rfl := hsame
      refine ⟨h₁', [⟨.feed msg, none, false⟩], .one (.publish i typeName key body) hok ?_, ?_, ?_⟩
      · simp only [Cluster.step, hguard, if_true, hres', Network.shown, hres, hal.registry, hheld,
          hal.recipients, Net.acted_singleton]
      · simp only [Hub.execute, hres]
        exact halike
      · simp only [Call.handed, hres, List.map_cons, List.map_nil, if_true, Task.sending,
          Option.map_none]

/-- **A frame that is read begins the call it stands for**: the cluster shows the same of it, and is
left with the same to do. -/
theorem handle_matched {peer : ι} {frame : OutFrame} (hframe : frame.Sendable)
    (hal : h.Alike (s.hub i)) :
    match frame.call (C.config i).limits with
    | none => C.handle s i peer frame = (s, [])
    | some made => ∃ h' ts, C.handle s i peer frame =
          (s.acted i h' ts, Network.shownInbound h i peer made) ∧
        (h.perform made.first).1.Alike h' ∧ ts.map (Task.sending C) =
          (Daemon.received h made.first).filterMap
            (Network.handed (some (C.config peer).daemonId)) := by
  cases frame with
  | feed msg =>
    obtain ⟨⟨htype, _⟩, ⟨hid, _⟩, ⟨horigin, _⟩, _⟩ := hframe
    have hfields : ¬(msg.typeName = [] ∨ msg.msgId = [] ∨ msg.origin = []) := by simp [htype, hid, horigin]
    by_cases hsize : (C.config i).limits.maxMessageBytes < bodySize msg.body
    · simp only [OutFrame.call, hsize, if_true, Cluster.handle, Cluster.handleFeed, if_neg hfields]
    · obtain ⟨hsame, halike⟩ := hal.recordSeen msg
      simp only [OutFrame.call, if_neg hsize, Cluster.handle, Cluster.handleFeed, if_neg hfields]
      rcases hres : h.recordSeen msg with ⟨_ | _, h₁⟩
      · rcases hres' : (s.hub i).recordSeen msg with ⟨r, h₁'⟩
        rw [hres, hres'] at hsame halike
        obtain rfl := hsame
        refine ⟨h₁', [], ?_, ?_, ?_⟩
        · simp only [Network.shownInbound, hres, Net.acted_nil]
        · simp only [Inbound.first, Hub.perform, hres]
          exact halike
        · simp only [Inbound.first, Daemon.received, hres, Bool.false_eq_true, if_false,
            List.map_nil, List.filterMap_nil]
      · rcases hres' : (s.hub i).recordSeen msg with ⟨r, h₁'⟩
        rw [hres, hres'] at hsame halike
        obtain rfl := hsame
        refine ⟨h₁', [⟨.feed msg, some peer, true⟩], ?_, ?_, ?_⟩
        · simp only [Network.shownInbound, hres, Net.acted_singleton]
        · simp only [Inbound.first, Hub.perform, hres]
          exact halike
        · simp only [Inbound.first, Daemon.received, hres, if_true]
          rfl
  | rreg typeName reg =>
    obtain ⟨⟨htype, _⟩, ⟨hkey, _⟩, ⟨horigin, _⟩, _⟩ := hframe
    have hfields : ¬(typeName = [] ∨ reg.key = [] ∨ reg.originDaemon = []) := by
      simp [htype, hkey, horigin]
    simp only [OutFrame.call, Cluster.handle, Cluster.handleRreg, if_neg hfields, hal.registry]
    rcases hres : h.registry.applyRemoteRegistration typeName reg with ⟨_ | effective, r⟩
    · refine ⟨{ s.hub i with registry := r }, [], ?_, ?_, ?_⟩
      · simp only [Network.shownInbound, hres, Option.map_none, Option.toList_none, Net.acted_nil]
      · simp only [Inbound.first, Hub.perform, hres]
        exact hal.withRegistry r
      · simp only [Inbound.first, Daemon.received, Hub.perform, hres, Option.map_none,
          Option.toList_none, List.map_nil, List.filterMap_nil]
    · refine ⟨{ s.hub i with registry := r }, [⟨.rreg typeName effective, some peer, false⟩], ?_,
        ?_, ?_⟩
      · simp only [Network.shownInbound, hres, Option.map_some, Option.toList_some,
          Net.acted_singleton]
      · simp only [Inbound.first, Hub.perform, hres]
        exact hal.withRegistry r
      · simp only [Inbound.first, Daemon.received, Hub.perform, hres, Option.map_some,
          Option.toList_some]
        rfl

end Calls

end MacroBus
