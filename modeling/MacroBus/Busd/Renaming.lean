import MacroBus.Busd.Commands
import MacroBus.Lib.AListMap

/-!
# Keys act through equality only

A daemon compares keys and hands them on, and does nothing else with them. So where every
key is renamed, in the commands, in the registrations from peers and in the table, the
daemon does the same, with the keys renamed in the registrations that it sends. What it
writes to its clients has no keys in it.
-/

namespace MacroBus

section Renaming

variable (ρ : Str → Str)

/-- A record with its key renamed. -/
def TypeReg.rename (r : TypeReg) : TypeReg := { r with key := ρ r.key }

/-- A registry with the keys of its table renamed. -/
def Registry.rename (r : Registry) : Registry := { r with types := r.types.mapVals (TypeReg.rename ρ) }

/-- A hub with the keys renamed. -/
def Hub.rename (h : Hub) : Hub := { h with registry := h.registry.rename ρ }

/-- A phase with the key of a `PUBLISH` under way renamed. -/
def Phase.rename : Phase → Phase
  | .body typeName key acc => .body typeName (ρ key) acc
  | .bodyRead typeName key acc => .bodyRead typeName (ρ key) acc
  | phase => phase

/-- A connection with the keys renamed. -/
def Conn.rename (c : Conn) : Conn := { c with phase := c.phase.rename ρ }

/-- A daemon with the keys renamed. -/
def Daemon.rename (d : Daemon) : Daemon where
  hub := d.hub.rename ρ
  conn := fun id => (d.conn id).map (Conn.rename ρ)

/-- A command with its key renamed. -/
def Command.rename : Command → Command
  | .register typeName key => .register typeName (ρ key)
  | .publish typeName key => .publish typeName (ρ key)
  | cmd => cmd

/-- What a task is given, with the key of a command renamed. -/
def Conn.Given.rename : Conn.Given → Conn.Given
  | .command cmd => .command (cmd.rename ρ)
  | g => g

/-- A section that a peer link runs, with the key of a registration renamed. -/
def Section.rename : Section → Section
  | .applyRemoteRegistration typeName reg => .applyRemoteRegistration typeName (reg.rename ρ)
  | made => made

/-- A frame with the key of a registration renamed. -/
def OutFrame.rename : OutFrame → OutFrame
  | .rreg typeName reg => .rreg typeName (reg.rename ρ)
  | frame => frame

/-- A call with its key renamed. -/
def Call.rename : Call → Call
  | .registerLocal typeName key nowMs => .registerLocal typeName (ρ key) nowMs
  | .publishPrecheck typeName key => .publishPrecheck typeName (ρ key)
  | .publishLocal typeName key body => .publishLocal typeName (ρ key) body
  | made => made

/-- An effect with the keys renamed: what is written stays. -/
def Effect.rename : Effect → Effect
  | .call made => .call (made.rename ρ)
  | .propagateRegistration typeName reg => .propagateRegistration typeName (reg.rename ρ)
  | e => e

/-- The result of a step with the keys renamed. -/
def Conn.renameResult (r : Conn.Result) : Conn.Result :=
  (r.1.rename ρ, r.2.1.rename ρ, r.2.2.map (Effect.rename ρ))

namespace Commanded

/-- A step with the keys renamed. -/
def Action.rename : Action → Action
  | .task id nowMs fails g => .task id nowMs fails (g.rename ρ)
  | .inbound made => .inbound (made.rename ρ)
  | a => a

/-- An event with the keys renamed. -/
def Event.rename : Event → Event
  | .did id e => .did id (e.rename ρ)
  | .broadcast frame => .broadcast (frame.rename ρ)
  | .pushed typeName reg => .pushed typeName (reg.rename ρ)

end Commanded

end Renaming

section Registries

variable {ρ : Str → Str} (hρ : Function.Injective ρ) (r : Registry) (h : Hub)
  (typeName key : Str)

/-- The record of a type. -/
theorem Registry.lookup_rename (ρ : Str → Str) :
    (r.rename ρ).types.lookup typeName = (r.types.lookup typeName).map (TypeReg.rename ρ) :=
  AList.lookup_mapVals _ _ _

/-- Entering a record. -/
theorem Registry.insert_rename (ρ : Str → Str) (reg : TypeReg) :
    ({ r.rename ρ with types := (r.rename ρ).types.insert typeName (reg.rename ρ) } : Registry) =
      ({ r with types := r.types.insert typeName reg } : Registry).rename ρ := by
  unfold Registry.rename
  dsimp only
  rw [AList.insert_mapVals]

/-- A fan-out. -/
theorem Hub.fanoutLocked_rename (ρ : Str → Str) (msg : Message) :
    (h.rename ρ).fanoutLocked msg = (h.fanoutLocked msg).rename ρ := by
  unfold Hub.fanoutLocked
  have hsubs : (h.rename ρ).registry.subs = h.registry.subs := rfl
  rw [hsubs]
  cases h.registry.subs.lookup msg.typeName <;> rfl

include hρ

/-- **A registration** by a client. -/
theorem Registry.registerLocal_rename (nowMs : ℕ) :
    (r.rename ρ).registerLocal typeName (ρ key) nowMs =
      ((r.registerLocal typeName key nowMs).1.map
          (fun made => { made with reg := made.reg.rename ρ }),
        (r.registerLocal typeName key nowMs).2.rename ρ) := by
  unfold Registry.registerLocal
  rw [Registry.lookup_rename]
  cases hlookup : r.types.lookup typeName with
  | none =>
    have hinsert := r.insert_rename typeName ρ ⟨key, r.daemonId, nowMs⟩
    simp only [Option.map_none, Except.map]
    rw [← hinsert]
    rfl
  | some existing =>
    simp only [Option.map_some]
    by_cases hkey : existing.key = key
    · have hkey' : (existing.rename ρ).key = ρ key := congrArg ρ hkey
      rw [if_pos hkey, if_pos hkey']
      rfl
    · have hkey' : (existing.rename ρ).key ≠ ρ key := fun heq => hkey (hρ heq)
      rw [if_neg hkey, if_neg hkey']
      rfl

/-- **A registration** from a peer. -/
theorem Registry.applyRemoteRegistration_rename (incoming : TypeReg) :
    (r.rename ρ).applyRemoteRegistration typeName (incoming.rename ρ) =
      ((r.applyRemoteRegistration typeName incoming).1.map (TypeReg.rename ρ),
        (r.applyRemoteRegistration typeName incoming).2.rename ρ) := by
  have hinsert := r.insert_rename typeName ρ incoming
  unfold Registry.applyRemoteRegistration
  rw [Registry.lookup_rename]
  cases hlookup : r.types.lookup typeName with
  | none =>
    simp only [Option.map_none, Option.map_some]
    rw [← hinsert]
  | some existing =>
    have hsame : ((existing.rename ρ).key = (incoming.rename ρ).key ∧
        (existing.rename ρ).originDaemon = (incoming.rename ρ).originDaemon ∧
        (existing.rename ρ).ts = (incoming.rename ρ).ts) ↔
        (existing.key = incoming.key ∧ existing.originDaemon = incoming.originDaemon ∧
          existing.ts = incoming.ts) := and_congr hρ.eq_iff Iff.rfl
    have htuple : ∀ reg : TypeReg, (reg.rename ρ).tuple = reg.tuple := fun _ => rfl
    simp only [Option.map_some]
    by_cases heq : existing.key = incoming.key ∧ existing.originDaemon = incoming.originDaemon ∧
        existing.ts = incoming.ts
    · rw [if_pos heq, if_pos (hsame.mpr heq)]
      rfl
    · rw [if_neg heq, if_neg (hsame.not.mpr heq), htuple, htuple]
      by_cases hlt : incoming.tuple < existing.tuple
      · rw [if_pos hlt, if_pos hlt, hinsert]
        rfl
      · rw [if_neg hlt, if_neg hlt]
        rfl

/-- The check before a body. -/
theorem Registry.publishPrecheck_rename :
    (r.rename ρ).publishPrecheck typeName (ρ key) = r.publishPrecheck typeName key := by
  unfold Registry.publishPrecheck
  rw [Registry.lookup_rename]
  cases r.types.lookup typeName with
  | none => rfl
  | some reg =>
    have hkey : (reg.rename ρ).key ≠ ρ key ↔ reg.key ≠ key := hρ.eq_iff.not
    simp only [Option.map_some, hkey]

/-- **A publish.** -/
theorem Hub.publishLocal_rename (body : List Str) :
    (h.rename ρ).publishLocal typeName (ρ key) body =
      ((h.publishLocal typeName key body).1, (h.publishLocal typeName key body).2.rename ρ) := by
  unfold Hub.publishLocal
  have hlookup := h.registry.lookup_rename typeName ρ
  change (h.rename ρ).registry.types.lookup typeName = _ at hlookup
  rw [hlookup]
  cases h.registry.types.lookup typeName with
  | none => rfl
  | some reg =>
    have hkey : (reg.rename ρ).key ≠ ρ key ↔ reg.key ≠ key := hρ.eq_iff.not
    simp only [Option.map_some, hkey]
    split
    · rfl
    · let next := h.registry.nextMsgId
      let h' : Hub := { h with registry := { next.2 with seen := (next.2.seen.insert next.1).2 } }
      exact congrArg (Prod.mk _)
        (Hub.fanoutLocked_rename h' ρ ⟨typeName, next.1, next.2.daemonId, body⟩)

omit hρ

/-- A message from a peer. -/
theorem Hub.recordSeen_rename (ρ : Str → Str) (msg : Message) :
    (h.rename ρ).recordSeen msg = ((h.recordSeen msg).1, (h.recordSeen msg).2.rename ρ) := rfl

/-- A subscription that ends. -/
theorem Registry.unsubscribe_rename (ρ : Str → Str) (id : ℕ) :
    (r.rename ρ).unsubscribe typeName id = (r.unsubscribe typeName id).rename ρ := by
  unfold Registry.unsubscribe
  have hsubs : (r.rename ρ).subs = r.subs := rfl
  rw [hsubs]
  cases r.subs.lookup typeName with
  | none => rfl
  | some set =>
    dsimp only
    by_cases hempty : set.erase id = ∅
    · rw [if_pos hempty, if_pos hempty]
      rfl
    · rw [if_neg hempty, if_neg hempty]
      rfl

/-- A connection that is removed. -/
theorem Registry.removeConn_rename (ρ : Str → Str) (id : ℕ) (types : List Str) :
    (r.rename ρ).removeConn id types = (r.removeConn id types).rename ρ := by
  unfold Registry.removeConn
  induction types generalizing r with
  | nil => rfl
  | cons typeName types ih =>
    rw [List.foldl_cons, List.foldl_cons, Registry.unsubscribe_rename]
    exact ih _

/-- The list of types. -/
theorem Registry.listTypes_rename (ρ : Str → Str) : (r.rename ρ).listTypes = r.listTypes := by
  unfold Registry.listTypes Registry.rename
  rw [AList.keys_mapVals]

/-- The table as it is pushed to a peer. -/
theorem Registry.allRegistrations_rename (ρ : Str → Str) : (r.rename ρ).allRegistrations =
    r.allRegistrations.map fun entry => (entry.1, entry.2.rename ρ) := by
  unfold Registry.allRegistrations Registry.rename AList.mapVals
  rw [List.map_map, List.map_map]
  rfl

end Registries

section Tasks

variable {ρ : Str → Str} (hρ : Function.Injective ρ) (limits : Limits) (fwd : Bool) (nowMs : ℕ)
  (c : Conn) (h : Hub)

namespace Conn

include hρ

/-- The start of a `PUBLISH`. -/
theorem beginPublish_rename (typeName key : Str) :
    beginPublish (c.rename ρ) (h.rename ρ) typeName (ρ key) =
      renameResult ρ (beginPublish c h typeName key) := by
  unfold beginPublish
  have hcheck := Registry.publishPrecheck_rename hρ h.registry typeName key
  change (h.rename ρ).registry.publishPrecheck typeName (ρ key) = _ at hcheck
  rw [hcheck]
  cases h.registry.publishPrecheck typeName key <;> rfl

/-- The end of a `PUBLISH`. -/
theorem finishPublish_rename (typeName key : Str) (body : Option (List Str)) :
    finishPublish fwd (c.rename ρ) (h.rename ρ) typeName (ρ key) body =
      renameResult ρ (finishPublish fwd c h typeName key body) := by
  unfold finishPublish
  cases body with
  | none => rfl
  | some lines =>
    dsimp only
    rw [Hub.publishLocal_rename hρ]
    rcases h.publishLocal typeName key lines with ⟨e | msg, h'⟩
    · rfl
    · cases fwd <;> rfl

/-- **A command.** -/
theorem execute_rename (cmd : Command) :
    execute limits fwd nowMs (c.rename ρ) (h.rename ρ) (cmd.rename ρ) =
      renameResult ρ (execute limits fwd nowMs c h cmd) := by
  cases cmd with
  | register typeName key =>
    have hregister := Registry.registerLocal_rename hρ h.registry typeName key nowMs
    change (h.rename ρ).registry.registerLocal typeName (ρ key) nowMs = _ at hregister
    simp only [execute, Command.rename]
    rw [hregister]
    rcases h.registry.registerLocal typeName key nowMs with ⟨e | ⟨reg, changed⟩, registry⟩
    · rfl
    · cases changed <;> cases fwd <;> rfl
  | unsubscribe typeName =>
    have hregistry := h.registry.unsubscribe_rename typeName ρ c.id
    change (h.rename ρ).registry.unsubscribe typeName c.id = _ at hregistry
    have hid : (c.rename ρ).id = c.id := rfl
    simp only [execute, Command.rename]
    rw [hid, hregistry]
    rfl
  | listTypes =>
    have hlist := h.registry.listTypes_rename ρ
    change (h.rename ρ).registry.listTypes = _ at hlist
    simp only [execute, Command.rename]
    rw [hlist]
    rfl
  | publish typeName key => exact beginPublish_rename hρ c h typeName key
  | _ => rfl

omit hρ

/-- An internal step that takes nothing. -/
theorem go_rename (ρ : Str → Str) (hphase : c.phase ≠ .take)
    (hbody : ∀ typeName key acc, c.phase ≠ .body typeName key acc) :
    go limits fwd nowMs (c.rename ρ) (h.rename ρ) =
      (go limits fwd nowMs c h).map (renameResult ρ) := by
  obtain ⟨id, rbuf, subs, phase⟩ := c
  cases phase with
  | take => exact absurd rfl hphase
  | body typeName key acc => exact absurd rfl (hbody typeName key acc)
  | top =>
    rw [go_top rfl, go_top rfl]
    have hchan : (h.rename ρ).chan = h.chan := rfl
    rw [hchan]
    dsimp only [rename]
    cases (h.chan id).drops.entries <;> rfl
  | flush pending => cases pending <;> rfl
  | deliver out => cases out <;> rfl
  | ended exit =>
    have hregistry := h.registry.removeConn_rename ρ id subs
    change (h.rename ρ).registry.removeConn id subs = _ at hregistry
    simp only [go, rename, Phase.rename, Option.map_some]
    rw [hregistry]
    rfl
  | _ => rfl

/-- A step that is possible in the same phase. -/
theorem renamed_if {p q : Prop} [Decidable p] [Decidable q] {r r' : Result} (hpq : q ↔ p)
    (hr : r' = renameResult ρ r) :
    (if q then some r' else none) = (if p then some r else none).map (renameResult ρ) := by
  by_cases hp : p
  · rw [if_pos hp, if_pos (hpq.mpr hp), hr]
    rfl
  · rw [if_neg hp, if_neg (hpq.not.mpr hp)]
    rfl

include hρ

/-- **What a task does** with what it is given. -/
theorem handle_rename (g : Given) :
    handle limits fwd nowMs (c.rename ρ) (h.rename ρ) (g.rename ρ) =
      (handle limits fwd nowMs c h g).map (renameResult ρ) := by
  have htake : (c.rename ρ).phase = .take ↔ c.phase = .take := by
    unfold rename
    cases c.phase <;> simp [Phase.rename]
  have hselect : (c.rename ρ).phase = .select ↔ c.phase = .select := by
    unfold rename
    cases c.phase <;> simp [Phase.rename]
  cases g with
  | go =>
    by_cases hgo : c.phase = .take ∨ ∃ typeName key acc, c.phase = .body typeName key acc
    · rcases hgo with hphase | ⟨typeName, key, acc, hphase⟩ <;>
        simp [handle, Given.rename, rename, hphase, Phase.rename]
    · have hnot := not_or.mp hgo
      have hbody : ∀ typeName key acc, c.phase ≠ .body typeName key acc := fun t k acc heq =>
        hnot.2 ⟨t, k, acc, heq⟩
      have hsame := go_rename limits fwd nowMs c h ρ hnot.1 hbody
      obtain ⟨id, rbuf, subs, phase⟩ := c
      cases phase with
      | take => exact absurd rfl hnot.1
      | body typeName key acc => exact absurd rfl (hbody typeName key acc)
      | _ => exact hsame
  | command cmd => exact renamed_if htake (execute_rename hρ limits fwd nowMs c h cmd)
  | malformed e => exact renamed_if htake rfl
  | overlong => exact renamed_if htake rfl
  | idle => exact renamed_if htake rfl
  | received => exact renamed_if hselect rfl
  | closed exit =>
    obtain ⟨id, rbuf, subs, phase⟩ := c
    cases phase <;> rfl
  | body result =>
    obtain ⟨id, rbuf, subs, phase⟩ := c
    cases phase with
    | body typeName key acc =>
      exact congrArg some (finishPublish_rename hρ fwd ⟨id, rbuf, subs, .body typeName key acc⟩ h
        typeName key result)
    | _ => rfl
  | recv =>
    obtain ⟨id, rbuf, subs, phase⟩ := c
    cases phase with
    | select =>
      have hchan : (h.rename ρ).chan = h.chan := rfl
      simp only [handle, Given.rename, step, rename, Phase.rename]
      rw [hchan]
      cases (h.chan id).queue <;> rfl
    | _ => rfl
  | notified =>
    obtain ⟨id, rbuf, subs, phase⟩ := c
    cases phase with
    | select =>
      have hchan : (h.rename ρ).chan = h.chan := rfl
      simp only [handle, Given.rename, step, rename, Phase.rename]
      rw [hchan]
      exact renamed_if Iff.rfl rfl
    | _ => rfl

/-- **What a task does**, where a write may fail. -/
theorem attempt_rename (fails : Bool) (g : Given) :
    attempt limits fwd nowMs fails (g.rename ρ) (c.rename ρ) (h.rename ρ) =
      (attempt limits fwd nowMs fails g c h).map (renameResult ρ) := by
  have hhandle := handle_rename hρ limits fwd nowMs c h g
  cases fails with
  | false => exact hhandle
  | true =>
    simp only [attempt, if_true]
    rw [hhandle]
    cases handle limits fwd nowMs c h g with
    | none => rfl
    | some r =>
      have hwrite : isWrite ∘ Effect.rename ρ = isWrite := by
        funext e
        cases e <;> rfl
      have htake : (fun e => !isWrite e) ∘ Effect.rename ρ = fun e => !isWrite e := by
        funext e
        cases e <;> rfl
      simp only [Option.map_some, Option.bind_some]
      refine renamed_if ?_ ?_
      · unfold renameResult
        dsimp only
        rw [List.any_map, hwrite]
      · unfold renameResult
        dsimp only
        rw [List.takeWhile_map, htake]
        rfl

end Conn

include hρ in
/-- A section that a peer link runs. -/
theorem Hub.perform_rename (made : Section) :
    (h.rename ρ).perform (made.rename ρ) =
      ((h.perform made).1.rename ρ, (h.perform made).2.map (OutFrame.rename ρ)) := by
  cases made with
  | recordSeen msg =>
    simp only [Hub.perform, Section.rename]
    rw [Hub.recordSeen_rename]
    rfl
  | fanOut msg =>
    simp only [Hub.perform, Section.rename]
    rw [Hub.fanoutLocked_rename]
    rfl
  | applyRemoteRegistration typeName incoming =>
    have happly := Registry.applyRemoteRegistration_rename hρ h.registry typeName incoming
    change (h.rename ρ).registry.applyRemoteRegistration typeName (incoming.rename ρ) = _ at happly
    simp only [Hub.perform, Section.rename]
    rw [happly]
    cases (h.registry.applyRemoteRegistration typeName incoming).1 <;> rfl

end Tasks

namespace Commanded

variable {ρ : Str → Str} (hρ : Function.Injective ρ) (limits : Limits) (fwd : Bool)

include hρ

/-- **A step of the daemon** with the keys renamed is the step with the keys renamed. -/
theorem step_rename (d : Daemon) (a : Action) :
    step limits fwd (d.rename ρ) (a.rename ρ) =
      (step limits fwd d a).map fun p => (p.1.rename ρ, p.2.map (Event.rename ρ)) := by
  have hupdate : ∀ (h : Hub) (id : ℕ) (c : Conn),
      (⟨h, Function.update d.conn id (some c)⟩ : Daemon).rename ρ =
        ⟨h.rename ρ, Function.update (d.rename ρ).conn id (some (c.rename ρ))⟩ := by
    intro h id c
    unfold Daemon.rename
    congr 1
    funext id'
    dsimp only
    by_cases hid : id' = id
    · rw [hid, Function.update_self, Function.update_self]
      rfl
    · rw [Function.update_of_ne hid, Function.update_of_ne hid]
  cases a with
  | accept id =>
    simp only [step, Action.rename]
    cases hconn : d.conn id with
    | some c =>
      have hconn' : (d.rename ρ).conn id = some (c.rename ρ) := by simp [Daemon.rename, hconn]
      rw [hconn']
      rfl
    | none =>
      have hconn' : (d.rename ρ).conn id = none := by simp [Daemon.rename, hconn]
      rw [hconn']
      simp only [Option.map_some]
      rw [hupdate]
      rfl
  | task id nowMs fails g =>
    simp only [step, Action.rename]
    cases hconn : d.conn id with
    | none =>
      have hconn' : (d.rename ρ).conn id = none := by simp [Daemon.rename, hconn]
      rw [hconn']
      rfl
    | some c =>
      have hconn' : (d.rename ρ).conn id = some (c.rename ρ) := by simp [Daemon.rename, hconn]
      have hattempt := Conn.attempt_rename hρ limits fwd nowMs c d.hub fails g
      have hhub : (d.rename ρ).hub = d.hub.rename ρ := rfl
      rw [hconn']
      dsimp only
      rw [hhub, hattempt]
      cases Conn.attempt limits fwd nowMs fails g c d.hub with
      | none => rfl
      | some r =>
        simp only [Option.map_some]
        rw [hupdate]
        simp only [Conn.renameResult, List.map_map]
        rfl
  | inbound made =>
    have hperform := Hub.perform_rename hρ d.hub made
    have hhub : (d.rename ρ).hub = d.hub.rename ρ := rfl
    simp only [step, Action.rename, Option.map_some]
    rw [hhub, hperform]
    cases (d.hub.perform made).2 <;> rfl
  | reconcile =>
    have hall := d.hub.registry.allRegistrations_rename ρ
    change (d.rename ρ).hub.registry.allRegistrations = _ at hall
    simp only [step, Action.rename, Option.map_some]
    rw [hall, List.map_map, List.map_map]
    rfl

/-- **Any commands, bodies and frames** with the keys renamed have the same effects, renamed. -/
theorem exec_rename (d : Daemon) (as : List Action) :
    Transition.exec (step limits fwd) (fun _ _ _ => true) (d.rename ρ) [] (as.map (Action.rename ρ)) =
      (Transition.exec (step limits fwd) (fun _ _ _ => true) d [] as).map fun p =>
        (p.1.rename ρ, p.2.map (Event.rename ρ)) :=
  Transition.exec_map (step_rename hρ limits fwd) d [] as

omit hρ

/-- What leaves the daemon. -/
structure Output where
  /-- What is written to each connection. -/
  clients : ℕ → List Str
  /-- The messages sent to peers. -/
  feeds : List Message
  /-- The registrations sent to peers. -/
  rregs : List (Str × TypeReg)

/-- The message an event sends to peers. -/
def Event.feed : Event → Option Message
  | .did _ (.forwardLocal msg) => some msg
  | .broadcast (.feed msg) => some msg
  | _ => none

/-- The registration an event sends to peers. -/
def Event.rreg : Event → Option (Str × TypeReg)
  | .did _ (.propagateRegistration typeName reg) => some (typeName, reg)
  | .broadcast (.rreg typeName reg) => some (typeName, reg)
  | .pushed typeName reg => some (typeName, reg)
  | _ => none

/-- What an event writes to a connection. -/
def Event.written (id : ℕ) : Event → Option Str
  | .did i e => if i = id then Daemon.written e else none
  | _ => none

/-- What these events send. -/
def output (es : List Event) : Output where
  clients := fun id => es.filterMap (Event.written id)
  feeds := es.filterMap Event.feed
  rregs := es.filterMap Event.rreg

/-- An output with the keys renamed: only the registrations have keys. -/
def Output.rename (ρ : Str → Str) (o : Output) : Output :=
  { o with rregs := o.rregs.map fun entry => (entry.1, entry.2.rename ρ) }

/-- **Only registrations have keys in them.** -/
theorem output_rename (ρ : Str → Str) (es : List Event) :
    output (es.map (Event.rename ρ)) = (output es).rename ρ := by
  have hwritten : ∀ id e, Event.written id (e.rename ρ) = Event.written id e := by
    intro id e
    cases e with
    | did i e => cases e <;> rfl
    | _ => rfl
  have hfeed : ∀ e, Event.feed (e.rename ρ) = Event.feed e := by
    intro e
    cases e with
    | did i e => cases e <;> rfl
    | broadcast frame => cases frame <;> rfl
    | pushed => rfl
  have hrreg : ∀ e, Event.rreg (e.rename ρ) =
      (Event.rreg e).map fun entry => (entry.1, entry.2.rename ρ) := by
    intro e
    cases e with
    | did i e => cases e <;> rfl
    | broadcast frame => cases frame <;> rfl
    | pushed => rfl
  unfold output Output.rename
  simp only [List.filterMap_map, Function.comp_def, hwritten, hfeed, hrreg, List.map_filterMap]

/-- The key a step is given, if any. -/
def Action.key : Action → Option Str
  | .task _ _ _ (.command (.register _ key)) => some key
  | .task _ _ _ (.command (.publish _ key)) => some key
  | .inbound (.applyRemoteRegistration _ reg) => some reg.key
  | _ => none

/-- A step that is given neither of two keys is the same when they are swapped. -/
theorem Action.rename_swap {a : Action} {secret other : Str}
    (h : a.key ≠ some secret ∧ a.key ≠ some other) : a.rename (Equiv.swap secret other) = a := by
  have hkey : ∀ key, a.key = some key → Equiv.swap secret other key = key := by
    intro key hkey
    rw [hkey] at h
    refine Equiv.swap_apply_of_ne_of_ne ?_ ?_
    · exact fun heq => h.1 (congrArg some heq)
    · exact fun heq => h.2 (congrArg some heq)
  cases a with
  | task id nowMs fails g =>
    cases g with
    | command cmd =>
      cases cmd with
      | register typeName key => simp [Action.rename, Conn.Given.rename, Command.rename, hkey key rfl]
      | publish typeName key => simp [Action.rename, Conn.Given.rename, Command.rename, hkey key rfl]
      | _ => rfl
    | _ => rfl
  | inbound made =>
    cases made with
    | recordSeen msg => rfl
    | fanOut msg => rfl
    | applyRemoteRegistration typeName reg =>
      have hreg : reg.rename (Equiv.swap secret other) = reg := by
        unfold TypeReg.rename
        rw [hkey reg.key rfl]
      simp [Action.rename, Section.rename, hreg]
  | _ => rfl

/-- The output for these steps, from this state; nothing where one of them is impossible. -/
def outputOf (limits : Limits) (fwd : Bool) (d : Daemon) (as : List Action) : Option Output :=
  (Transition.exec (step limits fwd) (fun _ _ _ => true) d [] as).map fun p => output p.2

/-- **Keys act through equality only.** From any state of a daemon, with its table and its
connections, any commands, bodies and frames lead to the same output when every key is
renamed, but for the keys in the registrations that are sent. So where neither of two keys
is ever given, clients and messages are the same whichever of them the table holds. -/
theorem keys_act_through_equality (limits : Limits) (fwd : Bool) (d : Daemon)
    (as : List Action) :
    (∀ ρ : Str → Str, Function.Injective ρ →
      outputOf limits fwd (d.rename ρ) (as.map (Action.rename ρ)) =
        (outputOf limits fwd d as).map (Output.rename ρ)) ∧
    ∀ secret other, (∀ a ∈ as, a.key ≠ some secret ∧ a.key ≠ some other) →
      (outputOf limits fwd (d.rename (Equiv.swap secret other)) as).map
          (fun o => (o.clients, o.feeds)) =
        (outputOf limits fwd d as).map fun o => (o.clients, o.feeds) := by
  have hrename : ∀ ρ : Str → Str, Function.Injective ρ →
      outputOf limits fwd (d.rename ρ) (as.map (Action.rename ρ)) =
        (outputOf limits fwd d as).map (Output.rename ρ) := by
    intro ρ hρ
    unfold outputOf
    rw [exec_rename hρ, Option.map_map, Option.map_map]
    congr 1
    funext p
    exact output_rename ρ p.2
  refine ⟨hrename, ?_⟩
  intro secret other hkeys
  have hsame : as.map (Action.rename (Equiv.swap secret other)) = as := by
    rw [List.map_congr_left fun a ha => Action.rename_swap (hkeys a ha), List.map_id']
  have hswap := hrename (Equiv.swap secret other) (Equiv.swap secret other).injective
  rw [hsame] at hswap
  rw [hswap, Option.map_map]
  rfl

/-- A daemon that holds one type, registered with the key `k`. -/
def keeper : Daemon where
  hub :=
    { registry := { Registry.new "d1".toList 8 with
        types := (∅ : AList _).insert "t".toList ⟨"k".toList, "d1".toList, 0⟩ }
      chan := fun _ => { depth := 8 } }
  conn := fun _ => none

/-- A client connects and publishes with a wrong key. -/
def wrongGuess : List Action :=
  [.accept 0, .task 0 0 false .go, .task 0 0 false .go,
    .task 0 0 false (.command (.publish "t".toList "wrong".toList)), .reconcile]

/-- To that client the daemon is the one that holds the type with the key `other`. -/
theorem keys_act_through_equality_guess :
    (outputOf {} false keeper wrongGuess).isSome = true ∧
    (outputOf {} false (keeper.rename (Equiv.swap "k".toList "other".toList)) wrongGuess).map
        (fun o => (o.clients, o.feeds)) =
      (outputOf {} false keeper wrongGuess).map fun o => (o.clients, o.feeds) :=
  ⟨by decide, (keys_act_through_equality {} false keeper wrongGuess).2 "k".toList "other".toList
    (by decide)⟩

end Commanded

end MacroBus
