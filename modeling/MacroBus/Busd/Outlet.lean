import MacroBus.Busd.Daemon

/-!
# The outlet of a connection

A connection with its channel, seen by itself, and the publishers that are in the middle of
an offer to it. An offer is up to three steps: `try_send`, then, if the queue is full,
counting the drop under its lock, then waking the writer. The rest of the hub is whatever the
other connections have left.
-/

namespace MacroBus

/-- A connection, its channel, and the offers under way. -/
structure Outlet where
  /-- The connection. -/
  conn : Conn
  /-- Its channel. -/
  chan : Chan
  /-- Messages that found the queue full and are not counted yet. -/
  counting : List Message := []
  /-- How many publishers have counted a drop and not yet woken the writer. -/
  notifying : ℕ := 0

/-- The push a task in this phase is about to write. -/
def Phase.push : Phase → Option Push
  | .flush ((typeName, count) :: _) => some (.drop typeName count)
  | .deliver (.deliver msg) => some (.message msg)
  | .deliver (.note text) => some (.note text)
  | _ => none

namespace Outlet

/-- A step at the outlet. -/
inductive Action
  /-- The task of the connection takes a step on this hub, apart from its own channel. -/
  | task (h : Hub) (nowMs : ℕ) (wake : Conn.Wake)
  /-- A publisher tries to send. -/
  | trySend (msg : Message)
  /-- A publisher adds to `drops`. -/
  | count (k : ℕ)
  /-- A publisher calls `notify_one`. -/
  | notify

/-- What is observed of a step. -/
inductive Event
  /-- A message was offered: it is in the queue or counted as dropped. -/
  | offered (msg : Message)
  /-- A push was written. -/
  | pushed (p : Push)
  /-- What the task did. -/
  | did (effect : Effect)
  deriving DecidableEq

/-- A connection that was just accepted. -/
def accepted (id depth : ℕ) : Outlet := { conn := { id := id }, chan := { depth := depth } }

/-- The hub with the channel of the outlet in it. -/
def within (o : Outlet) (h : Hub) : Hub :=
  { h with chan := Function.update h.chan o.conn.id o.chan }

/-- The offer to itself in the call of a connection. -/
def selfOffer (h : Hub) (id : ℕ) : Call → List Event
  | .publishLocal typeName key body =>
    match (h.publishLocal typeName key body).1 with
    | .ok msg => if id ∈ h.registry.subscribers msg.typeName then [.offered msg] else []
    | .error _ => []
  | _ => []

/-- The push that a step writes: the one that was due, where the task wrote its octets. -/
def written (phase : Phase) (done : List Effect) : List Event :=
  (phase.push.toList.filter fun p => done.contains (.wrote p.serialize)).map .pushed

/-- One step at the outlet. -/
def step (limits : Limits) (fwd : Bool) (o : Outlet) : Action → Option (Outlet × List Event)
  | .task h nowMs wake =>
    (Conn.step limits fwd nowMs wake o.conn (o.within h)).map fun r =>
      ({ o with conn := r.1, chan := r.2.1.chan o.conn.id },
        written o.conn.phase r.2.2 ++ (calls r.2.2).flatMap (selfOffer (o.within h) o.conn.id) ++
          r.2.2.map .did)
  | .trySend msg =>
    if o.chan.hasRoom then
      some ({ o with chan := { o.chan with queue := o.chan.queue ++ [.deliver msg] } },
        [.offered msg])
    else if o.chan.isOpen then some ({ o with counting := o.counting ++ [msg] }, [])
    else some (o, [])
  | .count k =>
    o.counting[k]?.map fun msg =>
      ({ o with
          chan := { o.chan.recordDrop msg.typeName with permit := o.chan.permit }
          counting := o.counting.eraseIdx k
          notifying := o.notifying + 1 },
        [.offered msg])
  | .notify =>
    if o.notifying = 0 then none
    else some ({ o with chan := { o.chan with permit := true }, notifying := o.notifying - 1 }, [])

/-- **An offer under the registry lock is a `try_send`, and counting and waking where that
fails.** -/
theorem offer_eq_exec (limits : Limits) (fwd : Bool) (o : Outlet) (msg : Message)
    (hopen : o.chan.isOpen = true) (hnone : o.counting = []) (past : List Event) :
    ∃ acts, Transition.exec (step limits fwd) (fun _ _ _ => true) o past acts =
      some ({ o with chan := o.chan.offer msg }, past ++ [.offered msg]) := by
  by_cases hroom : o.chan.hasRoom = true
  · refine ⟨[.trySend msg], ?_⟩
    simp [Transition.exec, step, Chan.offer, hroom]
  · refine ⟨[.trySend msg, .count 0, .notify], ?_⟩
    simp [Transition.exec, step, Chan.offer, hroom, hopen, hnone, Chan.recordDrop]

end Outlet

section Pushes

variable {limits : Limits} {fwd : Bool} {nowMs : ℕ} {wake : Conn.Wake} {c c' : Conn} {h h' : Hub}
  {done : List Effect}

/-- **A push is written as it is**, and nothing else in that step. -/
theorem Conn.go_push {p : Push} (hpush : c.phase.push = some p)
    (hgo : Conn.go limits fwd nowMs c h = some (c', h', done)) :
    done = [.wrote p.serialize] := by
  cases hphase : c.phase with
  | flush pending =>
    cases pending with
    | nil => simp [Phase.push, hphase] at hpush
    | cons notice pending =>
      rw [hphase] at hpush
      simp only [Conn.go, hphase, Option.some.injEq, Prod.mk.injEq] at hgo
      obtain ⟨_, _, rfl⟩ := hgo
      rw [← Option.some.inj hpush]
      rfl
  | deliver out =>
    rw [hphase] at hpush
    simp only [Conn.go, hphase, Option.some.injEq, Prod.mk.injEq] at hgo
    obtain ⟨_, _, rfl⟩ := hgo
    cases out <;>
    · rw [← Option.some.inj hpush]
      rfl
  | _ => simp [Phase.push, hphase] at hpush

/-- An internal step writes the push that is due. -/
theorem Outlet.written_go (hgo : Conn.go limits fwd nowMs c h = some (c', h', done)) :
    written c.phase done = c.phase.push.toList.map .pushed := by
  unfold written
  cases hpush : c.phase.push with
  | none => rfl
  | some p =>
    rw [Conn.go_push hpush hgo]
    simp

/-- A step that is no internal one writes no push. -/
theorem Outlet.written_eq_nil (hstep : Conn.step limits fwd nowMs wake c h = some (c', h', done))
    (hwake : wake ≠ .go) : written c.phase done = [] := by
  have hnone : ∀ octets, .wrote octets ∉ done := by
    intro octets hmem
    cases Conn.step_steps hstep with
    | go => exact hwake rfl
    | writeErr hgo hwrites =>
      -- What is done before the write that fails is no write.
      have hbefore := List.mem_takeWhile_imp hmem
      cases hbefore
    | read | readBody | closed | closedBody | recv | notified => cases hmem
  unfold written
  rw [List.filter_eq_nil_iff.mpr fun p _ => ?_, List.map_nil]
  simpa using hnone p.serialize

end Pushes

end MacroBus
