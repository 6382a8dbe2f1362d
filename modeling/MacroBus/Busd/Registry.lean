import Mathlib.Data.List.AList
import Mathlib.Data.List.Lex
import Mathlib.Data.List.Sort
import Mathlib.Data.Char
import Mathlib.Data.Prod.Lex
import Mathlib.Data.Finset.Basic
import MacroBus.Proto.Frame

/-!
# The registry of a daemon

Type ownership, subscriber sets, message ids, the bounded set of seen ids, and
fan-out with the tail-drop policy. The channel ends that connection handles share
(queue, drop counters, wake-up permit) are kept beside the registry, one per
connection id. There are two locks, one on the seen-set and one on the rest. What
the source does while it holds the second is one function here; `publish_local` takes
the first inside it, for its insertion only, so what others record meanwhile counts as
recorded before or after. `ingest_remote` holds one after the other, so it is two
functions.
-/

namespace MacroBus

/-- One item queued toward a connection's writer. -/
inductive Outbound
  | deliver (msg : Message)
  | note (text : Str)
  deriving DecidableEq

/-- The shared outbound state of one connection: what a `ConnHandle` points to. -/
structure Chan where
  /-- Capacity of the queue. -/
  depth : ℕ
  /-- The bounded outbound queue, oldest item first. -/
  queue : List Outbound := []
  /-- Whether the receiving half is still there. -/
  isOpen : Bool := true
  /-- Per-type count of messages tail-dropped since the last notice. -/
  drops : AList (fun _ : Str => ℕ) := ∅
  /-- Whether a wake-up permit is stored. -/
  permit : Bool := false

/-- `ConnHandle::record_drop`: count one tail-drop, in a 64-bit counter, and wake the writer. -/
def Chan.recordDrop (c : Chan) (typeName : Str) : Chan :=
  { c with
    drops := c.drops.insert typeName (((c.drops.lookup typeName).getD 0 + 1) % u64Values)
    permit := true }

/-- Whether `try_send` would succeed. -/
def Chan.hasRoom (c : Chan) : Bool := c.isOpen && c.queue.length < c.depth

/-- One handle's part of a fan-out: queue the message, or tail-drop it when the queue
is full; a closed channel ignores it. -/
def Chan.offer (c : Chan) (msg : Message) : Chan :=
  if c.hasRoom then { c with queue := c.queue ++ [.deliver msg] }
  else if c.isOpen then c.recordDrop msg.typeName
  else c

/-- Ownership record of a registered message type. -/
structure TypeReg where
  /-- The authorization key required to publish. -/
  key : Str
  /-- The daemon on which the registration originated. -/
  originDaemon : Str
  /-- Registration time in milliseconds. -/
  ts : ℕ
  deriving DecidableEq

/-- The tuple that resolves concurrent registrations: the lowest wins. -/
def TypeReg.tuple (r : TypeReg) : ℕ ×ₗ Str := toLex (r.ts, r.originDaemon)

/-- Error registering a type. -/
structure RegisterError where
  /-- Status code. -/
  code : Code
  /-- Human-readable reason. -/
  reason : Str
  deriving DecidableEq

/-- Error publishing a message. -/
structure PublishError where
  /-- Status code. -/
  code : Code
  /-- Human-readable reason. -/
  reason : Str
  deriving DecidableEq

/-- Bounded FIFO set of recently seen message ids. -/
structure SeenSet where
  /-- How many ids are kept. -/
  cap : ℕ
  /-- The ids, for lookup. -/
  set : Finset Str
  /-- The ids in the order they were recorded, oldest first. -/
  order : List Str
  deriving DecidableEq

namespace SeenSet

/-- An empty set; a capacity of zero counts as one. -/
def new (cap : ℕ) : SeenSet := ⟨max cap 1, ∅, []⟩

/-- Remove the oldest ids while there are more than `cap`. -/
def evict (cap : ℕ) (set : Finset Str) : List Str → Finset Str × List Str
  | [] => (set, [])
  | old :: order =>
    if (old :: order).length > cap then evict cap (set.erase old) order else (set, old :: order)

/-- Record `id`; `true` if it had not been there. -/
def insert (s : SeenSet) (id : Str) : Bool × SeenSet :=
  if id ∈ s.set then (false, s)
  else
    let kept := evict s.cap (Insert.insert id s.set) (s.order ++ [id])
    (true, { s with set := kept.1, order := kept.2 })

end SeenSet

/-- The shared registry of a daemon. -/
structure Registry where
  /-- This daemon's id. -/
  daemonId : Str
  /-- The next sequence number, a 64-bit counter. -/
  seq : ℕ
  /-- Ownership record of each registered type. -/
  types : AList (fun _ : Str => TypeReg)
  /-- The connections subscribed to each type. -/
  subs : AList (fun _ : Str => Finset ℕ)
  /-- The seen message ids. -/
  seen : SeenSet

/-- Outcome of a local `REGISTER`. -/
structure Registered where
  /-- The record now held for the type. -/
  reg : TypeReg
  /-- Whether this call created the record. -/
  changed : Bool
  deriving DecidableEq

namespace Registry

/-- A fresh registry. -/
def new (daemonId : Str) (seenCapacity : ℕ) : Registry :=
  ⟨daemonId, 1, ∅, ∅, SeenSet.new seenCapacity⟩

/-- The id the next published message gets. -/
def msgId (r : Registry) : Str := r.daemonId ++ '-' :: lowerHex r.seq

/-- Generate a message id: `<daemon-id>-<hex-seq>`. The counter wraps. -/
def nextMsgId (r : Registry) : Str × Registry :=
  (r.msgId, { r with seq := (r.seq + 1) % u64Values })

/-- Handle a local `REGISTER`: an unknown type is claimed, the same key is idempotent,
a different key is rejected. -/
def registerLocal (r : Registry) (typeName key : Str) (nowMs : ℕ) :
    Except RegisterError Registered × Registry :=
  match r.types.lookup typeName with
  | none =>
    let reg : TypeReg := ⟨key, r.daemonId, nowMs⟩
    (.ok ⟨reg, true⟩, { r with types := r.types.insert typeName reg })
  | some existing =>
    if existing.key = key then (.ok ⟨existing, false⟩, r)
    else (.error ⟨status.ALREADY_REGISTERED, typeName ++ " already registered".toList⟩, r)

/-- Apply a registration learned from a peer; the record now in force if the table
changed. -/
def applyRemoteRegistration (r : Registry) (typeName : Str) (incoming : TypeReg) :
    Option TypeReg × Registry :=
  match r.types.lookup typeName with
  | none => (some incoming, { r with types := r.types.insert typeName incoming })
  | some existing =>
    if existing.key = incoming.key ∧ existing.originDaemon = incoming.originDaemon ∧
        existing.ts = incoming.ts then (none, r)
    else if incoming.tuple < existing.tuple then
      (some incoming, { r with types := r.types.insert typeName incoming })
    else (none, r)

/-- Snapshot the type table. -/
def allRegistrations (r : Registry) : List (Str × TypeReg) :=
  r.types.entries.map fun e => (e.1, e.2)

/-- The known type names, sorted. -/
def listTypes (r : Registry) : List Str := r.types.keys.insertionSort (· ≤ ·)

/-- Add connection `id` as a subscriber of a type. -/
def subscribe (r : Registry) (typeName : Str) (id : ℕ) : Registry :=
  { r with subs := r.subs.insert typeName (insert id ((r.subs.lookup typeName).getD ∅)) }

/-- Remove connection `id` from a type; an empty subscriber set is removed too. -/
def unsubscribe (r : Registry) (typeName : Str) (id : ℕ) : Registry :=
  match r.subs.lookup typeName with
  | none => r
  | some set =>
    if set.erase id = ∅ then { r with subs := r.subs.erase typeName }
    else { r with subs := r.subs.insert typeName (set.erase id) }

/-- Remove connection `id` from every type it subscribed to. -/
def removeConn (r : Registry) (id : ℕ) (types : List Str) : Registry :=
  types.foldl (fun r typeName => r.unsubscribe typeName id) r

/-- The connections subscribed to a type. -/
def subscribers (r : Registry) (typeName : Str) : Finset ℕ := (r.subs.lookup typeName).getD ∅

/-- Whether a `PUBLISH` would be authorized: the error it would get, if any. -/
def publishPrecheck (r : Registry) (typeName key : Str) : Option PublishError :=
  match r.types.lookup typeName with
  | none => some ⟨status.UNKNOWN_TYPE, typeName ++ " not registered".toList⟩
  | some reg =>
    if reg.key ≠ key then some ⟨status.KEY_MISMATCH, "authorization key mismatch".toList⟩
    else none

end Registry

/-- A daemon's registry together with the channels its handles point to. -/
structure Hub where
  /-- The registry. -/
  registry : Registry
  /-- The outbound state of each connection id. -/
  chan : ℕ → Chan

namespace Hub

/-- Fan a message out to the current subscribers of its type. Each handle has a channel
of its own, so the order of the loop does not matter. -/
def fanoutLocked (h : Hub) (msg : Message) : Hub :=
  match h.registry.subs.lookup msg.typeName with
  | none => h
  | some ids => { h with chan := fun c => if c ∈ ids then (h.chan c).offer msg else h.chan c }

/-- The connections whose queue takes the message when it is fanned out now. -/
def recipients (h : Hub) (msg : Message) : Finset ℕ :=
  (h.registry.subscribers msg.typeName).filter fun c => (h.chan c).hasRoom

/-- Publish locally: authorize, assign an id, record it as seen, fan out. The check is
the one of `publishPrecheck`, written a second time in the source. -/
def publishLocal (h : Hub) (typeName key : Str) (body : List Str) :
    Except PublishError Message × Hub :=
  match h.registry.types.lookup typeName with
  | none => (.error ⟨status.UNKNOWN_TYPE, typeName ++ " not registered".toList⟩, h)
  | some reg =>
    if reg.key ≠ key then
      (.error ⟨status.KEY_MISMATCH, "authorization key mismatch".toList⟩, h)
    else
      let (id, registry) := h.registry.nextMsgId
      let msg : Message := ⟨typeName, id, registry.daemonId, body⟩
      let registry := { registry with seen := (registry.seen.insert id).2 }
      (.ok msg, fanoutLocked { h with registry := registry } msg)

/-- The first section of `ingest_remote`, under the lock of the seen-set: record a message
received from a peer. `true` if it was new; then the second section, under the lock of the
registry, is `fanoutLocked`. -/
def recordSeen (h : Hub) (msg : Message) : Bool × Hub :=
  let (new, seen) := h.registry.seen.insert msg.msgId
  (new, { h with registry := { h.registry with seen := seen } })

/-- Ingest a message received from a peer, where no one else comes between the two sections. -/
def ingestRemote (h : Hub) (msg : Message) : Bool × Hub :=
  match h.recordSeen msg with
  | (true, h') => (true, h'.fanoutLocked msg)
  | (false, h') => (false, h')

end Hub

section Specifications

variable {r r' : Registry} {h h' : Hub} {typeName key : Str} {reg incoming : TypeReg}
  {msg : Message} {nowMs : ℕ}

/-- A registration creates a record exactly where there is none. -/
theorem Registry.registerLocal_created_iff :
    r.registerLocal typeName key nowMs = (.ok ⟨reg, true⟩, r') ↔
      r.types.lookup typeName = none ∧ reg = ⟨key, r.daemonId, nowMs⟩ ∧
        r' = { r with types := r.types.insert typeName reg } := by
  unfold Registry.registerLocal
  cases hlookup : r.types.lookup typeName with
  | none =>
    dsimp only
    constructor
    · intro heq
      simp only [Prod.mk.injEq, Except.ok.injEq, Registered.mk.injEq, and_true] at heq
      obtain ⟨rfl, rfl⟩ := heq
      exact ⟨rfl, rfl, rfl⟩
    · rintro ⟨_, rfl, rfl⟩
      rfl
  | some existing =>
    dsimp only
    constructor
    · intro heq
      split at heq
      · simp at heq
      · simp at heq
    · rintro ⟨hnone, _⟩
      cases hnone

/-- Otherwise it changes nothing. -/
theorem Registry.registerLocal_unchanged (hlookup : r.types.lookup typeName ≠ none) :
    (r.registerLocal typeName key nowMs).2 = r := by
  unfold Registry.registerLocal
  split
  · next hnone => exact absurd hnone hlookup
  · split <;> rfl

/-- A peer's record is adopted where there is none, or a greater one. -/
theorem Registry.applyRemoteRegistration_eq_some_iff {effective : TypeReg} :
    r.applyRemoteRegistration typeName incoming = (some effective, r') ↔
      (∀ existing, r.types.lookup typeName = some existing → incoming.tuple < existing.tuple) ∧
        effective = incoming ∧ r' = { r with types := r.types.insert typeName incoming } := by
  unfold Registry.applyRemoteRegistration
  cases hlookup : r.types.lookup typeName with
  | none => simp [eq_comm]
  | some existing =>
    simp only [Option.some.injEq, forall_eq']
    constructor
    · intro heq
      split at heq
      · cases heq
      · split at heq
        · next hlt =>
          simp only [Prod.mk.injEq, Option.some.injEq] at heq
          obtain ⟨rfl, rfl⟩ := heq
          exact ⟨hlt, rfl, rfl⟩
        · cases heq
    · rintro ⟨hlt, rfl, rfl⟩
      rw [if_neg, if_pos hlt]
      rintro ⟨_, horigin, hts⟩
      have htuple : effective.tuple = existing.tuple := by
        simp only [TypeReg.tuple, horigin, hts]
      exact absurd hlt (by rw [htuple]; exact lt_irrefl _)

/-- Otherwise the table stays, and it holds a record that is no greater. -/
theorem Registry.applyRemoteRegistration_eq_none_iff :
    r.applyRemoteRegistration typeName incoming = (none, r') ↔
      (∃ existing, r.types.lookup typeName = some existing ∧ existing.tuple ≤ incoming.tuple) ∧
        r' = r := by
  unfold Registry.applyRemoteRegistration
  cases hlookup : r.types.lookup typeName with
  | none => simp
  | some existing =>
    simp only [Option.some.injEq, exists_eq_left']
    constructor
    · intro heq
      split at heq
      · next hsame =>
        obtain ⟨_, horigin, hts⟩ := hsame
        have htuple : existing.tuple = incoming.tuple := by
          simp only [TypeReg.tuple, horigin, hts]
        exact ⟨htuple.le, (Prod.mk.inj heq).2.symm⟩
      · split at heq
        · cases heq
        · next hlt => exact ⟨not_lt.mp hlt, (Prod.mk.inj heq).2.symm⟩
    · rintro ⟨hle, rfl⟩
      split
      · rfl
      · rw [if_neg (not_lt.mpr hle)]

/-- A snapshot has the records of the table. -/
theorem Registry.mem_allRegistrations :
    (typeName, reg) ∈ r.allRegistrations ↔ r.types.lookup typeName = some reg := by
  unfold Registry.allRegistrations
  rw [List.mem_map]
  constructor
  · rintro ⟨⟨k, v⟩, hmem, heq⟩
    obtain ⟨rfl, rfl⟩ := Prod.mk.inj heq
    exact AList.mem_lookup_iff.mpr hmem
  · intro hlookup
    exact ⟨⟨typeName, reg⟩, AList.mem_lookup_iff.mp hlookup, rfl⟩

/-- Fanning out leaves the registry alone. -/
@[simp] theorem Hub.fanoutLocked_registry (h : Hub) (msg : Message) :
    (h.fanoutLocked msg).registry = h.registry := by
  unfold Hub.fanoutLocked
  split <;> rfl

/-- **A local publish** is accepted for the key the table holds. The message gets the next
id, which is recorded. -/
theorem Hub.publishLocal_eq_ok_iff {body : List Str} :
    h.publishLocal typeName key body = (.ok msg, h') ↔
      (∃ held, h.registry.types.lookup typeName = some held ∧ held.key = key) ∧
        msg = ⟨typeName, h.registry.msgId, h.registry.daemonId, body⟩ ∧
        h' = fanoutLocked { h with registry := { h.registry with
          seq := (h.registry.seq + 1) % u64Values
          seen := (h.registry.seen.insert h.registry.msgId).2 } } msg := by
  unfold Hub.publishLocal
  cases hlookup : h.registry.types.lookup typeName with
  | none => simp
  | some held =>
    simp only [Option.some.injEq, exists_eq_left', Registry.nextMsgId]
    by_cases hkey : held.key = key
    · rw [if_neg (by simpa using hkey)]
      constructor
      · intro heq
        simp only [Prod.mk.injEq, Except.ok.injEq] at heq
        obtain ⟨rfl, rfl⟩ := heq
        exact ⟨hkey, rfl, rfl⟩
      · rintro ⟨_, rfl, rfl⟩
        rfl
    · rw [if_pos (by simpa using hkey)]
      simp [hkey]

/-- A refused publish changes nothing. -/
theorem Hub.publishLocal_error {body : List Str} {e : PublishError}
    (heq : h.publishLocal typeName key body = (.error e, h')) : h' = h := by
  unfold Hub.publishLocal at heq
  split at heq
  · exact (Prod.mk.inj heq).2.symm
  · split at heq
    · exact (Prod.mk.inj heq).2.symm
    · cases heq

/-- **A message from a peer** is new if its id is not in the seen-set, which then has it. -/
theorem Hub.recordSeen_of_notMem (hid : msg.msgId ∉ h.registry.seen.set) :
    h.recordSeen msg = (true, { h with registry := { h.registry with
      seen := (h.registry.seen.insert msg.msgId).2 } }) := by
  unfold Hub.recordSeen SeenSet.insert
  rw [if_neg hid]

/-- A duplicate changes nothing. -/
theorem Hub.recordSeen_of_mem (hid : msg.msgId ∈ h.registry.seen.set) :
    h.recordSeen msg = (false, h) := by
  unfold Hub.recordSeen SeenSet.insert
  rw [if_pos hid]

/-- A fan-out offers the message to the subscribers of its type. -/
theorem Hub.fanoutLocked_chan (h : Hub) (msg : Message) (c : ℕ) :
    (h.fanoutLocked msg).chan c =
      if c ∈ h.registry.subscribers msg.typeName then (h.chan c).offer msg else h.chan c := by
  unfold Hub.fanoutLocked Registry.subscribers
  cases h.registry.subs.lookup msg.typeName with
  | none => simp
  | some ids => rfl

/-- What a fan-out puts into a queue. -/
theorem Hub.fanoutLocked_queue (h : Hub) (msg : Message) (c : ℕ) :
    ((h.fanoutLocked msg).chan c).queue =
      (h.chan c).queue ++ if c ∈ h.recipients msg then [.deliver msg] else [] := by
  rw [Hub.fanoutLocked_chan]
  simp only [Hub.recipients, Finset.mem_filter]
  by_cases hmem : c ∈ h.registry.subscribers msg.typeName
  · rw [if_pos hmem]
    unfold Chan.offer
    by_cases hroom : (h.chan c).hasRoom = true
    · rw [if_pos hroom, if_pos ⟨hmem, hroom⟩]
    · have hnot : ¬(c ∈ h.registry.subscribers msg.typeName ∧ (h.chan c).hasRoom = true) :=
        fun hb => hroom hb.2
      rw [if_neg hroom, if_neg hnot, List.append_nil]
      split <;> rfl
  · rw [if_neg hmem, if_neg (fun hb => hmem hb.1), List.append_nil]

end Specifications

end MacroBus
