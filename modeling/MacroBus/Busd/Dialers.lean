import MacroBus.Busd.Federation
import MacroBus.Lib.Slots

/-!
# The dialers of a daemon

A daemon runs one dialer for each configured peer. All of them put the senders of their
links into one map, under the configured ids, and take them out by id again. A step is one
use of the map, or one stage in the life of a link.
-/

namespace MacroBus

namespace Dialers

/-- The channel behind a sender. -/
structure Channel where
  /-- The frames in the queue, oldest first. -/
  queue : List OutFrame := []
  /-- Whether the receiver is still there. -/
  receiver : Bool := true
  deriving DecidableEq

/-- What `try_send` answers. -/
inductive Sent
  /-- The frame is queued. -/
  | ok
  /-- The queue is full. -/
  | full
  /-- There is no receiver. -/
  | closed
  deriving DecidableEq

/-- `Sender::try_send` -/
def Channel.trySend (c : Channel) (frame : OutFrame) : Channel × Sent :=
  if !c.receiver then (c, .closed)
  else if c.queue.length < PEER_QUEUE_DEPTH then ({ c with queue := c.queue ++ [frame] }, .ok)
  else (c, .full)

/-- How far the dialer has come in `dial_once`. Senders are numbered in the order in which
their channels are made. -/
inductive Stage
  /-- Its sender is not made yet. -/
  | dialing
  /-- It has inserted its sender. -/
  | inserted (tx : ℕ)
  /-- It has taken the snapshot, and these records are still to be pushed. -/
  | pushing (tx : ℕ) (rest : List (Str × TypeReg))
  /-- The read and write loops run. -/
  | running (tx : ℕ)
  /-- One of them has ended, and both are dropped. -/
  | ended (tx : ℕ) (result : Except Str Unit)
  deriving DecidableEq

/-- The sender a dialer has made, from the insertion to the removal. -/
def Stage.sender : Stage → Option ℕ
  | .dialing => none
  | .inserted tx => some tx
  | .pushing tx _ => some tx
  | .running tx => some tx
  | .ended tx _ => some tx

/-- The sender of a link that is up: its receiver is with the dialer or its write loop. -/
def Stage.up : Stage → Option ℕ
  | .dialing => none
  | .inserted tx => some tx
  | .pushing tx _ => some tx
  | .running tx => some tx
  | .ended _ _ => none

variable (cfg : Config)

/-- The dialers of a daemon: one for each configured peer. -/
abbrev Dialer := Fin cfg.cluster.peers.length

variable {cfg}

/-- The id of the dialer's peer. -/
def peerId (k : Dialer cfg) : Str := (cfg.cluster.peers.get k).id

variable (cfg)

/-- The peer links of a daemon. -/
structure State where
  /-- The map `peers`. -/
  peers : AList fun _ : Str => ℕ := ∅
  /-- The channels. -/
  channel : ℕ → Channel := fun _ => {}
  /-- How many channels have been made. -/
  made : ℕ := 0
  /-- The dialers. -/
  stage : Dialer cfg → Stage := fun _ => .dialing

/-- A step of the dialers, or a broadcast. -/
inductive Action
  /-- A dialer has greeted its peer, and inserts a sender. -/
  | insert (k : Dialer cfg)
  /-- It takes the snapshot of the registrations. -/
  | snapshot (k : Dialer cfg) (table : List (Str × TypeReg))
  /-- It pushes one record of the snapshot. -/
  | push (k : Dialer cfg)
  /-- It starts its loops. -/
  | start (k : Dialer cfg)
  /-- Its write loop writes a frame. -/
  | write (k : Dialer cfg)
  /-- Its write loop finds the queue empty and no sender left. -/
  | hangUp (k : Dialer cfg)
  /-- Its read loop ends, or its write loop fails. -/
  | finish (k : Dialer cfg) (result : Except Str Unit)
  /-- It removes its sender. -/
  | remove (k : Dialer cfg)
  /-- A handler or a read loop broadcasts. -/
  | broadcast (frame : OutFrame) (exclude : Option Str)

/-- What is observed of a step. -/
inductive Event
  /-- A dialer inserted a sender. -/
  | inserted (k : Dialer cfg) (tx : ℕ)
  /-- A frame was dropped because the queue of the sender under this id was full. -/
  | full (id : Str) (frame : OutFrame)
  /-- A frame was written. -/
  | wrote (k : Dialer cfg) (frame : OutFrame)
  /-- A dialer removed what was under the id of its peer. -/
  | removed (k : Dialer cfg) (tx : Option ℕ)
  /-- `dial_once` returned. -/
  | returned (k : Dialer cfg) (result : Except Str Unit)
  deriving DecidableEq

variable {cfg}

/-- Whether the sender is still in the map: it is nowhere else. -/
def hasSender (peers : AList fun _ : Str => ℕ) (tx : ℕ) : Bool :=
  peers.entries.any fun entry => entry.2 = tx

/-- The loop of `broadcast` over the entries of the map: the channels after it, and the ids
with a full queue. -/
def sendAll (frame : OutFrame) (exclude : Option Str) :
    List (Σ _ : Str, ℕ) → (ℕ → Channel) → (ℕ → Channel) × List Str
  | [], channel => (channel, [])
  | ⟨id, tx⟩ :: rest, channel =>
    if some id = exclude then sendAll frame exclude rest channel
    else
      let (ch, sent) := (channel tx).trySend frame
      let (channel, warned) := sendAll frame exclude rest (Function.update channel tx ch)
      (channel, if sent = .full then id :: warned else warned)

namespace State

variable (s : State cfg)

/-- Move a dialer on. -/
def setStage (k : Dialer cfg) (stage : Stage) : State cfg :=
  { s with stage := Function.update s.stage k stage }

/-- Replace a channel. -/
def setChannel (tx : ℕ) (ch : Channel) : State cfg :=
  { s with channel := Function.update s.channel tx ch }

/-- Make a channel, and insert its sender under the id of the peer. -/
def insert (k : Dialer cfg) : State cfg where
  peers := s.peers.insert (peerId k) s.made
  channel := Function.update s.channel s.made {}
  made := s.made + 1
  stage := Function.update s.stage k (.inserted s.made)

/-- Remove what is under the id of the peer. -/
def remove (k : Dialer cfg) : State cfg :=
  { s with
    peers := s.peers.erase (peerId k)
    stage := Function.update s.stage k .dialing }

/-- `broadcast` -/
def broadcast (frame : OutFrame) (exclude : Option Str) : State cfg × List (Event cfg) :=
  let (channel, warned) := sendAll frame exclude s.peers.entries s.channel
  ({ s with channel := channel }, warned.map fun id => .full id frame)

/-- The end of the loops: their futures are dropped, the receiver with them. -/
def drop (k : Dialer cfg) (tx : ℕ) (result : Except Str Unit) : State cfg :=
  (s.setChannel tx { queue := [], receiver := false }).setStage k (.ended tx result)

end State

/-- A step of the dialers. -/
def step (s : State cfg) : Action cfg → Option (State cfg × List (Event cfg))
  | .insert k =>
    match s.stage k with
    | .dialing => some (s.insert k, [.inserted k s.made])
    | _ => none
  | .snapshot k table =>
    match s.stage k with
    | .inserted tx => some (s.setStage k (.pushing tx table), [])
    | _ => none
  | .push k =>
    match s.stage k with
    | .pushing tx ((typeName, reg) :: rest) =>
      let pushed := match s.peers.lookup (peerId k) with
        | none => s
        | some t => s.setChannel t ((s.channel t).trySend (.rreg typeName reg)).1
      some (pushed.setStage k (.pushing tx rest), [])
    | _ => none
  | .start k =>
    match s.stage k with
    | .pushing tx [] => some (s.setStage k (.running tx), [])
    | _ => none
  | .write k =>
    match s.stage k with
    | .running tx =>
      match (s.channel tx).queue with
      | [] => none
      | frame :: queue =>
        some (s.setChannel tx { s.channel tx with queue := queue }, [.wrote k frame])
    | _ => none
  | .hangUp k =>
    match s.stage k with
    | .running tx =>
      if (s.channel tx).queue = [] ∧ hasSender s.peers tx = false then
        some (s.drop k tx (.ok ()), [])
      else none
    | _ => none
  | .finish k result =>
    match s.stage k with
    | .running tx => some (s.drop k tx result, [])
    | _ => none
  | .remove k =>
    match s.stage k with
    | .ended _ result =>
      some (s.remove k, [.removed k (s.peers.lookup (peerId k)), .returned k result])
    | _ => none
  | .broadcast frame exclude => some (s.broadcast frame exclude)

/-- A link receives a frame: it is queued, or the queue is full and that is reported. -/
def Received (id : Str) (frame : OutFrame) (before after : Channel)
    (es : List (Event cfg)) : Prop :=
  if before.queue.length < PEER_QUEUE_DEPTH then after.queue = before.queue ++ [frame]
  else .full id frame ∈ es

/-- **A dialer adds and removes its own link only**, and a link that is up takes part in
every broadcast. -/
structure OwnLinks (s : State cfg) (past : List (Event cfg)) : Prop where
  /-- From the insertion to the removal the sender under the peer's id is the dialer's. -/
  entry : ∀ k tx, (s.stage k).sender = some tx → s.peers.lookup (peerId k) = some tx
  /-- What a dialer has removed, no other dialer had inserted. -/
  cleanup : ∀ k k' tx, .removed k (some tx) ∈ past → .inserted k' tx ∈ past → k' = k
  /-- A link that is up receives every broadcast that does not exclude its peer. -/
  receives : ∀ k tx frame exclude, (s.stage k).up = some tx → some (peerId k) ≠ exclude →
    Received (peerId k) frame (s.channel tx) ((s.broadcast frame exclude).1.channel tx)
      (s.broadcast frame exclude).2

section Sending

variable {frame : OutFrame} {exclude : Option Str} {entries : List (Σ _ : Str, ℕ)}
  {channel : ℕ → Channel} {id : Str} {tx : ℕ}

/-- A frame that is offered does not close the channel, nor open it. -/
theorem Channel.trySend_receiver (c : Channel) (frame : OutFrame) :
    (c.trySend frame).1.receiver = c.receiver := by
  unfold Channel.trySend
  split
  · rfl
  split <;> rfl

/-- A broadcast closes no channel. -/
theorem sendAll_receiver :
    ((sendAll frame exclude entries channel).1 tx).receiver =
      (channel tx).receiver := by
  induction entries generalizing channel with
  | nil => rfl
  | cons entry entries ih =>
    rw [sendAll]
    split
    · exact ih
    · dsimp only
      rw [ih, Function.update_apply]
      split
      · next heq => rw [heq, Channel.trySend_receiver]
      · rfl

/-- A broadcast leaves the channels alone that are not in the map. -/
theorem sendAll_skip (h : ∀ entry ∈ entries, entry.2 ≠ tx) :
    (sendAll frame exclude entries channel).1 tx = channel tx := by
  induction entries generalizing channel with
  | nil => rfl
  | cons entry entries ih =>
    have hrest : ∀ entry ∈ entries, entry.2 ≠ tx := fun e he => h e (List.mem_cons_of_mem _ he)
    have hne : tx ≠ entry.2 := (h entry List.mem_cons_self).symm
    rw [sendAll]
    split
    · exact ih hrest
    · dsimp only
      rw [ih hrest, Function.update_of_ne hne]

/-- **A broadcast offers its frame** to a sender that stands under one id only. -/
theorem sendAll_mem (hmem : ⟨id, tx⟩ ∈ entries) (hid : some id ≠ exclude)
    (honce : ∀ entry ∈ entries, entry.2 = tx → entry.1 = id)
    (hkeys : (entries.map Sigma.fst).Nodup) (hopen : (channel tx).receiver = true) :
    if (channel tx).queue.length < PEER_QUEUE_DEPTH then
      ((sendAll frame exclude entries channel).1 tx).queue = (channel tx).queue ++ [frame]
    else id ∈ (sendAll frame exclude entries channel).2 := by
  induction entries generalizing channel with
  | nil => simp at hmem
  | cons entry entries ih =>
    obtain ⟨hfirst, hrest⟩ := List.nodup_cons.mp hkeys
    rcases List.mem_cons.mp hmem with rfl | hmem
    · -- The sender's own entry: no later one has this sender.
      have hothers : ∀ entry ∈ entries, entry.2 ≠ tx := by
        intro entry hentry heq
        have hsame := honce entry (List.mem_cons_of_mem _ hentry) heq
        exact hfirst (List.mem_map.mpr ⟨entry, hentry, hsame⟩)
      rw [sendAll, if_neg hid]
      dsimp only
      rw [sendAll_skip hothers, Function.update_self]
      unfold Channel.trySend
      rw [hopen]
      split
      · simp
      · simp
    · have hne : tx ≠ entry.2 := by
        intro heq
        have hsame := honce entry List.mem_cons_self heq.symm
        rw [hsame] at hfirst
        exact hfirst (List.mem_map.mpr ⟨_, hmem, rfl⟩)
      have honce' : ∀ entry ∈ entries, entry.2 = tx → entry.1 = id := fun e he =>
        honce e (List.mem_cons_of_mem _ he)
      rw [sendAll]
      by_cases hskip : some entry.1 = exclude
      · rw [if_pos hskip]
        exact ih hmem honce' hrest hopen
      · have hopen' : (Function.update channel entry.2
            ((channel entry.2).trySend frame).1 tx).receiver = true := by
          rw [Function.update_of_ne hne]
          exact hopen
        have hih := ih hmem honce' hrest hopen'
        rw [if_neg hskip]
        dsimp only
        rw [Function.update_of_ne hne] at hih
        split at hih
        · next hroom => rwa [if_pos hroom]
        · next hroom =>
          rw [if_neg hroom]
          split
          · exact List.mem_cons_of_mem _ hih
          · exact hih

end Sending

section Steps

variable {s s' : State cfg} {a : Action cfg} {es past : List (Event cfg)} {k : Dialer cfg}
  {tx : ℕ}

/-- The map, and the senders of the dialers. -/
def State.slots (s : State cfg) : Slots Str (Dialer cfg) ℕ where
  table := fun id => s.peers.lookup id
  held := fun k => (s.stage k).sender

/-- A step that neither inserts a sender nor removes one. -/
structure Quiet (s s' : State cfg) (es : List (Event cfg)) : Prop where
  /-- The map and the senders stay. -/
  slots : s'.slots = s.slots
  /-- No channel is made. -/
  made : s'.made = s.made
  /-- No link comes up. -/
  up : ∀ k tx, (s'.stage k).up = some tx → (s.stage k).up = some tx
  /-- A receiver goes with the loops of its own dialer only. -/
  receiver : ∀ tx, (s'.channel tx).receiver = (s.channel tx).receiver ∨
    ∃ k result, s'.stage k = .ended tx result
  /-- Nothing is reported of the map. -/
  events : ∀ e ∈ es, ∀ k, (∀ tx, e ≠ .inserted k tx) ∧ ∀ tx, e ≠ .removed k tx

/-- A dialer that moves on with its sender leaves the map and the senders alone. -/
theorem slots_setStage {stage : Stage} (h : stage.sender = (s.stage k).sender) :
    (s.setStage k stage).slots = s.slots := by
  unfold State.slots State.setStage
  congr 1
  funext k'
  dsimp only
  rw [Function.update_apply]
  split
  · next heq => rw [heq, h]
  · rfl

/-- A dialer that moves on brings no link up but its own. -/
theorem up_setStage {stage : Stage} (h : ∀ tx, stage.up = some tx → (s.stage k).up = some tx) :
    ∀ k' tx, ((s.setStage k stage).stage k').up = some tx → (s.stage k').up = some tx := by
  intro k' tx
  unfold State.setStage
  dsimp only
  rw [Function.update_apply]
  split
  · next heq =>
    rw [heq]
    exact h tx
  · exact id

/-- A dialer that moves on with its sender, and no other change. -/
theorem quiet_setStage {stage : Stage} (hsender : stage.sender = (s.stage k).sender)
    (hup : ∀ tx, stage.up = some tx → (s.stage k).up = some tx) :
    Quiet s (s.setStage k stage) [] :=
  ⟨slots_setStage hsender, rfl, up_setStage hup, fun _ => Or.inl rfl, by simp⟩

/-- The end of a dialer's loops. -/
theorem quiet_drop {result : Except Str Unit} (h : s.stage k = .running tx) :
    Quiet s (s.drop k tx result) [] := by
  have hsender : (Stage.ended tx result).sender = ((s.setChannel tx ⟨[], false⟩).stage k).sender := by
    change some tx = (s.stage k).sender
    rw [h]
    rfl
  refine ⟨slots_setStage hsender, rfl, up_setStage (fun tx' h' => by cases h'), ?_, by simp⟩
  intro tx'
  by_cases heq : tx' = tx
  · refine Or.inr ⟨k, result, ?_⟩
    rw [heq]
    exact Function.update_self ..
  · refine Or.inl ?_
    unfold State.drop State.setStage State.setChannel
    dsimp only
    rw [Function.update_of_ne heq]

/-- **What a step does**: it inserts a sender, removes one, or leaves the map alone. -/
theorem step_cases (h : step s a = some (s', es)) :
    (∃ k, a = .insert k ∧ s.stage k = .dialing ∧ s' = s.insert k ∧ es = [.inserted k s.made]) ∨
    (∃ k tx result, s.stage k = .ended tx result ∧ s' = s.remove k ∧
      es = [.removed k (s.peers.lookup (peerId k)), .returned k result]) ∨
    Quiet s s' es := by
  cases a with
  | insert k =>
    simp only [step] at h
    split at h
    · next hstage =>
      obtain ⟨rfl, rfl⟩ := by simpa only [Option.some.injEq, Prod.mk.injEq] using h
      exact Or.inl ⟨k, rfl, hstage, rfl, rfl⟩
    · cases h
  | snapshot k table =>
    simp only [step] at h
    split at h
    · next tx hstage =>
      obtain ⟨rfl, rfl⟩ := by simpa only [Option.some.injEq, Prod.mk.injEq] using h
      exact Or.inr (Or.inr (quiet_setStage (by rw [hstage]; rfl) (by rw [hstage]; exact fun _ => id)))
    · cases h
  | push k =>
    simp only [step] at h
    split at h
    · next tx typeName reg rest hstage =>
      obtain ⟨rfl, rfl⟩ := by simpa only [Option.some.injEq, Prod.mk.injEq] using h
      refine Or.inr (Or.inr ?_)
      cases hlookup : s.peers.lookup (peerId k) with
      | none => exact quiet_setStage (by rw [hstage]; rfl) (by rw [hstage]; exact fun _ => id)
      | some t =>
        let s₁ := s.setChannel t ((s.channel t).trySend (.rreg typeName reg)).1
        have hstage₁ : s₁.stage k = .pushing tx ((typeName, reg) :: rest) := hstage
        have hquiet : Quiet s₁ (s₁.setStage k (.pushing tx rest)) [] :=
          quiet_setStage (by rw [hstage₁]; rfl) (by rw [hstage₁]; exact fun _ => id)
        refine ⟨hquiet.slots, rfl, hquiet.up, ?_, by simp⟩
        intro tx'
        refine Or.inl ?_
        change (Function.update s.channel t _ tx').receiver = _
        rw [Function.update_apply]
        split
        · next heq => rw [heq, Channel.trySend_receiver]
        · rfl
    · cases h
  | start k =>
    simp only [step] at h
    split at h
    · next tx hstage =>
      obtain ⟨rfl, rfl⟩ := by simpa only [Option.some.injEq, Prod.mk.injEq] using h
      exact Or.inr (Or.inr (quiet_setStage (by rw [hstage]; rfl) (by rw [hstage]; exact fun _ => id)))
    · cases h
  | write k =>
    simp only [step] at h
    split at h
    · next tx hstage =>
      split at h
      · cases h
      · next frame queue hqueue =>
        obtain ⟨rfl, rfl⟩ := by simpa only [Option.some.injEq, Prod.mk.injEq] using h
        refine Or.inr (Or.inr ⟨rfl, rfl, fun _ _ => id, ?_, by simp⟩)
        intro tx'
        refine Or.inl ?_
        change (Function.update s.channel tx _ tx').receiver = _
        rw [Function.update_apply]
        split
        · next heq => rw [heq]
        · rfl
    · cases h
  | hangUp k =>
    simp only [step] at h
    split at h
    · next tx hstage =>
      split at h
      · obtain ⟨rfl, rfl⟩ := by simpa only [Option.some.injEq, Prod.mk.injEq] using h
        exact Or.inr (Or.inr (quiet_drop hstage))
      · cases h
    · cases h
  | finish k result =>
    simp only [step] at h
    split at h
    · next tx hstage =>
      obtain ⟨rfl, rfl⟩ := by simpa only [Option.some.injEq, Prod.mk.injEq] using h
      exact Or.inr (Or.inr (quiet_drop hstage))
    · cases h
  | remove k =>
    simp only [step] at h
    split at h
    · next tx result hstage =>
      obtain ⟨rfl, rfl⟩ := by simpa only [Option.some.injEq, Prod.mk.injEq] using h
      exact Or.inr (Or.inl ⟨k, tx, result, hstage, rfl, rfl⟩)
    · cases h
  | broadcast frame exclude =>
    obtain ⟨rfl, rfl⟩ := by simpa only [step, State.broadcast, Option.some.injEq,
      Prod.mk.injEq] using h
    refine Or.inr (Or.inr ⟨rfl, rfl, fun _ _ => id, fun _ => Or.inl sendAll_receiver, ?_⟩)
    intro e he k
    obtain ⟨id, _, rfl⟩ := List.mem_map.mp he
    exact ⟨by simp, by simp⟩

end Steps

section Runs

variable {s s' : State cfg} {a : Action cfg} {es past : List (Event cfg)} {k : Dialer cfg}
  {tx : ℕ}

/-- Nobody inserts a sender while another dialer of the same id has one. -/
def Apart (s : State cfg) (_ : List (Event cfg)) (a : Action cfg) : Prop :=
  ∀ k, a = .insert k → ∀ k', k' ≠ k → peerId k' = peerId k → s.stage k' = .dialing

/-- What runs keep where dialers of one id stay apart. -/
structure Inv (s : State cfg) (past : List (Event cfg)) : Prop where
  /-- Every sender in the map is the one its dialer holds. -/
  owned : s.slots.Owned peerId
  /-- Senders were inserted by the dialers that hold them. -/
  recorded : ∀ k tx, (s.stage k).sender = some tx → .inserted k tx ∈ past
  /-- Inserted senders have numbers already given. -/
  made : ∀ k tx, .inserted k tx ∈ past → tx < s.made
  /-- A sender is inserted by one dialer. -/
  inserter : ∀ k k' tx, .inserted k tx ∈ past → .inserted k' tx ∈ past → k' = k
  /-- Dialers have removed their own senders. -/
  removed : ∀ k tx, .removed k (some tx) ∈ past → .inserted k tx ∈ past
  /-- A link that is up has its receiver. -/
  receiver : ∀ k tx, (s.stage k).up = some tx → (s.channel tx).receiver = true

/-- A link that is up has a sender. -/
theorem Stage.sender_of_up {stage : Stage} (h : stage.up = some tx) : stage.sender = some tx := by
  cases stage with
  | ended => cases h
  | _ => exact h

/-- The map and the senders after an insertion. -/
theorem State.insert_slots (s : State cfg) (k : Dialer cfg) :
    (s.insert k).slots = s.slots.claim peerId k s.made := by
  unfold State.slots State.insert Slots.claim
  congr 1
  · funext id
    dsimp only
    rw [Function.update_apply]
    split
    · next heq => rw [heq, AList.lookup_insert]
    · next hne => exact AList.lookup_insert_ne hne
  · funext k'
    dsimp only
    rw [Function.update_apply, Function.update_apply]
    split <;> rfl

/-- The map and the senders after a removal. -/
theorem State.remove_slots (s : State cfg) (k : Dialer cfg) :
    (s.remove k).slots = s.slots.release peerId k := by
  unfold State.slots State.remove Slots.release
  congr 1
  · funext id
    dsimp only
    rw [Function.update_apply]
    split
    · next heq => rw [heq, AList.lookup_erase]
    · next hne => exact AList.lookup_erase_ne hne
  · funext k'
    dsimp only
    rw [Function.update_apply, Function.update_apply]
    split <;> rfl

/-- Nothing has been inserted at the start. -/
theorem inv_start : Inv ({} : State cfg) [] := by
  refine ⟨Slots.owned_empty, ?_, by simp, by simp, by simp, ?_⟩
  · intro k tx h
    cases h
  · intro k tx h
    cases h

/-- An insertion keeps the invariant. -/
theorem Inv.insert (h : Inv s past)
    (hapart : ∀ k', k' ≠ k → peerId k' = peerId k → s.stage k' = .dialing) :
    Inv (s.insert k) (past ++ [.inserted k s.made]) := by
  have hnew : ∀ k', .inserted k' s.made ∉ past := fun k' hk' => (h.made k' _ hk').false
  have hmem : ∀ k' tx, .inserted k' tx ∈ past ++ [Event.inserted k s.made] →
      .inserted k' tx ∈ past ∨ k' = k ∧ tx = s.made := by
    intro k' tx hk'
    rcases List.mem_append.mp hk' with hk' | hk'
    · exact Or.inl hk'
    · exact Or.inr (by simpa using hk')
  refine ⟨?_, ?_, ?_, ?_, ?_, ?_⟩
  · rw [State.insert_slots]
    refine h.owned.claim (fun k' hk' => hnew k' (h.recorded k' _ hk')) ?_
    intro k' hne hkey
    change (s.stage k').sender = none
    rw [hapart k' hne hkey]
    rfl
  · intro k' tx hk'
    simp only [State.insert, Function.update_apply] at hk'
    split at hk'
    · next heq =>
      obtain rfl := Option.some.inj hk'
      simp [heq]
    · exact List.mem_append_left _ (h.recorded k' tx hk')
  · intro k' tx hk'
    change tx < s.made + 1
    rcases hmem k' tx hk' with hk' | ⟨_, rfl⟩
    · have hlt := h.made k' tx hk'
      omega
    · omega
  · intro k₁ k₂ tx h₁ h₂
    rcases hmem k₁ tx h₁ with hold₁ | ⟨hk₁, htx⟩ <;>
      rcases hmem k₂ tx h₂ with hold₂ | ⟨hk₂, htx'⟩
    · exact h.inserter k₁ k₂ tx hold₁ hold₂
    · rw [htx'] at hold₁
      exact absurd hold₁ (hnew k₁)
    · rw [htx] at hold₂
      exact absurd hold₂ (hnew k₂)
    · rw [hk₁, hk₂]
  · intro k' tx hk'
    have hold : .removed k' (some tx) ∈ past := by simpa using hk'
    exact List.mem_append_left _ (h.removed k' tx hold)
  · intro k' tx hk'
    simp only [State.insert, Function.update_apply] at hk' ⊢
    split at hk'
    · next heq =>
      obtain rfl := Option.some.inj hk'
      rw [if_pos rfl]
    · have hne : tx ≠ s.made := by
        rintro rfl
        exact hnew k' (h.recorded k' _ (Stage.sender_of_up hk'))
      rw [if_neg hne]
      exact h.receiver k' tx hk'

/-- A removal keeps the invariant: what is removed is the dialer's own. -/
theorem Inv.remove {result : Except Str Unit} (h : Inv s past)
    (hstage : s.stage k = .ended tx result) :
    Inv (s.remove k)
      (past ++ [.removed k (s.peers.lookup (peerId k)), .returned k result]) := by
  have hheld : s.slots.held k = some tx := by
    change (s.stage k).sender = some tx
    rw [hstage]
    rfl
  have hown : s.peers.lookup (peerId k) = some tx := h.owned.entry k tx hheld
  have hmem : ∀ k' tx', .inserted k' tx' ∈
      past ++ [Event.removed k (s.peers.lookup (peerId k)), .returned k result] →
      .inserted k' tx' ∈ past := by
    intro k' tx' hk'
    simpa using hk'
  refine ⟨?_, ?_, ?_, ?_, ?_, ?_⟩
  · rw [State.remove_slots]
    exact h.owned.release hheld
  · intro k' tx' hk'
    simp only [State.remove, Function.update_apply] at hk'
    split at hk'
    · cases hk'
    · exact List.mem_append_left _ (h.recorded k' tx' hk')
  · exact fun k' tx' hk' => h.made k' tx' (hmem k' tx' hk')
  · exact fun k₁ k₂ tx' h₁ h₂ => h.inserter k₁ k₂ tx' (hmem k₁ tx' h₁) (hmem k₂ tx' h₂)
  · intro k' tx' hk'
    rw [hown] at hk'
    refine List.mem_append_left _ ?_
    rcases List.mem_append.mp hk' with hk' | hk'
    · exact h.removed k' tx' hk'
    · obtain ⟨rfl, rfl⟩ : k' = k ∧ tx' = tx := by simpa using hk'
      exact h.recorded k' tx' hheld
  · intro k' tx' hk'
    simp only [State.remove, Function.update_apply] at hk' ⊢
    split at hk'
    · cases hk'
    · exact h.receiver k' tx' hk'

/-- The other steps keep the invariant. -/
theorem Inv.quiet (h : Inv s past) (hquiet : Quiet s s' es) : Inv s' (past ++ es) := by
  have hsender : ∀ k, (s'.stage k).sender = (s.stage k).sender :=
    fun k => congrFun (congrArg Slots.held hquiet.slots) k
  have hmem : ∀ k tx, .inserted k tx ∈ past ++ es → .inserted k tx ∈ past := by
    intro k tx hk
    rcases List.mem_append.mp hk with hk | hk
    · exact hk
    · exact absurd rfl ((hquiet.events _ hk k).1 tx)
  refine ⟨?_, ?_, ?_, ?_, ?_, ?_⟩
  · rw [hquiet.slots]
    exact h.owned
  · intro k tx hk
    rw [hsender] at hk
    exact List.mem_append_left _ (h.recorded k tx hk)
  · intro k tx hk
    rw [hquiet.made]
    exact h.made k tx (hmem k tx hk)
  · exact fun k₁ k₂ tx h₁ h₂ => h.inserter k₁ k₂ tx (hmem k₁ tx h₁) (hmem k₂ tx h₂)
  · intro k tx hk
    rcases List.mem_append.mp hk with hk | hk
    · exact List.mem_append_left _ (h.removed k tx hk)
    · exact absurd rfl ((hquiet.events _ hk k).2 (some tx))
  · intro k tx hk
    rcases hquiet.receiver tx with heq | ⟨k', result, hended⟩
    · rw [heq]
      exact h.receiver k tx (hquiet.up k tx hk)
    · -- The receiver went with the loops of a link that is not up.
      have hheld := Stage.sender_of_up hk
      have hheld' : (s'.stage k').sender = some tx := by rw [hended]; rfl
      rw [hsender] at hheld hheld'
      obtain rfl := h.owned.once k k' tx hheld hheld'
      rw [hended] at hk
      cases hk

/-- Every step keeps the invariant where dialers of one id stay apart. -/
theorem Inv.step (h : Inv s past) (hapart : Apart s past a)
    (hstep : step s a = some (s', es)) : Inv s' (past ++ es) := by
  rcases step_cases hstep with ⟨k, rfl, _, rfl, rfl⟩ | ⟨k, tx, result, hstage, rfl, rfl⟩ |
    hquiet
  · exact h.insert (hapart k rfl)
  · exact h.remove hstage
  · exact h.quiet hquiet

/-- Under the invariant dialers add and remove their own links only. -/
theorem Inv.ownLinks (h : Inv s past) : OwnLinks s past := by
  refine ⟨h.owned.entry, ?_, ?_⟩
  · intro k k' tx hremoved hinserted
    exact h.inserter k k' tx (h.removed k tx hremoved) hinserted
  · intro k tx frame exclude hup hid
    have hheld : s.slots.held k = some tx := Stage.sender_of_up hup
    have hentry : s.peers.lookup (peerId k) = some tx := h.owned.entry k tx hheld
    have hmem : ⟨peerId k, tx⟩ ∈ s.peers.entries := AList.mem_lookup_iff.mp hentry
    have honce : ∀ entry ∈ s.peers.entries, entry.2 = tx → entry.1 = peerId k := by
      intro entry hentry' heq
      obtain ⟨k', hkey, hk'⟩ := h.owned.holder entry.1 entry.2 (AList.mem_lookup_iff.mpr hentry')
      rw [heq] at hk'
      rw [← hkey, h.owned.once k' k tx hk' hheld]
    have hkeys : (s.peers.entries.map Sigma.fst).Nodup := s.peers.nodupKeys
    have hopen := h.receiver k tx hup
    have hsent : if (s.channel tx).queue.length < PEER_QUEUE_DEPTH then
        ((sendAll frame exclude s.peers.entries s.channel).1 tx).queue =
          (s.channel tx).queue ++ [frame]
      else peerId k ∈ (sendAll frame exclude s.peers.entries s.channel).2 :=
      sendAll_mem hmem hid honce hkeys hopen
    unfold Received State.broadcast
    dsimp only
    split
    · next hroom => rwa [if_pos hroom] at hsent
    · next hroom =>
      rw [if_neg hroom] at hsent
      exact List.mem_map.mpr ⟨peerId k, hsent, rfl⟩

/-- **Dialers that stay apart** add and remove their own links only, in every state of
every run. -/
theorem ownLinks_of_apart (hrun : Transition.Run step Apart ({} : State cfg) s past) :
    OwnLinks s past := by
  have hinv : Inv s past := by
    refine hrun.invariant (I := Inv) inv_start ?_
    intro s past a s' es h hok hstep
    exact h.step hok hstep
  exact hinv.ownLinks

end Runs

/-- No two peers are configured under one id. -/
theorem ids_nodup_iff : (cfg.cluster.peers.map PeerConfig.id).Nodup ↔
    ∀ k k' : Dialer cfg, k' ≠ k → peerId k' ≠ peerId k := by
  unfold List.Nodup
  rw [List.pairwise_map, List.pairwise_iff_get]
  constructor
  · intro h k k' hne
    rcases lt_or_gt_of_ne hne with hlt | hgt
    · exact h k' k hlt
    · exact (h k k' hgt).symm
  · exact fun h k k' hlt => h k' k hlt.ne

/-- **The dialers of a daemon** add and remove their own links only, in every state of every
run, exactly where no two peers are configured under one id. -/
theorem ownLinks_iff (cfg : Config) :
    (∀ s past, Transition.Run step Transition.anyStep ({} : State cfg) s past →
      OwnLinks s past) ↔ (cfg.cluster.peers.map PeerConfig.id).Nodup := by
  rw [ids_nodup_iff]
  constructor
  · intro h k k' hne hid
    -- Both dialers insert, one after the other.
    have hfirst : step ({} : State cfg) (.insert k) = some (_, _) := rfl
    have hstage : ((({} : State cfg).insert k).stage k') = .dialing :=
      Function.update_of_ne hne ..
    have hsecond : step (({} : State cfg).insert k) (.insert k') =
        some ((({} : State cfg).insert k).insert k', [.inserted k' 1]) := by
      simp only [step, hstage]
      rfl
    have hstart : Transition.Run step Transition.anyStep ({} : State cfg) {} [] := .init
    have hrun := (hstart.step trivial hfirst).step trivial hsecond
    have hheld : ((({} : State cfg).insert k).insert k').stage k = .inserted 0 := by
      unfold State.insert
      dsimp only
      rw [Function.update_of_ne hne.symm, Function.update_self]
    have hentry := (h _ _ hrun).entry k 0 (by rw [hheld]; rfl)
    change AList.lookup (peerId k) (AList.insert (peerId k') 1 _) = some 0 at hentry
    rw [hid, AList.lookup_insert] at hentry
    cases hentry
  · intro h s past hrun
    refine ownLinks_of_apart (hrun.weaken ?_)
    intro s past a _ k _ k' hne hid
    exact absurd hid (h k k' hne)

/-- A daemon whose configuration names one peer under two addresses. -/
def doubled : Config where
  daemonId := "d1".toList
  cluster := { peers := [⟨"d2".toList, "10.0.0.2:7071".toList⟩,
    ⟨"d2".toList, "10.0.1.2:7071".toList⟩] }
  tls := some {}

/-- Its first dialer. -/
def first : Dialer doubled := ⟨0, by decide⟩

/-- Its second dialer. -/
def second : Dialer doubled := ⟨1, by decide⟩

/-- The second dialer inserts its sender over the first's, whose link ends. Its dialer removes
the sender of the second. -/
def takenOver : List (Action doubled) :=
  [.insert first, .snapshot first [], .start first, .insert second, .snapshot second [],
    .start second, .hangUp first, .remove first]

/-- A frame to broadcast. -/
def someFrame : OutFrame := .rreg "t".toList ⟨"k".toList, "d1".toList, 0⟩

/-- The first dialer has removed the sender of the second, whose link is up and misses a
broadcast. -/
def Misses (s : State doubled) (past : List (Event doubled)) : Prop :=
  .inserted second 1 ∈ past ∧ .removed first (some 1) ∈ past ∧
    (s.stage second).up = some 1 ∧ (s.channel 1).queue = [] ∧
    ((s.broadcast someFrame none).1.channel 1).queue = []

instance (s : State doubled) (past : List (Event doubled)) : Decidable (Misses s past) :=
  inferInstanceAs (Decidable (_ ∧ _ ∧ _ ∧ _ ∧ _))

/-- **One id under two addresses**: the configuration is accepted, and a dialer removes the
sender of the other, whose link is up and receives no broadcast. -/
theorem cleanup_takes_other_sender :
    doubled.validate = .ok () ∧
    ∃ s past, Transition.Run step Transition.anyStep ({} : State doubled) s past ∧
      Misses s past ∧ ¬OwnLinks s past := by
  obtain ⟨s, past, hrun, hend⟩ := Transition.exists_run step (fun _ _ _ => true)
    ({} : State doubled) takenOver (P := Misses) (by decide)
  refine ⟨by decide, s, past, hrun.weaken fun _ _ _ _ => trivial, hend, ?_⟩
  obtain ⟨hinserted, hremoved, _⟩ := hend
  intro hown
  exact absurd (hown.cleanup first second 1 hremoved hinserted) (by decide)

end Dialers

end MacroBus
