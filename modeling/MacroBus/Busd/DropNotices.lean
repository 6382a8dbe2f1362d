import Mathlib.Algebra.BigOperators.Group.List.Basic
import MacroBus.Busd.FanOut
import MacroBus.Busd.Outlet

/-!
# Drop notices account for every lost message

What is offered to a connection is written, or waits in its queue, or is counted in a notice,
written or not. A connection that waits with drops to report is about to be woken.
-/

namespace MacroBus

/-- `serve` has not returned. -/
def Phase.isLive : Phase → Bool
  | .ended _ | .gone => false
  | _ => true

/-- One, for a message of the type. -/
def Message.countOf (typeName : Str) (msg : Message) : ℕ := if msg.typeName = typeName then 1 else 0

/-- One, for an item that delivers a message of the type. -/
def Outbound.countOf (typeName : Str) : Outbound → ℕ
  | .deliver msg => msg.countOf typeName
  | .note _ => 0

namespace Outlet

/-- One, for an offer of a message of the type. -/
def Event.offers (typeName : Str) : Event → ℕ
  | .offered msg => msg.countOf typeName
  | _ => 0

/-- One, for a `101` push of the type. -/
def Event.pushes (typeName : Str) : Event → ℕ
  | .pushed (.message msg) => msg.countOf typeName
  | _ => 0

/-- The count in a `102` notice for the type. -/
def Event.notices (typeName : Str) : Event → ℕ
  | .pushed (.drop typeName' count) => if typeName' = typeName then count else 0
  | _ => 0

/-- How many messages of the type were offered. -/
def offered (past : List Event) (typeName : Str) : ℕ := (past.map (Event.offers typeName)).sum

/-- How many `101` pushes of the type were written. -/
def pushed (past : List Event) (typeName : Str) : ℕ := (past.map (Event.pushes typeName)).sum

/-- The sum of the counts in the `102` notices for the type. -/
def noticed (past : List Event) (typeName : Str) : ℕ := (past.map (Event.notices typeName)).sum

/-- How many messages of the type are queued. -/
def queued (ch : Chan) (typeName : Str) : ℕ := (ch.queue.map (Outbound.countOf typeName)).sum

/-- The pending count of the type. -/
def pending (ch : Chan) (typeName : Str) : ℕ := (ch.drops.lookup typeName).getD 0

/-- The messages of the type being written. -/
def writing (phase : Phase) (typeName : Str) : ℕ :=
  match phase with
  | .deliver out => out.countOf typeName
  | _ => 0

/-- The counts drained and not yet written. -/
def drained (phase : Phase) (typeName : Str) : ℕ :=
  match phase with
  | .flush notices => (notices.map fun n => if n.1 = typeName then n.2 else 0).sum
  | _ => 0

/-- Everything offered that has not been written. -/
def held (o : Outlet) (typeName : Str) : ℕ :=
  queued o.chan typeName + writing o.conn.phase typeName + drained o.conn.phase typeName +
    pending o.chan typeName

/-- Where the messages of the type that were offered are: pushed, queued or being written,
counted in a notice, drained, or pending. -/
def accounted (o : Outlet) (past : List Event) (typeName : Str) : ℕ :=
  pushed past typeName + (queued o.chan typeName + writing o.conn.phase typeName) +
    noticed past typeName + drained o.conn.phase typeName + pending o.chan typeName

section Chans

variable {ch : Chan} {typeName : Str} {msg : Message}

/-- A drop is counted, modulo 2^64. -/
theorem pending_recordDrop (ch : Chan) (msg : Message) (typeName : Str) :
    ∃ k, pending ch typeName + msg.countOf typeName =
      pending (ch.recordDrop msg.typeName) typeName + u64Values * k := by
  unfold pending Chan.recordDrop Message.countOf
  by_cases ht : msg.typeName = typeName
  · subst ht
    rw [if_pos rfl, AList.lookup_insert]
    exact ⟨_, (Nat.mod_add_div _ _).symm⟩
  · refine ⟨0, ?_⟩
    rw [if_neg ht, AList.lookup_insert_ne (Ne.symm ht)]
    omega

/-- An offer to an open channel ends up in the queue or in the counters. -/
theorem queued_offer (hopen : ch.isOpen = true) (msg : Message) (typeName : Str) :
    ∃ k, queued ch typeName + pending ch typeName + msg.countOf typeName =
      queued (ch.offer msg) typeName + pending (ch.offer msg) typeName + u64Values * k := by
  unfold Chan.offer
  by_cases hroom : ch.hasRoom = true
  · refine ⟨0, ?_⟩
    rw [if_pos hroom]
    simp only [queued, pending, List.map_append, List.sum_append, List.map_cons, List.map_nil,
      List.sum_cons, List.sum_nil, Outbound.countOf]
    omega
  · obtain ⟨k, hk⟩ := pending_recordDrop ch msg typeName
    refine ⟨k, ?_⟩
    have hqueue : queued (ch.recordDrop msg.typeName) typeName = queued ch typeName := rfl
    rw [if_neg hroom, if_pos hopen, hqueue]
    omega

/-- An offer does not close a channel. -/
theorem offer_isOpen (ch : Chan) (msg : Message) : (ch.offer msg).isOpen = ch.isOpen := by
  unfold Chan.offer
  split
  · rfl
  · split <;> rfl

/-- What is drained is what was pending. -/
theorem drained_entries (drops : AList fun _ : Str => ℕ) (typeName : Str) :
    drained (.flush (drops.entries.map fun e => (e.1, e.2))) typeName =
      (drops.lookup typeName).getD 0 := by
  obtain ⟨entries, hnodup⟩ := drops
  unfold drained AList.lookup
  dsimp only
  rw [List.map_map]
  induction entries with
  | nil => rfl
  | cons e entries ih =>
    obtain ⟨hnew, hrest⟩ := List.nodupKeys_cons.mp hnodup
    obtain ⟨t, n⟩ := e
    rw [List.map_cons, List.sum_cons, ih hrest]
    by_cases ht : t = typeName
    · subst ht
      have hnone : List.dlookup t entries = none := List.dlookup_eq_none.mpr hnew
      simp [hnone]
    · have hskip : List.dlookup typeName (⟨t, n⟩ :: entries) = List.dlookup typeName entries :=
        List.dlookup_cons_ne entries _ (Ne.symm ht)
      rw [hskip]
      simp [ht]

end Chans

/-- Offers add up. -/
theorem offered_append (past es : List Event) (typeName : Str) :
    offered (past ++ es) typeName = offered past typeName + offered es typeName := by
  simp [offered]

/-- Pushes add up. -/
theorem pushed_append (past es : List Event) (typeName : Str) :
    pushed (past ++ es) typeName = pushed past typeName + pushed es typeName := by
  simp [pushed]

/-- Notices add up. -/
theorem noticed_append (past es : List Event) (typeName : Str) :
    noticed (past ++ es) typeName = noticed past typeName + noticed es typeName := by
  simp [noticed]

/-- What a task does besides is neither an offer nor a push. -/
theorem offered_did (done : List Effect) (typeName : Str) :
    offered (done.map .did) typeName = 0 ∧ pushed (done.map .did) typeName = 0 ∧
      noticed (done.map .did) typeName = 0 := by
  induction done with
  | nil => exact ⟨rfl, rfl, rfl⟩
  | cons e done ih =>
    obtain ⟨h₁, h₂, h₃⟩ := ih
    simp only [offered, pushed, noticed, List.map_cons, List.sum_cons, Event.offers, Event.pushes,
      Event.notices, zero_add] at *
    exact ⟨h₁, h₂, h₃⟩

section Tasks

variable {limits : Limits} {fwd : Bool} {nowMs : ℕ} {wake : Conn.Wake} {c c' : Conn} {h h' : Hub}
  {done : List Effect} {typeName : Str}

/-- What a step of the task keeps: nothing offered is lost, and nothing counted twice. -/
def Balanced (c : Conn) (h : Hub) (c' : Conn) (h' : Hub) (done : List Effect) (typeName : Str) :
    Prop :=
  ∃ k, queued (h.chan c.id) typeName + writing c.phase typeName + drained c.phase typeName +
      pending (h.chan c.id) typeName +
      offered ((calls done).flatMap (selfOffer h c.id)) typeName =
    queued (h'.chan c.id) typeName + writing c'.phase typeName + drained c'.phase typeName +
      pending (h'.chan c.id) typeName + pushed (written c.phase done) typeName +
      noticed (written c.phase done) typeName + u64Values * k

/-- A connection can only offer to itself. -/
theorem eq_offered_of_mem {id : ℕ} {made : Call} {e : Event} (he : e ∈ selfOffer h id made) :
    ∃ msg, e = .offered msg := by
  unfold selfOffer at he
  split at he
  · split at he
    · split at he
      · exact ⟨_, List.mem_singleton.mp he⟩
      · cases he
    · cases he
  · cases he

/-- A task that is neither writing a push nor about to, and leaves its channel alone. -/
theorem balanced_quiet (hchan : h'.chan c.id = h.chan c.id)
    (hcalls : (calls done).flatMap (selfOffer h c.id) = [])
    (hphase : writing c.phase typeName = 0 ∧ drained c.phase typeName = 0 ∧
      written c.phase done = [])
    (hphase' : writing c'.phase typeName = 0 ∧ drained c'.phase typeName = 0) :
    Balanced c h c' h' done typeName := by
  obtain ⟨hwriting, hdrained, hwritten⟩ := hphase
  refine ⟨0, ?_⟩
  rw [hchan, hcalls, hwriting, hdrained, hwritten, hphase'.1, hphase'.2]
  simp [offered, pushed, noticed]

/-- A command publishes nothing. -/
theorem handleCommand_selfOffer (limits : Limits) (fwd : Bool) (nowMs : ℕ) (c : Conn) (h : Hub)
    (line : Bytes) (hub : Hub) (id : ℕ) :
    (calls (Conn.handleCommand limits fwd nowMs c h line).2.2).flatMap (selfOffer hub id) = [] := by
  unfold Conn.handleCommand Conn.beginPublish
  split <;> try rfl
  · dsimp only
    split
    · next reg _ _ =>
      cases reg.changed <;> cases fwd <;> rfl
    · rfl
  · split <;> rfl

/-- The end of a `PUBLISH` may offer the message to the publisher itself. -/
theorem finishPublish_balanced (fwd : Bool) (hopen : (h.chan c.id).isOpen = true) {key : Str}
    {acc : BodyAcc} {t : Str} (body : Option (List Str)) (rest : Bytes) (first : Effect)
    (hfirst : first.asCall = none) (hphase : c.phase = .body t key acc) :
    let r := Conn.finishPublish fwd { c with rbuf := rest } h t key body
    (r.2.1.chan c.id).isOpen = true ∧ Balanced c h r.1 r.2.1 (first :: r.2.2) typeName := by
  have hquiet : ∀ done, writing c.phase typeName = 0 ∧ drained c.phase typeName = 0 ∧
      written c.phase done = [] := by
    rw [hphase]
    exact fun _ => ⟨rfl, rfl, rfl⟩
  have hcalls : ∀ done, calls (first :: done) = calls done := fun _ =>
    List.filterMap_cons_none hfirst
  unfold Conn.finishPublish
  cases body with
  | none => exact ⟨hopen, balanced_quiet rfl (by rw [hcalls]; rfl) (hquiet _) ⟨rfl, rfl⟩⟩
  | some lines =>
    dsimp only
    rcases hres : h.publishLocal t key lines with ⟨e | msg, hub⟩
    · obtain rfl := Hub.publishLocal_error hres
      refine ⟨hopen, balanced_quiet rfl ?_ (hquiet _) ⟨rfl, rfl⟩⟩
      rw [hcalls]
      simp [calls, Effect.asCall, selfOffer, hres, writeLine]
    · obtain ⟨_, _, hhub⟩ := Hub.publishLocal_eq_ok_iff.mp hres
      have hchan : hub.chan c.id = if c.id ∈ h.registry.subscribers msg.typeName
          then (h.chan c.id).offer msg else h.chan c.id := by
        rw [hhub]
        exact Hub.fanoutLocked_chan _ msg c.id
      have hmade : (calls (first :: .call (.publishLocal t key lines) ::
          ((if fwd then [Effect.forwardLocal msg] else []) ++
            [writeLine status.ACCEPTED "message accepted".toList]))).flatMap
          (selfOffer h c.id) =
          if c.id ∈ h.registry.subscribers msg.typeName then [.offered msg] else [] := by
        have hone : calls (.call (.publishLocal t key lines) ::
            ((if fwd then [Effect.forwardLocal msg] else []) ++
              [writeLine status.ACCEPTED "message accepted".toList])) =
            [.publishLocal t key lines] := by
          cases fwd <;> rfl
        rw [hcalls, hone, List.flatMap_singleton]
        simp only [selfOffer, hres]
      dsimp only
      by_cases hself : c.id ∈ h.registry.subscribers msg.typeName
      · rw [if_pos hself] at hchan hmade
        obtain ⟨k, hk⟩ := queued_offer hopen msg typeName
        refine ⟨by rw [hchan, offer_isOpen, hopen], k, ?_⟩
        obtain ⟨hwriting, hdrained, hwritten⟩ := hquiet (first ::
          .call (.publishLocal t key lines) :: ((if fwd then [Effect.forwardLocal msg] else []) ++
            [writeLine status.ACCEPTED "message accepted".toList]))
        rw [hmade, hwriting, hdrained, hwritten, hchan]
        have hoffer : offered [.offered msg] typeName = msg.countOf typeName := by
          simp [offered, Event.offers]
        have hnothing : pushed [] typeName = 0 ∧ noticed [] typeName = 0 := ⟨rfl, rfl⟩
        rw [hoffer, hnothing.1, hnothing.2]
        simp only [writing, drained]
        omega
      · rw [if_neg hself] at hchan hmade
        exact ⟨by rw [hchan, hopen], balanced_quiet hchan hmade (hquiet _) ⟨rfl, rfl⟩⟩

/-- **A step of a live task keeps the balance.** -/
theorem step_balanced (typeName : Str) (hopen : c.phase.isLive = true → (h.chan c.id).isOpen = true)
    (hstep : Conn.step limits fwd nowMs wake c h = some (c', h', done))
    (hlive : c'.phase.isLive = true) :
    c.phase.isLive = true ∧ (h'.chan c.id).isOpen = true ∧
      Balanced c h c' h' done typeName := by
  have hquiet : c.phase.isLive = true → h'.chan c.id = h.chan c.id →
      (calls done).flatMap (selfOffer h c.id) = [] →
      (writing c.phase typeName = 0 ∧ drained c.phase typeName = 0 ∧ written c.phase done = []) →
      (writing c'.phase typeName = 0 ∧ drained c'.phase typeName = 0) →
      c.phase.isLive = true ∧ (h'.chan c.id).isOpen = true ∧
        Balanced c h c' h' done typeName := by
    intro hbefore hchan hcalls hphase hphase'
    exact ⟨hbefore, by rw [hchan, hopen hbefore], balanced_quiet hchan hcalls hphase hphase'⟩
  cases Conn.step_steps hstep with
  | writeErr | closed | closedBody => cases hlive
  | read hphase | readBody hphase =>
    exact hquiet (by rw [hphase]; rfl) rfl rfl (by rw [hphase]; exact ⟨rfl, rfl, rfl⟩) ⟨rfl, rfl⟩
  | @recv out queue hphase hqueue =>
    have hlive' : c.phase.isLive = true := by rw [hphase]; rfl
    refine ⟨hlive', by dsimp only; rw [Function.update_self]; exact hopen hlive', 0, ?_⟩
    have hlength : queued (h.chan c.id) typeName = out.countOf typeName +
        (queue.map (Outbound.countOf typeName)).sum := by
      unfold queued
      rw [hqueue, List.map_cons, List.sum_cons]
    have hwritten : written Phase.select [] = [] := rfl
    dsimp only
    rw [hphase, hlength, Function.update_self, hwritten]
    simp only [queued, pending, writing, drained, offered, pushed, noticed, calls,
      List.filterMap_nil, List.flatMap_nil, List.map_nil, List.sum_nil]
    omega
  | notified hphase =>
    have hlive' : c.phase.isLive = true := by rw [hphase]; rfl
    refine ⟨hlive', by dsimp only; rw [Function.update_self]; exact hopen hlive', 0, ?_⟩
    have hwritten : written Phase.select [] = [] := rfl
    dsimp only
    rw [hphase, Function.update_self, hwritten]
    simp only [queued, pending, writing, drained, offered, pushed, noticed, calls,
      List.filterMap_nil, List.flatMap_nil, List.map_nil, List.sum_nil]
    omega
  | go hgo =>
    cases Conn.go_goes hgo with
    | greet hphase | noDrops hphase | flushed hphase | commandNeed hphase | bodyLine hphase
    | bodyNeed hphase =>
      exact hquiet (by rw [hphase]; rfl) rfl rfl (by rw [hphase]; exact ⟨rfl, rfl, rfl⟩) ⟨rfl, rfl⟩
    | drain hphase =>
      have hlive' : c.phase.isLive = true := by rw [hphase]; rfl
      have hdrained := drained_entries (h.chan c.id).drops typeName
      refine ⟨hlive', by dsimp only; rw [Function.update_self]; exact hopen hlive', 0, ?_⟩
      have hwritten := written_go hgo
      rw [hphase] at hwritten
      dsimp only
      rw [hphase, hdrained, Function.update_self, hwritten]
      simp only [queued, pending, writing, drained, Phase.push, offered, pushed, noticed,
        calls, List.filterMap_nil, List.flatMap_nil, List.map_nil, List.sum_nil,
        Option.toList_none, AList.lookup_empty, Option.getD_none]
      omega
    | notice hphase =>
      have hlive' : c.phase.isLive = true := by rw [hphase]; rfl
      have hwritten := written_go hgo
      rw [hphase] at hwritten
      refine ⟨hlive', hopen hlive', 0, ?_⟩
      rw [hphase, hwritten]
      simp only [writing, drained, Phase.push, offered, pushed, noticed, calls, writeLine,
        List.filterMap_cons, Effect.asCall, List.filterMap_nil, List.flatMap_nil, List.map_nil,
        List.sum_nil, Option.toList_some, List.map_cons, List.sum_cons, Event.pushes,
        Event.notices]
      omega
    | @command line rest hphase =>
      obtain ⟨_, _, hnext⟩ := Conn.handleCommand_conn limits fwd nowMs { c with rbuf := rest } h line
      have hchan := Conn.handleCommand_chan limits fwd nowMs { c with rbuf := rest } h line
      have hnone := handleCommand_selfOffer limits fwd nowMs { c with rbuf := rest } h line h c.id
      refine hquiet (by rw [hphase]; rfl) (by rw [hchan]) hnone
        (by rw [hphase]; exact ⟨rfl, rfl, rfl⟩) ?_
      rcases hnext with hnext | hnext | ⟨_, _, hnext⟩ <;>
      · rw [hnext]
        exact ⟨rfl, rfl⟩
    | @deliver out hphase =>
      have hlive' : c.phase.isLive = true := by rw [hphase]; rfl
      have hwritten := written_go hgo
      rw [hphase] at hwritten
      refine ⟨hlive', hopen hlive', 0, ?_⟩
      rw [hphase, hwritten]
      cases out <;>
      · simp only [writing, drained, Phase.push, offered, pushed, noticed, calls, writeLine,
          writeOutbound, Outbound.countOf, List.filterMap_cons, Effect.asCall, List.filterMap_nil,
          List.flatMap_nil, List.map_nil, List.sum_nil, Option.toList_some, List.map_cons,
          List.sum_cons, Event.pushes, Event.notices]
        omega
    | @terminator _ _ acc _ rest hphase =>
      have hlive' : c.phase.isLive = true := by rw [hphase]; rfl
      exact ⟨hlive', finishPublish_balanced fwd (hopen hlive') acc.result rest _ rfl hphase⟩
    | @bodyTooLong _ _ _ rest hphase =>
      have hlive' : c.phase.isLive = true := by rw [hphase]; rfl
      exact ⟨hlive', finishPublish_balanced fwd (hopen hlive') none rest (.giveUp _) rfl hphase⟩
    | commandTooLong | remove => cases hlive

/-- An offer that counts a drop leaves a permit. -/
theorem offer_woken (ch : Chan) (msg : Message) :
    (ch.offer msg).permit = true ∨
      (ch.offer msg).drops = ch.drops ∧ (ch.offer msg).permit = ch.permit := by
  unfold Chan.offer
  split
  · exact Or.inr ⟨rfl, rfl⟩
  · split
    · exact Or.inl rfl
    · exact Or.inr ⟨rfl, rfl⟩

/-- What a call does to the channel of the caller. -/
theorem execute_woken {id : ℕ} (made : Call) (hmade : ∀ types, made ≠ .removeConn types) :
    ((h.execute id made).chan id).permit = true ∨
      ((h.execute id made).chan id).drops = (h.chan id).drops ∧
        ((h.execute id made).chan id).permit = (h.chan id).permit := by
  cases made with
  | registerLocal | subscribe | unsubscribe | listTypes | publishPrecheck =>
    exact Or.inr ⟨rfl, rfl⟩
  | removeConn types => exact absurd rfl (hmade types)
  | publishLocal t key body =>
    simp only [Hub.execute]
    rcases hres : h.publishLocal t key body with ⟨e | msg, hub⟩
    · obtain rfl := Hub.publishLocal_error hres
      exact Or.inr ⟨rfl, rfl⟩
    · obtain ⟨_, _, rfl⟩ := Hub.publishLocal_eq_ok_iff.mp hres
      rw [Hub.fanoutLocked_chan]
      split
      · exact offer_woken _ _
      · exact Or.inr ⟨rfl, rfl⟩

/-- At the head of the loop the counters are drained. -/
theorem step_top_drops (htop : c.phase = .top)
    (hstep : Conn.step limits fwd nowMs wake c h = some (c', h', done))
    (hlive : c'.phase.isLive = true) : (h'.chan c.id).drops.entries = [] := by
  cases Conn.step_steps hstep with
  | go hgo =>
    cases Conn.go_goes hgo with
    | noDrops _ hnone => exact hnone
    | drain =>
      dsimp only
      rw [Function.update_self]
      rfl
    | greet hphase | flushed hphase | notice hphase | command hphase | commandTooLong hphase
    | commandNeed hphase | deliver hphase | terminator hphase | bodyLine hphase | bodyTooLong hphase
    | bodyNeed hphase | remove hphase => exact absurd (htop.symm.trans hphase) (by simp)
  | writeErr => cases hlive
  | read hphase | readBody hphase | closed hphase | closedBody hphase | recv hphase
  | notified hphase => exact absurd (htop.symm.trans hphase) (by simp)

/-- A notified connection goes to the head of the loop. -/
theorem step_notified (hstep : Conn.step limits fwd nowMs .notified c h = some (c', h', done)) :
    c'.phase = .top := by
  cases Conn.step_steps hstep with
  | notified => rfl
  | closed _ hwake => simp at hwake
  | closedBody _ hwake => simp at hwake

/-- A step of a live task leaves a wake-up behind for the drops it does not look at. -/
theorem step_woken (hstep : Conn.step limits fwd nowMs wake c h = some (c', h', done))
    (hlive : c'.phase.isLive = true) (htop : c'.phase ≠ .top)
    (hdrops : (h'.chan c.id).drops.entries ≠ []) :
    (h'.chan c.id).permit = true ∨
      c.phase ≠ .top ∧ (h.chan c.id).drops.entries ≠ [] ∧
        (h'.chan c.id).permit = (h.chan c.id).permit := by
  have hbefore : c.phase ≠ .top := fun hphase => hdrops (step_top_drops hphase hstep hlive)
  obtain ⟨_, huses⟩ := Conn.step_uses hstep
  cases huses with
  | alone => exact Or.inr ⟨hbefore, hdrops, rfl⟩
  | channel _ _ hown =>
    dsimp only at hdrops ⊢
    rw [Function.update_self] at hdrops ⊢
    cases hown with
    | drain => exact absurd rfl hdrops
    | recv => exact Or.inr ⟨hbefore, hdrops, rfl⟩
    | notified => exact absurd (step_notified hstep) htop
  | call made _ _ _ hgone =>
    have hmade : ∀ types, made ≠ .removeConn types := by
      intro types heq
      rw [hgone.mpr ⟨types, heq⟩] at hlive
      cases hlive
    rcases execute_woken made hmade with hpermit | ⟨hsame, hpermit⟩
    · exact Or.inl hpermit
    · rw [hsame] at hdrops
      exact Or.inr ⟨hbefore, hdrops, hpermit⟩

end Tasks

/-- What holds at the outlet after every step. -/
structure AccountInvariant (o : Outlet) (past : List Event) : Prop where
  /-- The channel of a live connection is open. -/
  isOpen : o.conn.phase.isLive = true → o.chan.isOpen = true
  /-- Every message is accounted for. -/
  account : o.conn.phase.isLive = true → ∀ typeName, ∃ k, offered past typeName =
    pushed past typeName + noticed past typeName + held o typeName + u64Values * k
  /-- Unless the counters are looked at next, a wake-up is stored or on its way. -/
  woken : o.conn.phase.isLive = true → o.conn.phase ≠ .top → o.chan.drops.entries ≠ [] →
    o.chan.permit = true ∨ 0 < o.notifying

section Invariant

variable {limits : Limits} {fwd : Bool} {o o' : Outlet} {past es : List Event} {a : Action}

/-- The invariant holds of a connection that was just accepted. -/
theorem accountInvariant_accepted (id depth : ℕ) : AccountInvariant (accepted id depth) [] where
  isOpen _ := rfl
  account _ _ := ⟨0, rfl⟩
  woken _ _ h := absurd rfl h

/-- **Every step keeps the account.** -/
theorem AccountInvariant.step (hinv : AccountInvariant o past)
    (hstep : Outlet.step limits fwd o a = some (o', es)) : AccountInvariant o' (past ++ es) := by
  cases a with
  | task h nowMs wake =>
    obtain ⟨⟨c', h', done⟩, hconn, hres⟩ := Option.map_eq_some_iff.mp hstep
    obtain ⟨rfl, rfl⟩ := Prod.mk.inj hres
    have hself : (o.within h).chan o.conn.id = o.chan := Function.update_self _ _ _
    have hopen : o.conn.phase.isLive = true → ((o.within h).chan o.conn.id).isOpen = true := by
      rw [hself]
      exact hinv.isOpen
    constructor
    · intro hlive
      exact (step_balanced [] hopen hconn hlive).2.1
    · intro hlive typeName
      obtain ⟨hbefore, _, k', hk'⟩ := step_balanced typeName hopen hconn hlive
      obtain ⟨k, hk⟩ := hinv.account hbefore typeName
      refine ⟨k + k', ?_⟩
      obtain ⟨hdidOffers, hdidPushes, hdidNotices⟩ := offered_did done typeName
      have hwrittenOffers : offered (written o.conn.phase done) typeName = 0 := by
        simp [written, offered, Event.offers, Function.comp_def]
      have hselfPushes : ∀ made : List Call, pushed (made.flatMap
          (selfOffer (o.within h) o.conn.id)) typeName = 0 ∧
          noticed (made.flatMap (selfOffer (o.within h) o.conn.id)) typeName = 0 := by
        intro made
        have hnothing : ∀ e ∈ made.flatMap (selfOffer (o.within h) o.conn.id),
            ∃ msg, e = .offered msg := by
          intro e he
          obtain ⟨call, _, he⟩ := List.mem_flatMap.mp he
          exact eq_offered_of_mem he
        constructor
        · refine List.sum_eq_zero fun n hn => ?_
          obtain ⟨e, he, rfl⟩ := List.mem_map.mp hn
          obtain ⟨msg, rfl⟩ := hnothing e he
          rfl
        · refine List.sum_eq_zero fun n hn => ?_
          obtain ⟨e, he, rfl⟩ := List.mem_map.mp hn
          obtain ⟨msg, rfl⟩ := hnothing e he
          rfl
      rw [hself] at hk'
      rw [offered_append, offered_append, offered_append, pushed_append, pushed_append,
        pushed_append, noticed_append, noticed_append, noticed_append, hdidOffers, hdidPushes,
        hdidNotices, hwrittenOffers, (hselfPushes _).1, (hselfPushes _).2, hk, Nat.mul_add]
      simp only [held] at hk' ⊢
      omega
    · intro hlive htop hdrops
      rcases step_woken hconn hlive htop hdrops with hpermit | ⟨hbefore, hdropsBefore, hsame⟩
      · exact Or.inl hpermit
      · rw [hself] at hdropsBefore hsame
        have hlive' := (step_balanced [] hopen hconn hlive).1
        rcases hinv.woken hlive' hbefore hdropsBefore with hpermit | hnotify
        · exact Or.inl (hsame.trans hpermit)
        · exact Or.inr hnotify
  | trySend msg =>
    simp only [Outlet.step] at hstep
    split at hstep
    · obtain ⟨rfl, rfl⟩ := Prod.mk.inj (Option.some.inj hstep)
      refine ⟨hinv.isOpen, fun hlive typeName => ?_, hinv.woken⟩
      obtain ⟨k, hk⟩ := hinv.account hlive typeName
      refine ⟨k, ?_⟩
      rw [offered_append, pushed_append, noticed_append, hk]
      simp only [held, queued, pending, offered, pushed, noticed, List.map_append, List.sum_append,
        List.map_cons, List.map_nil, List.sum_cons, List.sum_nil, Event.offers, Event.pushes,
        Event.notices, Outbound.countOf]
      omega
    · split at hstep
      · obtain ⟨rfl, rfl⟩ := Prod.mk.inj (Option.some.inj hstep)
        rw [List.append_nil]
        exact ⟨hinv.isOpen, hinv.account, hinv.woken⟩
      · obtain ⟨rfl, rfl⟩ := Prod.mk.inj (Option.some.inj hstep)
        rw [List.append_nil]
        exact hinv
  | count k =>
    obtain ⟨msg, hmsg, hres⟩ := Option.map_eq_some_iff.mp hstep
    obtain ⟨rfl, rfl⟩ := Prod.mk.inj hres
    refine ⟨hinv.isOpen, fun hlive typeName => ?_, fun _ _ _ => Or.inr (Nat.succ_pos _)⟩
    obtain ⟨k₁, hk₁⟩ := hinv.account hlive typeName
    obtain ⟨k₂, hk₂⟩ := pending_recordDrop o.chan msg typeName
    refine ⟨k₁ + k₂, ?_⟩
    have hone : offered [.offered msg] typeName = msg.countOf typeName ∧
        pushed [.offered msg] typeName = 0 ∧ noticed [.offered msg] typeName = 0 := by
      simp [offered, pushed, noticed, Event.offers, Event.pushes, Event.notices]
    have hheld : held { o with
          chan := { o.chan.recordDrop msg.typeName with permit := o.chan.permit }
          counting := o.counting.eraseIdx k
          notifying := o.notifying + 1 } typeName =
        queued o.chan typeName + writing o.conn.phase typeName + drained o.conn.phase typeName +
          pending (o.chan.recordDrop msg.typeName) typeName := rfl
    rw [offered_append, pushed_append, noticed_append, hk₁, Nat.mul_add, hone.1, hone.2.1,
      hone.2.2, hheld]
    unfold held
    omega
  | notify =>
    simp only [Outlet.step] at hstep
    split at hstep
    · cases hstep
    · obtain ⟨rfl, rfl⟩ := Prod.mk.inj (Option.some.inj hstep)
      rw [List.append_nil]
      exact ⟨hinv.isOpen, hinv.account, fun _ _ _ => Or.inl rfl⟩

variable {id depth : ℕ}

/-- What holds at the outlet in every run. -/
theorem accountInvariant_of_run
    (hrun : Transition.Run (Outlet.step limits fwd) Transition.anyStep (accepted id depth) o past) :
    AccountInvariant o past :=
  hrun.invariant (accountInvariant_accepted id depth) fun _ _ _ _ _ hinv _ hstep => hinv.step hstep

/-- **Every message is accounted for**, modulo 2^64 and exactly until as many of its type were
offered, and a connection that waits with drops to report is about to be woken. -/
theorem drop_notices_account
    (hrun : Transition.Run (Outlet.step limits fwd) Transition.anyStep (accepted id depth) o past)
    (hlive : o.conn.phase.isLive = true) :
    (∀ typeName,
      offered past typeName % u64Values = accounted o past typeName % u64Values ∧
        (offered past typeName < u64Values →
          offered past typeName = accounted o past typeName)) ∧
      (o.conn.phase = .select → o.chan.drops.entries ≠ [] →
        o.chan.permit = true ∨ 0 < o.notifying) := by
  have hinv := accountInvariant_of_run hrun
  refine ⟨fun typeName => ?_, fun hselect hdrops => hinv.woken hlive (by simp [hselect]) hdrops⟩
  obtain ⟨k, hk⟩ := hinv.account hlive typeName
  have hsum : pushed past typeName + noticed past typeName + held o typeName =
      accounted o past typeName := by
    unfold held accounted
    omega
  rw [hsum] at hk
  constructor
  · rw [hk]
    exact Nat.add_mul_mod_self_left _ _ _
  · intro hbound
    cases k with
    | zero => simpa using hk
    | succ k =>
      have hround : u64Values ≤ u64Values * (k + 1) := Nat.le_mul_of_pos_right _ (Nat.succ_pos k)
      omega

/-- The message that is offered. -/
def tick : Message := ⟨"t".toList, "d1-1".toList, "d1".toList, []⟩

/-- A hub on which nothing has happened. -/
def quietHub : Hub := ⟨Registry.new "d1".toList 16, fun _ => { depth := 1 }⟩

/-- The greeting is written, and the task waits. -/
def settled : List Action := List.replicate 3 (.task quietHub 0 .go)

/-- A message is queued, the next one dropped and noticed. -/
theorem drop_notices_account_noticed : ∃ o past,
    Transition.Run (Outlet.step {} false) Transition.anyStep (accepted 1 1) o past ∧
      (Event.pushed (.drop "t".toList 1)) ∈ past ∧
      offered past "t".toList = accounted o past "t".toList := by
  obtain ⟨o, past, hrun, hlive, hmem, hbound⟩ :=
    Transition.exists_run (Outlet.step {} false) (fun _ _ _ => true) (accepted 1 1)
      (settled ++ [.trySend tick, .trySend tick, .count 0, .notify, .task quietHub 0 .notified,
        .task quietHub 0 .go, .task quietHub 0 .go])
      (P := fun o past => o.conn.phase.isLive = true ∧
        (Event.pushed (.drop "t".toList 1)) ∈ past ∧ offered past "t".toList < u64Values)
      (by decide)
  have hrun' : Transition.Run (Outlet.step {} false) Transition.anyStep (accepted 1 1) o past :=
    hrun.weaken fun _ _ _ _ => trivial
  obtain ⟨haccount, _⟩ := drop_notices_account hrun' hlive
  exact ⟨o, past, hrun', hmem, (haccount _).2 hbound⟩

section Wrap

variable {start : Outlet} {n : ℕ}

/-- A waiting connection with a full queue has had `n` messages dropped. -/
structure Dropping (n : ℕ) (o : Outlet) (past : List Event) : Prop where
  /-- It waits. -/
  waits : o.conn.phase = .select
  /-- Its queue is full. -/
  full : o.chan.isOpen = true ∧ o.chan.hasRoom = false ∧ queued o.chan "t".toList = 1
  /-- No offer is under way. -/
  idle : o.counting = [] ∧ o.notifying = 0
  /-- The pending count. -/
  pending : pending o.chan "t".toList = n % u64Values
  /-- What was offered and written. -/
  tally : offered past "t".toList = n + 1 ∧ pushed past "t".toList = 0 ∧
    noticed past "t".toList = 0

/-- One more message is dropped. -/
theorem Dropping.next (h : Dropping n o past)
    (hrun : Transition.Run (Outlet.step limits fwd) Transition.anyStep start o past) :
    ∃ o', Transition.Run (Outlet.step limits fwd) Transition.anyStep start o'
        (past ++ [.offered tick]) ∧ Dropping (n + 1) o' (past ++ [.offered tick]) := by
  obtain ⟨hopen, hroom, hqueued⟩ := h.full
  obtain ⟨hcounting, hnotifying⟩ := h.idle
  obtain ⟨acts, hexec⟩ := offer_eq_exec limits fwd o tick hopen hcounting past
  have hrun' := Transition.Run.exec (hrun.weaken fun _ _ _ _ => rfl) hexec
  have hoffer : o.chan.offer tick = o.chan.recordDrop tick.typeName := by
    unfold Chan.offer
    rw [if_neg (by simp [hroom]), if_pos hopen]
  refine ⟨_, hrun'.weaken fun _ _ _ _ => trivial, ?_⟩
  rw [hoffer]
  obtain ⟨hoffered, hpushed, hnoticed⟩ := h.tally
  constructor
  · exact h.waits
  · exact ⟨hopen, hroom, hqueued⟩
  · exact h.idle
  · have hpending : Outlet.pending (o.chan.recordDrop tick.typeName) "t".toList =
        (Outlet.pending o.chan "t".toList + 1) % u64Values := by
      unfold Outlet.pending Chan.recordDrop
      exact congrArg (Option.getD · 0) (AList.lookup_insert _)
    rw [hpending, h.pending, Nat.mod_add_mod]
  · rw [offered_append, pushed_append, noticed_append, hoffered, hpushed, hnoticed]
    exact ⟨rfl, rfl, rfl⟩

/-- Any number of messages more can be dropped. -/
theorem Dropping.run (h : Dropping n o past)
    (hrun : Transition.Run (Outlet.step limits fwd) Transition.anyStep start o past) (m : ℕ) :
    ∃ o' past', Transition.Run (Outlet.step limits fwd) Transition.anyStep start o' past' ∧
      Dropping (n + m) o' past' := by
  induction m with
  | zero => exact ⟨o, past, hrun, h⟩
  | succ m ih =>
    obtain ⟨o₁, past₁, hrun₁, hdropping⟩ := ih
    obtain ⟨o₂, hrun₂, hnext⟩ := hdropping.next hrun₁
    exact ⟨o₂, _, hrun₂, hnext⟩

/-- **The counter of drops wraps**: 2^64 drops before the next notice are not accounted for. -/
theorem drop_count_wraps : ∃ o past,
    Transition.Run (Outlet.step {} false) Transition.anyStep (accepted 1 1) o past ∧
      o.conn.phase = .select ∧ offered past "t".toList ≠ accounted o past "t".toList := by
  obtain ⟨o₁, past₁, hrun₁, hwaits, hfull, hidle, hpending, htally⟩ :=
    Transition.exists_run (Outlet.step {} false) (fun _ _ _ => true) (accepted 1 1)
      (settled ++ [.trySend tick])
      (P := fun o past => o.conn.phase = .select ∧
        (o.chan.isOpen = true ∧ o.chan.hasRoom = false ∧ queued o.chan "t".toList = 1) ∧
        (o.counting = [] ∧ o.notifying = 0) ∧ Outlet.pending o.chan "t".toList = 0 % u64Values ∧
        (offered past "t".toList = 0 + 1 ∧ pushed past "t".toList = 0 ∧
          noticed past "t".toList = 0)) (by decide)
  have hrun₁' : Transition.Run (Outlet.step {} false) Transition.anyStep (accepted 1 1) o₁ past₁ :=
    hrun₁.weaken fun _ _ _ _ => trivial
  have hdropping : Dropping 0 o₁ past₁ := ⟨hwaits, hfull, hidle, hpending, htally⟩
  obtain ⟨o₂, past₂, hrun₂, h⟩ := hdropping.run hrun₁' u64Values
  refine ⟨o₂, past₂, hrun₂, h.waits, ?_⟩
  obtain ⟨hoffered, hpushed, hnoticed⟩ := h.tally
  have hround : (0 + u64Values) % u64Values = 0 := by decide
  unfold accounted
  rw [hoffered, hpushed, hnoticed, h.full.2.2, h.pending, hround, h.waits]
  simp [writing, drained, u64Values]

end Wrap

end Invariant

end Outlet

namespace Daemon

section Outlets

variable {limits : Limits} {fwd : Bool} {d d' : Daemon} {past es : List Event} {a : Action}
  {id : ℕ} {daemonId : Str}

/-- What the step of another does to the channel of a connection. -/
def Offered (ch ch' : Chan) : Prop := ch' = ch ∨ ∃ msg, ch' = ch.offer msg

/-- A fan-out offers at most. -/
theorem offered_fanoutLocked (h : Hub) (msg : Message) (id : ℕ) :
    Offered (h.chan id) ((h.fanoutLocked msg).chan id) := by
  rw [Hub.fanoutLocked_chan]
  split
  · exact Or.inr ⟨msg, rfl⟩
  · exact Or.inl rfl

/-- The task of another connection offers at most. -/
theorem offered_task {nowMs : ℕ} {wake : Conn.Wake} {c c' : Conn} {h h' : Hub}
    {done : List Effect} (hstep : Conn.step limits fwd nowMs wake c h = some (c', h', done))
    (hid : id ≠ c.id) : Offered (h.chan id) (h'.chan id) := by
  obtain ⟨_, huses⟩ := Conn.step_uses hstep
  cases huses with
  | alone => exact Or.inl rfl
  | channel => exact Or.inl (Function.update_of_ne hid _ _)
  | call made =>
    cases made with
    | registerLocal | subscribe | unsubscribe | listTypes | publishPrecheck => exact Or.inl rfl
    | removeConn types => exact Or.inl (Function.update_of_ne hid _ _)
    | publishLocal typeName key body =>
      simp only [Hub.execute]
      rcases hres : h.publishLocal typeName key body with ⟨e | msg, hub⟩
      · rw [Hub.publishLocal_error hres]
        exact Or.inl rfl
      · obtain ⟨_, _, rfl⟩ := Hub.publishLocal_eq_ok_iff.mp hres
        exact offered_fanoutLocked _ msg id

/-- A peer link offers at most. -/
theorem offered_perform (h : Hub) (made : Section) (id : ℕ) :
    Offered (h.chan id) ((h.perform made).1.chan id) := by
  cases made with
  | recordSeen msg => exact Or.inl rfl
  | fanOut msg => exact offered_fanoutLocked _ msg id
  | applyRemoteRegistration typeName incoming => exact Or.inl rfl

/-- What others do is a run of the outlet. -/
theorem Offered.run {start : Outlet} {c : Conn} {ch ch' : Chan} {past : List Outlet.Event}
    (h : Offered ch ch')
    (hrun : Transition.Run (Outlet.step limits fwd) Transition.anyStep start ⟨c, ch, [], 0⟩ past) :
    ∃ past', Transition.Run (Outlet.step limits fwd) Transition.anyStep start ⟨c, ch', [], 0⟩
      past' := by
  rcases h with rfl | ⟨msg, rfl⟩
  · exact ⟨past, hrun⟩
  · by_cases hopen : ch.isOpen = true
    · obtain ⟨acts, hexec⟩ :=
        Outlet.offer_eq_exec limits fwd ⟨c, ch, [], 0⟩ msg hopen rfl past
      have hrun' := Transition.Run.exec (hrun.weaken fun _ _ _ _ => rfl) hexec
      exact ⟨_, hrun'.weaken fun _ _ _ _ => trivial⟩
    · have hclosed : ch.offer msg = ch := by
        unfold Chan.offer Chan.hasRoom
        simp [hopen]
      rw [hclosed]
      exact ⟨past, hrun⟩

/-- **Every connection of a daemon is an outlet**: what the daemon does to it and its channel
is a run of the outlet. -/
theorem outlet_of_run
    (hrun : Transition.Run (Daemon.step limits fwd) Transition.anyStep (start daemonId limits) d
      past) {c : Conn} (hconn : d.conn id = some c) :
    ∃ past', Transition.Run (Outlet.step limits fwd) Transition.anyStep
      (Outlet.accepted id limits.queueDepth) ⟨c, d.hub.chan id, [], 0⟩ past' := by
  refine hrun.invariant_of_reached (I := fun d _ => ∀ id c, d.conn id = some c →
    ∃ past', Transition.Run (Outlet.step limits fwd) Transition.anyStep
      (Outlet.accepted id limits.queueDepth) ⟨c, d.hub.chan id, [], 0⟩ past')
    (fun id c h => by cases h) (fun d past a d' es hreached hinv _ hstep id c hconn => ?_)
    id c hconn
  have hids := (subscriptionInvariant_of_run hreached).ids
  cases a with
  | accept i =>
    obtain ⟨hnone, rfl, _⟩ := step_accept_eq_some_iff.mp hstep
    by_cases hi : id = i
    · subst hi
      obtain rfl : ({ id := id } : Conn) = c := by simpa using hconn
      dsimp only
      rw [Function.update_self]
      exact ⟨[], .init⟩
    · dsimp only
      rw [Function.update_of_ne hi]
      exact hinv id c (by simpa [Function.update_of_ne hi] using hconn)
  | inbound made =>
    simp only [Daemon.step, Option.some.injEq, Prod.mk.injEq] at hstep
    obtain ⟨rfl, _⟩ := hstep
    obtain ⟨past', hrun'⟩ := hinv id c hconn
    exact (offered_perform d.hub made id).run hrun'
  | task i nowMs wake =>
    obtain ⟨c₀, c', h', done, hconn₀, hconnStep, rfl, _⟩ := step_task_eq_some_iff.mp hstep
    by_cases hi : id = i
    · subst hi
      obtain rfl : c' = c := by simpa using hconn
      obtain ⟨past', hrun'⟩ := hinv id c₀ hconn₀
      have hself := hids id c₀ hconn₀
      have hwithin : Outlet.within ⟨c₀, d.hub.chan id, [], 0⟩ d.hub = d.hub := by
        unfold Outlet.within
        dsimp only
        rw [hself, Function.update_eq_self]
      have hstep' : Outlet.step limits fwd ⟨c₀, d.hub.chan id, [], 0⟩ (.task d.hub nowMs wake) =
          some (⟨c', h'.chan id, [], 0⟩, Outlet.written c₀.phase done ++
            (calls done).flatMap (Outlet.selfOffer d.hub id) ++ done.map .did) := by
        simp only [Outlet.step, hwithin, hconnStep, Option.map_some, hself]
      exact ⟨_, .step hrun' trivial hstep'⟩
    · obtain ⟨past', hrun'⟩ := hinv id c (by simpa [Function.update_of_ne hi] using hconn)
      have hother : id ≠ c₀.id := by rwa [hids i c₀ hconn₀]
      exact (offered_task hconnStep hother).run hrun'

end Outlets

end Daemon

end MacroBus
