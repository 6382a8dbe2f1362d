import MacroBus.Busd.FanOut

/-!
# Agreeing off a connection

Two hubs agree off a connection if they differ only in what belongs to it: its channel and
its subscriptions. Whatever another connection or a peer link does has the same outcome on
both, and leaves them agreeing; so has a publish or a registration of the connection itself.
-/

namespace MacroBus

/-- Whether a call can change more than the subscriptions of its connection. -/
def Call.changesTables : Call → Bool
  | .registerLocal .. | .publishLocal .. => true
  | _ => false

/-- The registries agree, the subscriptions of the connection `x` aside. -/
structure Registry.AgreeOff (x : ℕ) (r k : Registry) : Prop where
  /-- The daemon has one name. -/
  daemonId : r.daemonId = k.daemonId
  /-- The next sequence number is the same. -/
  seq : r.seq = k.seq
  /-- The type table is the same. -/
  types : r.types = k.types
  /-- The seen ids are the same. -/
  seen : r.seen = k.seen
  /-- The subscribers other than `x` are the same. -/
  subscribers : ∀ typeName i, i ≠ x → (i ∈ r.subscribers typeName ↔ i ∈ k.subscribers typeName)

/-- The hubs agree, what belongs to the connection `x` aside. -/
structure Hub.AgreeOff (x : ℕ) (h k : Hub) : Prop where
  /-- The registries agree. -/
  registry : h.registry.AgreeOff x k.registry
  /-- The channels of the others are the same. -/
  chan : ∀ i, i ≠ x → h.chan i = k.chan i

namespace Registry.AgreeOff

variable {x : ℕ} {r k : Registry}

/-- A registry agrees with itself. -/
theorem refl (x : ℕ) (r : Registry) : r.AgreeOff x r := ⟨rfl, rfl, rfl, rfl, fun _ _ _ => Iff.rfl⟩

/-- Registries agree in both directions. -/
theorem symm (h : r.AgreeOff x k) : k.AgreeOff x r :=
  ⟨h.daemonId.symm, h.seq.symm, h.types.symm, h.seen.symm,
    fun typeName i hi => (h.subscribers typeName i hi).symm⟩

/-- Registries that differ in the subscribers only. -/
theorem of_subs {r' : Registry} (h : r.AgreeOff x k) (hsame : Cluster.SameTables r r')
    (hsubs : ∀ typeName i, i ≠ x → (i ∈ r'.subscribers typeName ↔ i ∈ r.subscribers typeName)) :
    r'.AgreeOff x k :=
  ⟨hsame.daemonId.trans h.daemonId, hsame.seq.trans h.seq, hsame.types.trans h.types,
    hsame.seen.trans h.seen,
    fun typeName i hi => (hsubs typeName i hi).trans (h.subscribers typeName i hi)⟩

/-- A connection subscribes in both. -/
theorem subscribe (h : r.AgreeOff x k) (typeName : Str) (id : ℕ) :
    (r.subscribe typeName id).AgreeOff x (k.subscribe typeName id) :=
  ⟨h.daemonId, h.seq, h.types, h.seen, fun t i hi => by
    rw [mem_subscribers_subscribe, mem_subscribers_subscribe, h.subscribers t i hi]⟩

/-- A connection unsubscribes in both. -/
theorem unsubscribe (h : r.AgreeOff x k) (typeName : Str) (id : ℕ) :
    (r.unsubscribe typeName id).AgreeOff x (k.unsubscribe typeName id) := by
  have hr := Cluster.sameTables_unsubscribe r typeName id
  have hk := Cluster.sameTables_unsubscribe k typeName id
  refine ⟨?_, ?_, ?_, ?_, fun t i hi => ?_⟩
  · rw [hr.daemonId, hk.daemonId, h.daemonId]
  · rw [hr.seq, hk.seq, h.seq]
  · rw [hr.types, hk.types, h.types]
  · rw [hr.seen, hk.seen, h.seen]
  · rw [mem_subscribers_unsubscribe, mem_subscribers_unsubscribe, h.subscribers t i hi]

/-- A connection is removed from both. -/
theorem removeConn (h : r.AgreeOff x k) (id : ℕ) (types : List Str) :
    (r.removeConn id types).AgreeOff x (k.removeConn id types) := by
  unfold Registry.removeConn
  induction types generalizing r k with
  | nil => exact h
  | cons typeName types ih => exact ih (h.unsubscribe typeName id)

/-- A registration has the same outcome. -/
theorem registerLocal (h : r.AgreeOff x k) (typeName key : Str) (nowMs : ℕ) :
    (r.registerLocal typeName key nowMs).1 = (k.registerLocal typeName key nowMs).1 ∧
      (r.registerLocal typeName key nowMs).2.AgreeOff x
        (k.registerLocal typeName key nowMs).2 := by
  unfold Registry.registerLocal
  rw [h.types]
  split
  · exact ⟨by rw [h.daemonId], h.daemonId, h.seq, by rw [h.daemonId], h.seen, h.subscribers⟩
  · split <;> exact ⟨rfl, h⟩

/-- A registration of a peer has the same outcome. -/
theorem applyRemoteRegistration (h : r.AgreeOff x k) (typeName : Str) (incoming : TypeReg) :
    (r.applyRemoteRegistration typeName incoming).1 =
        (k.applyRemoteRegistration typeName incoming).1 ∧
      (r.applyRemoteRegistration typeName incoming).2.AgreeOff x
        (k.applyRemoteRegistration typeName incoming).2 := by
  unfold Registry.applyRemoteRegistration
  rw [h.types]
  split
  · exact ⟨rfl, h.daemonId, h.seq, rfl, h.seen, h.subscribers⟩
  · split
    · exact ⟨rfl, h⟩
    · split
      · exact ⟨rfl, h.daemonId, h.seq, rfl, h.seen, h.subscribers⟩
      · exact ⟨rfl, h⟩

end Registry.AgreeOff

namespace Hub.AgreeOff

variable {x : ℕ} {h k : Hub}

/-- A hub agrees with itself. -/
theorem refl (x : ℕ) (h : Hub) : h.AgreeOff x h := ⟨.refl x _, fun _ _ => rfl⟩

/-- Hubs agree in both directions. -/
theorem symm (hk : h.AgreeOff x k) : k.AgreeOff x h :=
  ⟨hk.registry.symm, fun i hi => (hk.chan i hi).symm⟩

/-- Hubs agree after the same change of a channel in both. -/
theorem update (hk : h.AgreeOff x k) (id : ℕ) (ch : Chan) :
    Hub.AgreeOff x { h with chan := Function.update h.chan id ch }
      { k with chan := Function.update k.chan id ch } := by
  refine ⟨hk.registry, fun i hi => ?_⟩
  by_cases hid : i = id
  · subst hid
    dsimp only
    rw [Function.update_self, Function.update_self]
  · dsimp only
    rw [Function.update_of_ne hid, Function.update_of_ne hid, hk.chan i hi]

/-- A message is fanned out in both. -/
theorem fanoutLocked (hk : h.AgreeOff x k) (msg : Message) :
    (h.fanoutLocked msg).AgreeOff x (k.fanoutLocked msg) := by
  refine ⟨?_, fun i hi => ?_⟩
  · rw [fanoutLocked_registry, fanoutLocked_registry]
    exact hk.registry
  · rw [fanoutLocked_chan, fanoutLocked_chan, hk.chan i hi]
    by_cases hmem : i ∈ h.registry.subscribers msg.typeName
    · rw [if_pos hmem, if_pos ((hk.registry.subscribers _ i hi).mp hmem)]
    · rw [if_neg hmem, if_neg (fun h' => hmem ((hk.registry.subscribers _ i hi).mpr h'))]

/-- The others get it in both or in neither. -/
theorem recipients (hk : h.AgreeOff x k) (msg : Message) :
    (h.recipients msg).erase x = (k.recipients msg).erase x := by
  ext i
  simp only [Finset.mem_erase, Hub.recipients, Finset.mem_filter]
  constructor
  · rintro ⟨hi, hmem, hroom⟩
    exact ⟨hi, (hk.registry.subscribers _ i hi).mp hmem, hk.chan i hi ▸ hroom⟩
  · rintro ⟨hi, hmem, hroom⟩
    exact ⟨hi, (hk.registry.subscribers _ i hi).mpr hmem, hk.chan i hi ▸ hroom⟩

/-- A publish has the same outcome. -/
theorem publishLocal (hk : h.AgreeOff x k) (typeName key : Str) (body : List Str) :
    (h.publishLocal typeName key body).1 = (k.publishLocal typeName key body).1 ∧
      (h.publishLocal typeName key body).2.AgreeOff x (k.publishLocal typeName key body).2 := by
  have hid : h.registry.msgId = k.registry.msgId := by
    unfold Registry.msgId
    rw [hk.registry.daemonId, hk.registry.seq]
  unfold Hub.publishLocal Registry.nextMsgId
  rw [hk.registry.types]
  split
  · exact ⟨rfl, hk⟩
  · split
    · exact ⟨rfl, hk⟩
    · dsimp only
      rw [hid, hk.registry.daemonId, hk.registry.seq, hk.registry.seen]
      refine ⟨rfl, ?_⟩
      apply Hub.AgreeOff.fanoutLocked
      exact ⟨⟨rfl, rfl, rfl, rfl, hk.registry.subscribers⟩, hk.chan⟩

/-- A message from a peer is new in both or in neither. -/
theorem recordSeen (hk : h.AgreeOff x k) (msg : Message) :
    (h.recordSeen msg).1 = (k.recordSeen msg).1 ∧
      (h.recordSeen msg).2.AgreeOff x (k.recordSeen msg).2 := by
  unfold Hub.recordSeen
  rw [hk.registry.seen]
  exact ⟨rfl, ⟨hk.registry.daemonId, hk.registry.seq, hk.registry.types, rfl,
    hk.registry.subscribers⟩, hk.chan⟩

/-- What happens to the channel of `x` does not matter. -/
theorem own (hk : h.AgreeOff x k) (ch : Chan) :
    Hub.AgreeOff x { h with chan := Function.update h.chan x ch } k := by
  refine ⟨hk.registry, fun i hi => ?_⟩
  dsimp only
  rw [Function.update_of_ne hi]
  exact hk.chan i hi

/-- A peer link broadcasts the same. -/
theorem perform (hk : h.AgreeOff x k) (made : Section) :
    (h.perform made).2 = (k.perform made).2 ∧ (h.perform made).1.AgreeOff x (k.perform made).1 := by
  cases made with
  | recordSeen msg => exact ⟨rfl, (hk.recordSeen msg).2⟩
  | fanOut msg => exact ⟨rfl, hk.fanoutLocked msg⟩
  | applyRemoteRegistration typeName incoming =>
    obtain ⟨heffective, hagree⟩ := hk.registry.applyRemoteRegistration typeName incoming
    simp only [Hub.perform, heffective]
    exact ⟨trivial, hagree, hk.chan⟩

/-- The connection `x` makes the same call on both. -/
theorem execute (hk : h.AgreeOff x k) (made : Call) :
    (h.execute x made).AgreeOff x (k.execute x made) := by
  cases made with
  | registerLocal typeName key nowMs =>
    exact ⟨(hk.registry.registerLocal typeName key nowMs).2, hk.chan⟩
  | subscribe typeName => exact ⟨hk.registry.subscribe typeName x, hk.chan⟩
  | unsubscribe typeName => exact ⟨hk.registry.unsubscribe typeName x, hk.chan⟩
  | listTypes => exact hk
  | publishPrecheck typeName key => exact hk
  | publishLocal typeName key body => exact (hk.publishLocal typeName key body).2
  | removeConn types =>
    have hremoved : Hub.AgreeOff x { h with registry := h.registry.removeConn x types }
        { k with registry := k.registry.removeConn x types } :=
      ⟨hk.registry.removeConn x types, hk.chan⟩
    exact ((hremoved.own _).symm.own _).symm

/-- The connection `x` makes a call that is its own business. -/
theorem execute_own (hk : h.AgreeOff x k) {made : Call} (hown : made.changesTables = false) :
    (h.execute x made).AgreeOff x k := by
  cases made with
  | registerLocal | publishLocal => cases hown
  | subscribe typeName =>
    refine ⟨hk.registry.of_subs ⟨rfl, rfl, rfl, rfl⟩ fun t i hi => ?_, hk.chan⟩
    simp [Hub.execute, Registry.mem_subscribers_subscribe, hi]
  | unsubscribe typeName =>
    refine ⟨hk.registry.of_subs (Cluster.sameTables_unsubscribe _ typeName x) fun t i hi => ?_,
      hk.chan⟩
    simp [Hub.execute, Registry.mem_subscribers_unsubscribe, hi]
  | listTypes => exact hk
  | publishPrecheck typeName key => exact hk
  | removeConn types =>
    have hremoved : Hub.AgreeOff x { h with registry := h.registry.removeConn x types } k := by
      refine ⟨hk.registry.of_subs (Cluster.sameTables_removeConn _ x types) fun t i hi => ?_,
        hk.chan⟩
      simp [Registry.mem_subscribers_removeConn, hi]
    exact hremoved.own _

end Hub.AgreeOff

namespace Conn

/-- The results agree, what belongs to the connection `x` aside. -/
def Result.AgreeOff (x : ℕ) (r r' : Result) : Prop :=
  r.1 = r'.1 ∧ r.2.2 = r'.2.2 ∧ r.2.1.AgreeOff x r'.2.1

section Steps

variable {x : ℕ} {h k : Hub} {c : Conn}

/-- The end of a `PUBLISH` on hubs that agree. -/
theorem finishPublish_agreeOff (hk : h.AgreeOff x k) (fwd : Bool) (c : Conn) (typeName key : Str)
    (body : Option (List Str)) :
    Result.AgreeOff x (finishPublish fwd c h typeName key body)
      (finishPublish fwd c k typeName key body) := by
  unfold finishPublish
  cases body with
  | none => exact ⟨rfl, rfl, hk⟩
  | some lines =>
    obtain ⟨hres, hagree⟩ := hk.publishLocal typeName key lines
    dsimp only
    rcases hh : h.publishLocal typeName key lines with ⟨res, h'⟩
    rcases hkk : k.publishLocal typeName key lines with ⟨res', k'⟩
    rw [hh, hkk] at hres hagree
    obtain rfl : res = res' := hres
    cases res with
    | ok msg => exact ⟨rfl, rfl, hagree⟩
    | error e => exact ⟨rfl, rfl, hagree⟩

/-- A command on hubs that agree. -/
theorem handleCommand_agreeOff (hk : h.AgreeOff x k) (limits : Limits) (fwd : Bool) (nowMs : ℕ)
    (c : Conn) (line : Bytes) :
    Result.AgreeOff x (handleCommand limits fwd nowMs c h line)
      (handleCommand limits fwd nowMs c k line) := by
  unfold handleCommand
  split
  · exact ⟨rfl, rfl, hk⟩
  · exact ⟨rfl, rfl, hk⟩
  · exact ⟨rfl, rfl, hk⟩
  · exact ⟨rfl, rfl, hk⟩
  · refine ⟨rfl, ?_, hk⟩
    unfold Registry.listTypes
    rw [hk.registry.types]
  · next typeName key _ =>
    obtain ⟨hres, hagree⟩ := hk.registry.registerLocal typeName key nowMs
    dsimp only
    rcases hh : h.registry.registerLocal typeName key nowMs with ⟨res, r'⟩
    rcases hkk : k.registry.registerLocal typeName key nowMs with ⟨res', r''⟩
    rw [hh, hkk] at hres hagree
    obtain rfl : res = res' := hres
    cases res with
    | ok reg => exact ⟨rfl, rfl, hagree, hk.chan⟩
    | error e => exact ⟨rfl, rfl, hagree, hk.chan⟩
  · exact ⟨rfl, rfl, hk.registry.subscribe _ _, hk.chan⟩
  · exact ⟨rfl, rfl, hk.registry.unsubscribe _ _, hk.chan⟩
  · next typeName key _ =>
    have hcheck : h.registry.publishPrecheck typeName key =
        k.registry.publishPrecheck typeName key := by
      unfold Registry.publishPrecheck
      rw [hk.registry.types]
    unfold beginPublish
    rw [hcheck]
    split <;> exact ⟨rfl, rfl, hk⟩

/-- An internal step of another connection on hubs that agree. -/
theorem go_agreeOff (hk : h.AgreeOff x k) (hid : c.id ≠ x) (limits : Limits) (fwd : Bool)
    (nowMs : ℕ) :
    Option.Rel (Result.AgreeOff x) (go limits fwd nowMs c h) (go limits fwd nowMs c k) := by
  have hchan := hk.chan c.id hid
  cases hphase : c.phase with
  | start =>
    simp only [go, hphase, hk.registry.daemonId]
    exact .some ⟨rfl, rfl, hk⟩
  | top =>
    simp only [go, hphase, hchan]
    split
    · exact .some ⟨rfl, rfl, hk⟩
    · exact .some ⟨rfl, rfl, hk.update _ _⟩
  | flush pending =>
    cases pending <;>
    · simp only [go, hphase]
      exact .some ⟨rfl, rfl, hk⟩
  | take =>
    rw [go_take hphase, go_take hphase]
    split
    · next line rest _ =>
      obtain ⟨hconn, hdone, hagree⟩ :=
        handleCommand_agreeOff hk limits fwd nowMs { c with rbuf := rest } line
      exact .some ⟨hconn, congrArg (Effect.command line :: ·) hdone, hagree⟩
    · exact .some ⟨rfl, rfl, hk⟩
    · exact .some ⟨rfl, rfl, hk⟩
  | deliver out =>
    simp only [go, hphase]
    exact .some ⟨rfl, rfl, hk⟩
  | body typeName key acc =>
    rw [go_body hphase, go_body hphase]
    split
    · next line rest _ =>
      split
      · obtain ⟨hconn, hdone, hagree⟩ :=
          finishPublish_agreeOff hk fwd { c with rbuf := rest } typeName key acc.result
        exact .some ⟨hconn, congrArg (Effect.bodyLine line :: ·) hdone, hagree⟩
      · exact .some ⟨rfl, rfl, hk⟩
    · exact .some ⟨rfl, rfl, hk⟩
    · exact .some ⟨rfl, rfl, hk⟩
  | ended exit =>
    simp only [go, hphase, hchan]
    exact .some ⟨rfl, rfl, hk.registry.removeConn _ _, (hk.update c.id _).chan⟩
  | select | bodyRead | gone =>
    simp only [go, hphase]
    exact .none

/-- **A step of another connection** on hubs that agree. -/
theorem step_agreeOff (hk : h.AgreeOff x k) (hid : c.id ≠ x) (limits : Limits) (fwd : Bool)
    (nowMs : ℕ) (wake : Wake) :
    Option.Rel (Result.AgreeOff x) (step limits fwd nowMs wake c h)
      (step limits fwd nowMs wake c k) := by
  have hchan := hk.chan c.id hid
  have hgo := go_agreeOff hk hid limits fwd nowMs
  cases wake with
  | go => exact hgo
  | read chunk =>
    cases hphase : c.phase with
    | select | bodyRead =>
      simp only [step, hphase]
      split
      · exact .none
      · split <;> exact .some ⟨rfl, rfl, hk⟩
    | _ =>
      simp only [step, hphase]
      exact .none
  | readErr =>
    cases hphase : c.phase with
    | select | bodyRead =>
      simp only [step, hphase]
      exact .some ⟨rfl, rfl, hk⟩
    | _ =>
      simp only [step, hphase]
      exact .none
  | recv =>
    cases hphase : c.phase with
    | select =>
      simp only [step, hphase, hchan]
      split
      · exact .none
      · exact .some ⟨rfl, rfl, hk.update _ _⟩
    | _ =>
      simp only [step, hphase]
      exact .none
  | notified =>
    cases hphase : c.phase with
    | select =>
      simp only [step, hphase, hchan]
      split
      · exact .some ⟨rfl, rfl, hk.update _ _⟩
      · exact .none
    | _ =>
      simp only [step, hphase]
      exact .none
  | writeErr =>
    simp only [step]
    cases hh : go limits fwd nowMs c h with
    | none =>
      cases hkk : go limits fwd nowMs c k with
      | none => exact .none
      | some r' => rw [hh, hkk] at hgo; cases hgo
    | some r =>
      cases hkk : go limits fwd nowMs c k with
      | none => rw [hh, hkk] at hgo; cases hgo
      | some r' =>
        rw [hh, hkk] at hgo
        obtain ⟨c₁, h₁, done⟩ := r
        obtain ⟨c₂, k₁, done'⟩ := r'
        cases hgo with
        | some hrel =>
          obtain ⟨hconn, hdone, hagree⟩ := hrel
          obtain rfl : c₁ = c₂ := hconn
          obtain rfl : done = done' := hdone
          dsimp only
          split
          · exact .some ⟨rfl, rfl, hagree⟩
          · exact .none

end Steps

end Conn

end MacroBus
