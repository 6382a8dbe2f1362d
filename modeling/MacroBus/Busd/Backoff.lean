import Mathlib.Algebra.Order.Ring.Nat
import MacroBus.Busd.Identity
import MacroBus.Lib.Doubling

/-!
# The delays of a dialer

A dialer tries its peer again and again, and sleeps after each attempt. It starts from the
base delay again after an attempt that returns without an error. A link that was up and
then broke returns with one.
-/

namespace MacroBus

section Durations

/-- A span of time, as a whole number of nanoseconds below `u64::MAX + 1` seconds. -/
abbrev Duration := Fin (u64Values * 10 ^ 9)

/-- A span of this many milliseconds. -/
def Duration.fromMillis (millis : UInt64) : Duration :=
  ⟨millis.toNat * 10 ^ 6, by
    have hlt : millis.toNat < u64Values := millis.toNat_lt
    unfold u64Values at hlt ⊢
    omega⟩

/-- A multiple of a span of time; `none` where the arithmetic overflows, which panics. -/
def Duration.mul (d : Duration) (factor : ℕ) : Option Duration :=
  if h : d.val * factor < u64Values * 10 ^ 9 then some ⟨d.val * factor, h⟩ else none

end Durations

section Dialing

/-- Which of the two loops of a link ends first, and how. -/
inductive LoopEnd
  /-- `read_loop` -/
  | read (r : Except Str Unit)
  /-- `write_loop` -/
  | write (w : Except Str Unit)
  deriving DecidableEq

/-- What the loops of a link return. -/
def LoopEnd.result : LoopEnd → Except Str Unit
  | .read r => r
  | .write w => w

/-- What each step of one attempt answers. -/
structure Dialing where
  /-- There is a TLS connector. -/
  connector : Bool
  /-- The peer's id is a TLS server name. -/
  validName : Bool
  /-- The TCP connection. -/
  connect : Except Str Unit
  /-- The TLS handshake. -/
  handshake : Except Str Unit
  /-- Writing the greeting. -/
  writeGreeting : Except Str Unit
  /-- Flushing it. -/
  flush : Except Str Unit
  /-- Reading the peer's greeting: nothing at the end of the stream. -/
  readGreeting : Except Str (Option Str)
  /-- The loops. -/
  loops : LoopEnd
  deriving DecidableEq

/-- The first half of `dial_once`, up to the exchange of greetings: the remote id, once the
link is up. -/
def linkUp (peer : PeerConfig) (d : Dialing) : Except Str Str := do
  if !d.connector then throw "no TLS connector".toList
  if !d.validName then
    throw ("peer id ".toList ++ peer.id ++ " is not a valid TLS server name".toList)
  d.connect
  d.handshake
  d.writeGreeting
  d.flush
  match ← d.readGreeting with
  | none => throw "peer closed before greeting".toList
  | some greeting => return (parseGreetingId greeting).getD peer.id

/-- What came of one attempt. -/
structure Dialed where
  /-- The remote id, if the link came up. -/
  remoteId : Option Str
  /-- What `dial_once` returned. -/
  result : Except Str Unit
  deriving DecidableEq

/-- `dial_once` -/
def dialOnce (peer : PeerConfig) (d : Dialing) : Dialed :=
  match linkUp peer d with
  | .error e => ⟨none, .error e⟩
  | .ok remoteId => ⟨some remoteId, d.loops.result⟩

/-- The three ways an attempt can go. -/
inductive Outcome
  /-- The link never came up. -/
  | neverUp
  /-- It came up and closed cleanly. -/
  | closed
  /-- It came up and ended with an I/O error. -/
  | broke
  deriving DecidableEq

/-- How the attempt went. -/
def Dialed.outcome (d : Dialed) : Outcome :=
  match d.remoteId, d.result with
  | none, _ => .neverUp
  | some _, .ok () => .closed
  | some _, .error _ => .broke

/-- Only a link that came up and closed cleanly returns without an error. -/
theorem dialOnce_result (peer : PeerConfig) (d : Dialing) :
    (dialOnce peer d).result = .ok () ↔ (dialOnce peer d).outcome = .closed := by
  unfold dialOnce
  cases linkUp peer d with
  | error e => simp [Dialed.outcome]
  | ok remoteId => cases d.loops.result <;> simp [Dialed.outcome]

end Dialing

section Loop

/-- An attempt, and the delay slept after it. -/
structure Slept where
  /-- What came of the attempt. -/
  dialed : Dialed
  /-- The delay. -/
  delay : Duration
  deriving DecidableEq

/-- The delay to sleep after an attempt: an attempt without an error resets it. -/
def delayAfter (base backoff : Duration) (dialed : Dialed) : Duration :=
  match dialed.result with
  | .ok () => base
  | .error _ => backoff

/-- The loop of `run_dialer`, for these attempts; `none` where the doubling overflows. -/
def dialLoop (peer : PeerConfig) (base max : Duration) : Duration → List Dialing →
    Option (List Slept)
  | _, [] => some []
  | backoff, d :: ds =>
    let dialed := dialOnce peer d
    let backoff := delayAfter base backoff dialed
    match backoff.mul 2 with
    | none => none
    | some twice =>
      (dialLoop peer base max (min twice max) ds).map fun past => ⟨dialed, backoff⟩ :: past

/-- `run_dialer`, for these attempts. -/
def runDialer (peer : PeerConfig) (reconnectBaseMs reconnectMaxMs : UInt64)
    (ds : List Dialing) : Option (List Slept) :=
  let base := Duration.fromMillis (max reconnectBaseMs 1)
  let max := Duration.fromMillis (max reconnectMaxMs 1)
  dialLoop peer base max base ds

/-- **The delays follow the history of the link.** -/
structure FollowsHistory (base limit : Duration) (past : List Slept) : Prop where
  /-- After an attempt whose link came up, the dialer sleeps the base delay. -/
  up : ∀ a ∈ past, a.dialed.outcome ≠ .neverUp → a.delay = base
  /-- No delay exceeds both the base and the limit. -/
  bounded : ∀ a ∈ past, a.delay ≤ max base limit
  /-- Of two attempts in a row that did not come up, the second is followed by twice the
  delay of the first, up to the limit. -/
  doubled : ∀ before a b after, past = before ++ a :: b :: after →
    a.dialed.outcome = .neverUp → b.dialed.outcome = .neverUp →
    b.delay.val = min (a.delay.val * 2) limit.val

/-- How often the base is doubled for the delay after an attempt: `k` times, unless the
attempt closed cleanly. -/
def Dialed.doublings (k : ℕ) (d : Dialed) : ℕ := if d.outcome = .closed then 0 else k

/-- Every delay is the base, doubled once for each attempt since the last that closed
cleanly; `k` attempts were made since then. -/
def Paced (base limit : ℕ) : ℕ → List Slept → Prop
  | _, [] => True
  | k, a :: past =>
    a.delay.val = Doubling.delay base limit (a.dialed.doublings k) ∧
      Paced base limit (a.dialed.doublings k + 1) past

end Loop

section Pace

variable {peer : PeerConfig} {base limit backoff : Duration} {k : ℕ} {past : List Slept}

/-- A span of milliseconds can be doubled. -/
theorem Duration.fromMillis_double (millis : UInt64) :
    (Duration.fromMillis millis).val * 2 < u64Values * 10 ^ 9 := by
  have hlt : millis.toNat < u64Values := millis.toNat_lt
  unfold Duration.fromMillis
  unfold u64Values at hlt ⊢
  dsimp only
  omega

/-- A delay the dialer sleeps can be doubled. -/
theorem double_of_delay (hbase : base.val * 2 < u64Values * 10 ^ 9)
    (hlimit : limit.val * 2 < u64Values * 10 ^ 9)
    (hk : backoff.val = Doubling.delay base.val limit.val k) :
    ∃ twice, backoff.mul 2 = some twice ∧
      (min twice limit).val = Doubling.delay base.val limit.val (k + 1) := by
  have hle := Doubling.delay_le_max base.val limit.val k
  have hdouble : backoff.val * 2 < u64Values * 10 ^ 9 := by
    rw [hk]
    rcases le_max_iff.mp hle with h | h <;> omega
  refine ⟨⟨backoff.val * 2, hdouble⟩, dif_pos hdouble, ?_⟩
  rw [Doubling.delay_succ, ← hk]
  exact Fin.coe_min _ _

/-- The delay slept after an attempt, by the doublings behind it. -/
theorem delayAfter_val {dialing : Dialing}
    (hk : backoff.val = Doubling.delay base.val limit.val k) :
    (delayAfter base backoff (dialOnce peer dialing)).val =
      Doubling.delay base.val limit.val ((dialOnce peer dialing).doublings k) := by
  have hclosed := dialOnce_result peer dialing
  unfold Dialed.doublings
  cases hresult : (dialOnce peer dialing).result with
  | ok =>
    rw [if_pos (hclosed.mp hresult), delayAfter, hresult]
    rfl
  | error e =>
    have hnot : (dialOnce peer dialing).outcome ≠ .closed := by
      intro h
      rw [hclosed.mpr h] at hresult
      cases hresult
    rw [if_neg hnot, delayAfter, hresult]
    exact hk

/-- **The loop keeps the pace**, never overflows, and makes the attempts it is given. -/
theorem dialLoop_paced (hbase : base.val * 2 < u64Values * 10 ^ 9)
    (hlimit : limit.val * 2 < u64Values * 10 ^ 9) (ds : List Dialing)
    (hk : backoff.val = Doubling.delay base.val limit.val k) :
    ∃ past, dialLoop peer base limit backoff ds = some past ∧
      past.map Slept.dialed = ds.map (dialOnce peer) ∧ Paced base.val limit.val k past := by
  induction ds generalizing backoff k with
  | nil => exact ⟨[], rfl, rfl, trivial⟩
  | cons d ds ih =>
    have hdelay : (delayAfter base backoff (dialOnce peer d)).val = _ := delayAfter_val hk
    obtain ⟨twice, htwice, hnext⟩ := double_of_delay hbase hlimit hdelay
    obtain ⟨past, hpast, hdialed, hpaced⟩ := ih hnext
    refine ⟨⟨dialOnce peer d, delayAfter base backoff (dialOnce peer d)⟩ :: past, ?_, ?_, hdelay,
      hpaced⟩
    · simp only [dialLoop, htwice, hpast, Option.map_some]
    · rw [List.map_cons, List.map_cons, hdialed]

/-- The doublings behind a delay: at least one after the first attempt. -/
theorem Paced.mem (h : Paced base.val limit.val k past) {a : Slept} (ha : a ∈ past) :
    ∃ j, a.delay.val = Doubling.delay base.val limit.val (a.dialed.doublings j) ∧ (0 < k → 0 < j) := by
  induction past generalizing k with
  | nil => simp at ha
  | cons b past ih =>
    obtain ⟨hdelay, hrest⟩ := h
    rcases List.mem_cons.mp ha with rfl | ha
    · exact ⟨k, hdelay, id⟩
    · obtain ⟨j, hj, hpos⟩ := ih hrest ha
      exact ⟨j, hj, fun _ => hpos (Nat.succ_pos _)⟩

/-- The pace is kept behind a part of the history. -/
theorem Paced.of_append {before : List Slept}
    (h : Paced base.val limit.val k (before ++ past)) :
    ∃ j, Paced base.val limit.val j past := by
  induction before generalizing k with
  | nil => exact ⟨k, h⟩
  | cons b before ih => exact ih h.2

/-- No delay exceeds both the base and the limit. -/
theorem Paced.bounded (h : Paced base.val limit.val k past) :
    ∀ a ∈ past, a.delay ≤ max base limit := by
  intro a ha
  obtain ⟨j, hj, _⟩ := h.mem ha
  have hle := Doubling.delay_le_max base.val limit.val (a.dialed.doublings j)
  rw [← hj] at hle
  rcases le_max_iff.mp hle with hle | hle
  · exact le_max_of_le_left hle
  · exact le_max_of_le_right hle

/-- An attempt that does not close cleanly doubles the delay before it. -/
theorem Paced.doubled (h : Paced base.val limit.val k past) {before after : List Slept}
    {a b : Slept} (hpast : past = before ++ a :: b :: after)
    (hb : b.dialed.outcome ≠ .closed) :
    b.delay.val = min (a.delay.val * 2) limit.val := by
  rw [hpast] at h
  obtain ⟨j, ha, hdelay, _⟩ := h.of_append
  rw [hdelay, Dialed.doublings, if_neg hb, Doubling.delay_succ, ha]

/-- An attempt that closes cleanly is followed by the base delay. -/
theorem Paced.closed (h : Paced base.val limit.val k past) {a : Slept} (ha : a ∈ past)
    (hclosed : a.dialed.outcome = .closed) : a.delay = base := by
  obtain ⟨j, hj, _⟩ := h.mem ha
  rw [Dialed.doublings, if_pos hclosed, Doubling.delay_zero] at hj
  exact Fin.ext hj

/-- The delay after a link that broke is the base for the first attempt, and for every
attempt where the base is the limit. -/
theorem Paced.broke_iff {a : Slept} (h : Paced base.val limit.val k past)
    (hbase : 0 < base.val) (hlimit : 0 < limit.val) (ha : a ∈ past)
    (hbroke : a.dialed.outcome = .broke) (hk : 0 < k) : a.delay = base ↔ base = limit := by
  obtain ⟨j, hj, hpos⟩ := h.mem ha
  have hnot : a.dialed.outcome ≠ .closed := by simp [hbroke]
  rw [Dialed.doublings, if_neg hnot] at hj
  have hj0 : j ≠ 0 := (hpos hk).ne'
  rw [Fin.ext_iff, Fin.ext_iff, hj, Doubling.delay_eq_base_iff hbase hlimit]
  exact or_iff_right hj0

/-- **The pace follows the history** of the link unless a link breaks after the first
attempt. -/
theorem Paced.followsHistory_iff (h : Paced base.val limit.val 0 past) (hbase : 0 < base.val)
    (hlimit : 0 < limit.val) :
    FollowsHistory base limit past ↔
      base = limit ∨ ∀ a ∈ past.tail, a.dialed.outcome ≠ .broke := by
  cases past with
  | nil =>
    simp only [List.tail_nil, List.not_mem_nil, false_implies, implies_true, or_true, iff_true]
    exact ⟨fun a ha => absurd ha List.not_mem_nil, fun a ha => absurd ha List.not_mem_nil,
      fun before a b after hpast => by simp at hpast⟩
  | cons first past =>
    obtain ⟨hfirst, hrest⟩ := h
    rw [List.tail_cons]
    constructor
    · intro hfollows
      by_contra hnot
      push Not at hnot
      obtain ⟨hne, a, ha, hbroke⟩ := hnot
      have hdelay := hfollows.up a (List.mem_cons_of_mem _ ha) (by simp [hbroke])
      exact hne ((hrest.broke_iff hbase hlimit ha hbroke (Nat.succ_pos _)).mp hdelay)
    · intro hcond
      have hpaced : Paced base.val limit.val 0 (first :: past) := ⟨hfirst, hrest⟩
      refine ⟨?_, hpaced.bounded, ?_⟩
      · intro a ha hup
        cases hout : a.dialed.outcome with
        | neverUp => exact absurd hout hup
        | closed => exact hpaced.closed ha hout
        | broke =>
          rcases List.mem_cons.mp ha with rfl | ha
          · -- Nothing was doubled before the first attempt.
            have hzero : a.dialed.doublings 0 = 0 := by simp [Dialed.doublings]
            rw [hzero, Doubling.delay_zero] at hfirst
            exact Fin.ext hfirst
          · rcases hcond with heq | hnone
            · exact (hrest.broke_iff hbase hlimit ha hout (Nat.succ_pos _)).mpr heq
            · exact absurd hout (hnone a ha)
      · intro before a b after hpast _ hb
        exact hpaced.doubled hpast (by simp [hb])

/-- Spans of different milliseconds differ. -/
theorem Duration.fromMillis_inj {a b : UInt64} :
    Duration.fromMillis a = Duration.fromMillis b ↔ a = b := by
  rw [Fin.ext_iff, ← UInt64.toNat_inj]
  unfold Duration.fromMillis
  dsimp only
  omega

/-- A span of at least a millisecond is positive. -/
theorem Duration.fromMillis_max_pos (millis : UInt64) :
    0 < (Duration.fromMillis (max millis 1)).val := by
  have hone : (1 : UInt64) ≤ max millis 1 := by
    change 1 ≤ if millis ≤ 1 then 1 else millis
    split
    · exact UInt64.le_refl 1
    · next h => exact UInt64.le_of_lt (UInt64.not_le.mp h)
  have hnat : 1 ≤ (max millis 1).toNat := UInt64.le_iff_toNat_le.mp hone
  unfold Duration.fromMillis
  dsimp only
  omega

end Pace

/-- **The delays of a dialer** follow the history of its link exactly where the base is the
limit, or no link breaks after the first attempt. -/
theorem delays_follow_history_iff (peer : PeerConfig) (reconnectBaseMs reconnectMaxMs : UInt64)
    (ds : List Dialing) :
    (∃ past, runDialer peer reconnectBaseMs reconnectMaxMs ds = some past ∧
      FollowsHistory (.fromMillis (max reconnectBaseMs 1)) (.fromMillis (max reconnectMaxMs 1))
        past) ↔
    max reconnectBaseMs 1 = max reconnectMaxMs 1 ∨
      ∀ d ∈ ds.tail, (dialOnce peer d).outcome ≠ .broke := by
  have hbase := Duration.fromMillis_double (max reconnectBaseMs 1)
  have hlimit := Duration.fromMillis_double (max reconnectMaxMs 1)
  obtain ⟨past, hpast, hdialed, hpaced⟩ : ∃ past, runDialer peer reconnectBaseMs reconnectMaxMs ds =
      some past ∧ past.map Slept.dialed = ds.map (dialOnce peer) ∧ Paced _ _ 0 past :=
    dialLoop_paced hbase hlimit ds rfl
  have hiff := hpaced.followsHistory_iff (Duration.fromMillis_max_pos _)
    (Duration.fromMillis_max_pos _)
  have hoverall : (∀ a ∈ past.tail, a.dialed.outcome ≠ .broke) ↔
      ∀ d ∈ ds.tail, (dialOnce peer d).outcome ≠ .broke := by
    have htail : past.tail.map Slept.dialed = ds.tail.map (dialOnce peer) := by
      rw [List.map_tail, List.map_tail, hdialed]
    rw [← List.forall_mem_map (f := Slept.dialed) (P := fun d => d.outcome ≠ .broke), htail,
      List.forall_mem_map]
  rw [Duration.fromMillis_inj, hoverall] at hiff
  rw [← hiff]
  constructor
  · rintro ⟨past', hpast', hfollows⟩
    obtain rfl : past = past' := Option.some.inj (hpast.symm.trans hpast')
    exact hfollows
  · exact fun hfollows => ⟨past, hpast, hfollows⟩

/-- A peer in the tests of the cluster. -/
def backoffPeer : PeerConfig := ⟨"d2".toList, "127.0.0.1:7002".toList⟩

/-- An attempt on a link that comes up, is greeted, and then is reset by the peer. -/
def resetDialing : Dialing where
  connector := true
  validName := true
  connect := .ok ()
  handshake := .ok ()
  writeGreeting := .ok ()
  flush := .ok ()
  readGreeting := .ok (some (peerGreeting "d2".toList))
  loops := .read (.error "connection reset by peer".toList)

/-- An attempt while nobody listens. -/
def refusedDialing : Dialing := { resetDialing with connect := .error "connection refused".toList }

/-- **A link that came up late and broke**: the delay after it is twice the base. -/
theorem broken_link_sleeps_longer :
    ¬∀ (peer : PeerConfig) (reconnectBaseMs reconnectMaxMs : UInt64) (ds : List Dialing),
      ∃ past, runDialer peer reconnectBaseMs reconnectMaxMs ds = some past ∧
        FollowsHistory (.fromMillis (max reconnectBaseMs 1)) (.fromMillis (max reconnectMaxMs 1))
          past := by
  intro h
  obtain ⟨past, hpast, hfollows⟩ := h backoffPeer 500 30000 [refusedDialing, resetDialing]
  let second : Slept := ⟨dialOnce backoffPeer resetDialing, .fromMillis 1000⟩
  have hrun : runDialer backoffPeer 500 30000 [refusedDialing, resetDialing] =
      some [⟨dialOnce backoffPeer refusedDialing, .fromMillis 500⟩, second] := by decide
  obtain rfl := Option.some.inj (hpast.symm.trans hrun)
  have hdelay := hfollows.up second (by simp) (by decide)
  exact absurd hdelay (by decide)

end MacroBus
