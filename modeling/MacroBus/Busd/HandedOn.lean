import MacroBus.Busd.LineTexts
import MacroBus.Busd.Holding
import MacroBus.Busd.Sendable

/-!
# What a connection hands on

The task of a connection hands the registry only what was checked: names that the parser let
pass and bodies within the limit. What it hands to the forwarder follows from the call it made,
so a daemon is known to its peers by its calls alone.
-/

namespace MacroBus

/-- The frame that an effect hands to the forwarder. -/
def Effect.handed : Effect → Option OutFrame
  | .forwardLocal msg => some (.feed msg)
  | .propagateRegistration typeName reg => some (.rreg typeName reg)
  | _ => none

/-- The frames that are handed to the forwarder, if there is one, after a call of this hub. -/
def Call.handed (fwd : Bool) (h : Hub) : Call → List OutFrame
  | .publishLocal typeName key body =>
    match (h.publishLocal typeName key body).1 with
    | .ok msg => if fwd then [.feed msg] else []
    | .error _ => []
  | .registerLocal typeName key nowMs =>
    match (h.registry.registerLocal typeName key nowMs).1 with
    | .ok reg => if reg.changed && fwd then [.rreg typeName reg.reg] else []
    | .error _ => []
  | _ => []

/-- What a call hands to the registry was checked, and the clock was read when it was made. -/
def Call.Checked (limits : Limits) (nowMs : ℕ) : Call → Prop
  | .registerLocal typeName key now =>
    validate.isValidType typeName = true ∧ validate.isValidKey key = true ∧ now = nowMs
  | .publishLocal typeName key body =>
    validate.isValidType typeName = true ∧ validate.isValidKey key = true ∧
      bodySize body ≤ limits.maxMessageBytes
  | .subscribe typeName => validate.isValidType typeName = true
  | _ => True

/-- What a connection has read of a publish was checked. -/
def Conn.Checked (limits : Limits) (c : Conn) : Prop :=
  ∀ typeName key acc, c.phase = .body typeName key acc ∨ c.phase = .bodyRead typeName key acc →
    validate.isValidType typeName = true ∧ validate.isValidKey key = true ∧ acc.Bounded limits

section Tasks

variable {limits : Limits} {fwd : Bool} {nowMs : ℕ} {wake : Conn.Wake} {c c' : Conn} {h h' : Hub}
  {done : List Effect} {typeName key : Str}

/-- Outside a body nothing of one is held. -/
theorem Conn.checked_outside (hout : c.phase.inBody = false) : c.Checked limits := by
  rintro typeName key acc (hphase | hphase) <;>
  · rw [hphase] at hout
    cases hout

/-- The names in a command that was parsed are valid. -/
theorem valid_of_parse {cmd : Command} {line : Str} (hparse : command.parse line = .ok cmd) :
    (∀ t ∈ cmd.typeName?, validate.isValidType t = true) ∧
      ∀ k ∈ cmd.key?, validate.isValidKey k = true := by
  obtain ⟨htype, hkey⟩ := command.from_of_parse hparse
  exact ⟨fun t ht => isValidType_iff.mpr (htype t ht).1, fun k hk => isValidKey_iff.mpr (hkey k hk).1⟩

/-- A command that was parsed calls with valid names, and its body is kept under them. -/
theorem checked_execute {cmd : Command} {line : Str} (hparse : command.parse line = .ok cmd) :
    (Conn.execute limits fwd nowMs c h cmd).1.Checked limits ∧
      ∀ made ∈ calls (Conn.execute limits fwd nowMs c h cmd).2.2, made.Checked limits nowMs := by
  obtain ⟨htype, hkey⟩ := valid_of_parse hparse
  cases cmd with
  | register typeName key =>
    have hcalls : calls (Conn.execute limits fwd nowMs c h (.register typeName key)).2.2 =
        [.registerLocal typeName key nowMs] := by
      unfold Conn.execute
      dsimp only
      split
      · next reg _ _ => cases reg.changed <;> cases fwd <;> rfl
      · rfl
    rw [hcalls]
    refine ⟨Conn.checked_outside ?_, fun made hmade => ?_⟩
    · unfold Conn.execute
      dsimp only
      split <;> rfl
    · rw [List.mem_singleton.mp hmade]
      exact ⟨htype typeName rfl, hkey key rfl, rfl⟩
  | publish typeName key =>
    have hcalls : calls (Conn.execute limits fwd nowMs c h (.publish typeName key)).2.2 =
        [.publishPrecheck typeName key] := by
      unfold Conn.execute Conn.beginPublish
      dsimp only
      split <;> rfl
    rw [hcalls]
    refine ⟨?_, fun made hmade => ?_⟩
    · unfold Conn.execute Conn.beginPublish
      dsimp only
      split
      · exact Conn.checked_outside rfl
      · rintro _ _ _ (⟨rfl, rfl, rfl⟩ | hphase)
        · exact ⟨htype typeName rfl, hkey key rfl, BodyAcc.bounded_empty limits⟩
        · cases hphase
    · rw [List.mem_singleton.mp hmade]
      trivial
  | quit | capabilities | help => exact ⟨Conn.checked_outside rfl, fun made hmade => by cases hmade⟩
  | subscribe typeName =>
    refine ⟨Conn.checked_outside rfl, fun made hmade => ?_⟩
    rw [List.mem_singleton.mp hmade]
    exact htype typeName rfl
  | listTypes | unsubscribe =>
    refine ⟨Conn.checked_outside rfl, fun made hmade => ?_⟩
    rw [List.mem_singleton.mp hmade]
    trivial

/-- A body that was collected is published under the names of its command. -/
theorem checked_finishPublish {acc : BodyAcc} (htype : validate.isValidType typeName = true)
    (hkey : validate.isValidKey key = true) (hacc : acc.Bounded limits) :
    ∀ made ∈ calls (Conn.finishPublish fwd c h typeName key acc.result).2.2,
      made.Checked limits nowMs := by
  unfold Conn.finishPublish
  cases hresult : acc.result with
  | none => exact fun made hmade => by cases hmade
  | some lines =>
    have hsize : bodySize lines ≤ limits.maxMessageBytes := by
      rw [BodyAcc.lines_of_result hresult]
      exact hacc.lines
    dsimp only
    split <;> intro made hmem
    · have hone : made ∈ [Call.publishLocal typeName key lines] := by cases fwd <;> exact hmem
      rw [List.mem_singleton.mp hone]
      exact ⟨htype, hkey, hsize⟩
    · rw [List.mem_singleton.mp hmem]
      exact ⟨htype, hkey, hsize⟩

/-- **An internal step** calls with what was checked. -/
theorem Conn.Checked.go (hc : c.Checked limits)
    (hgo : Conn.go limits fwd nowMs c h = some (c', h', done)) :
    c'.Checked limits ∧ ∀ made ∈ calls done, made.Checked limits nowMs := by
  cases Conn.go_goes hgo with
  | greet | noDrops | drain | flushed | notice | commandTooLong | commandNeed | bodyTooLong =>
    exact ⟨Conn.checked_outside rfl, fun made hmade => by cases hmade⟩
  | @deliver out =>
    cases out <;> exact ⟨Conn.checked_outside rfl, fun made hmade => by cases hmade⟩
  | @command line rest =>
    rw [Conn.handleCommand_eq]
    split
    · next cmd hparse => exact checked_execute hparse
    · exact ⟨Conn.checked_outside rfl, fun made hmade => by cases hmade⟩
  | @terminator typeName key acc line rest hphase =>
    obtain ⟨htype, hkey, hacc⟩ := hc typeName key acc (Or.inl hphase)
    refine ⟨Conn.checked_outside ?_, checked_finishPublish htype hkey hacc⟩
    rw [Conn.finishPublish_fst]
    rfl
  | @bodyLine typeName key acc line rest hphase htake =>
    obtain ⟨htype, hkey, hacc⟩ := hc typeName key acc (Or.inl hphase)
    refine ⟨?_, fun made hmade => by cases hmade⟩
    rintro _ _ _ (⟨rfl, rfl, rfl⟩ | hother)
    · exact ⟨htype, hkey, hacc.push _⟩
    · cases hother
  | @bodyNeed typeName key acc rest hphase =>
    refine ⟨?_, fun made hmade => by cases hmade⟩
    rintro _ _ _ (hother | ⟨rfl, rfl, rfl⟩)
    · cases hother
    · exact hc typeName key acc (Or.inl hphase)
  | remove =>
    refine ⟨Conn.checked_outside rfl, fun made hmade => ?_⟩
    rw [List.mem_singleton.mp hmade]
    trivial

/-- **Every step** calls with what was checked. -/
theorem Conn.Checked.step (hc : c.Checked limits)
    (hstep : Conn.step limits fwd nowMs wake c h = some (c', h', done)) :
    c'.Checked limits ∧ ∀ made ∈ calls done, made.Checked limits nowMs := by
  cases Conn.step_steps hstep with
  | go hgo => exact hc.go hgo
  | writeErr hgo =>
    obtain ⟨_, hcalls⟩ := hc.go hgo
    refine ⟨Conn.checked_outside rfl, fun made hmade => hcalls made ?_⟩
    exact mem_calls.mpr ((List.takeWhile_sublist _).subset (mem_calls.mp hmade))
  | @readBody _ typeName key acc hphase =>
    refine ⟨?_, fun made hmade => by cases hmade⟩
    rintro _ _ _ (⟨rfl, rfl, rfl⟩ | hother)
    · exact hc typeName key acc (Or.inr hphase)
    · cases hother
  | read | closed | closedBody | recv | notified =>
    exact ⟨Conn.checked_outside rfl, fun made hmade => by cases hmade⟩

/-- What the end of a `PUBLISH` hands on, before it writes. -/
theorem finishPublish_handed (fwd : Bool) (c : Conn) (h : Hub) (typeName key : Str)
    (body : Option (List Str)) :
    let done := (Conn.finishPublish fwd c h typeName key body).2.2
    done.filterMap Effect.handed = (calls done).flatMap (Call.handed fwd h) ∧
      (done.takeWhile fun e => !Conn.isWrite e).filterMap Effect.handed =
        done.filterMap Effect.handed := by
  unfold Conn.finishPublish
  cases body with
  | none => exact ⟨rfl, rfl⟩
  | some lines =>
    dsimp only
    split
    · next msg hub heq =>
      have hmade : Call.handed fwd h (.publishLocal typeName key lines) =
          if fwd then [.feed msg] else [] := by
        simp only [Call.handed, heq]
      cases fwd with
      | true => exact ⟨(List.append_nil _).trans hmade |>.symm, rfl⟩
      | false => exact ⟨(List.append_nil _).trans hmade |>.symm, rfl⟩
    · next e hub heq =>
      have hmade : Call.handed fwd h (.publishLocal typeName key lines) = [] := by
        simp only [Call.handed, heq]
      exact ⟨(List.append_nil _).trans hmade |>.symm, rfl⟩

/-- What a command hands on, before it writes. -/
theorem handleCommand_handed (limits : Limits) (fwd : Bool) (nowMs : ℕ) (c : Conn) (h : Hub)
    (line : Bytes) :
    let done := (Conn.handleCommand limits fwd nowMs c h line).2.2
    done.filterMap Effect.handed = (calls done).flatMap (Call.handed fwd h) ∧
      (done.takeWhile fun e => !Conn.isWrite e).filterMap Effect.handed =
        done.filterMap Effect.handed := by
  unfold Conn.handleCommand Conn.beginPublish
  split
  · exact ⟨rfl, rfl⟩
  · exact ⟨rfl, rfl⟩
  · exact ⟨rfl, rfl⟩
  · exact ⟨rfl, rfl⟩
  · exact ⟨rfl, rfl⟩
  · next typeName key _ =>
    dsimp only
    split
    · next reg registry heq =>
      have hmade : Call.handed fwd h (.registerLocal typeName key nowMs) =
          if reg.changed && fwd then [.rreg typeName reg.reg] else [] := by
        simp only [Call.handed, heq]
      cases hchanged : reg.changed with
      | true =>
        rw [hchanged] at hmade
        cases fwd <;> exact ⟨(List.append_nil _).trans hmade |>.symm, rfl⟩
      | false =>
        rw [hchanged] at hmade
        exact ⟨(List.append_nil _).trans hmade |>.symm, rfl⟩
    · next e registry heq =>
      have hmade : Call.handed fwd h (.registerLocal typeName key nowMs) = [] := by
        simp only [Call.handed, heq]
      exact ⟨(List.append_nil _).trans hmade |>.symm, rfl⟩
  · exact ⟨rfl, rfl⟩
  · exact ⟨rfl, rfl⟩
  · split <;> exact ⟨rfl, rfl⟩

/-- What an internal step hands on, before it writes. -/
theorem go_handed (hgo : Conn.go limits fwd nowMs c h = some (c', h', done)) :
    done.filterMap Effect.handed = (calls done).flatMap (Call.handed fwd h) ∧
      (done.takeWhile fun e => !Conn.isWrite e).filterMap Effect.handed =
        done.filterMap Effect.handed := by
  cases Conn.go_goes hgo with
  | @command line rest =>
    exact handleCommand_handed limits fwd nowMs { c with rbuf := rest } h line
  | @terminator typeName key acc line rest =>
    exact finishPublish_handed fwd { c with rbuf := rest } h typeName key acc.result
  | @deliver out => cases out <;> exact ⟨rfl, rfl⟩
  | _ => exact ⟨rfl, rfl⟩

/-- **What a step hands to the forwarder follows from its call.** -/
theorem step_handed (hstep : Conn.step limits fwd nowMs wake c h = some (c', h', done)) :
    done.filterMap Effect.handed = (calls done).flatMap (Call.handed fwd h) := by
  cases Conn.step_steps hstep with
  | go hgo => exact (go_handed hgo).1
  | writeErr hgo hwrites =>
    obtain ⟨hall, hfirst⟩ := go_handed hgo
    rw [hfirst, hall]
    rcases Conn.go_calls_first hgo with hsame | ⟨hlist, hnone⟩
    · rw [hsame]
    · rw [hlist, hnone]
      rfl
  | _ => rfl

end Tasks

namespace Daemon

variable {limits : Limits} {fwd : Bool} {daemonId : Str} {d d' : Daemon} {a : Action}
  {es past : List Event} {id : ℕ}

/-- What the connections of a daemon have read was checked. -/
def Checked (limits : Limits) (d : Daemon) : Prop := ∀ id c, d.conn id = some c → c.Checked limits

/-- **Every step** leaves only checked text with the connections. -/
theorem Checked.step (hd : d.Checked limits)
    (hstep : Daemon.step limits fwd d a = some (d', es)) : d'.Checked limits := by
  cases a with
  | accept i =>
    obtain ⟨_, rfl, _⟩ := step_accept_eq_some_iff.mp hstep
    intro id c hc
    dsimp only at hc
    by_cases hi : id = i
    · rw [hi, Function.update_self] at hc
      obtain rfl := Option.some.inj hc
      exact Conn.checked_outside rfl
    · rw [Function.update_of_ne hi] at hc
      exact hd id c hc
  | inbound made =>
    simp only [Daemon.step, Option.some.injEq, Prod.mk.injEq] at hstep
    obtain ⟨rfl, _⟩ := hstep
    exact hd
  | task i nowMs wake =>
    obtain ⟨c₁, c', h', done, hconn, hconnStep, rfl, _⟩ := step_task_eq_some_iff.mp hstep
    intro id c hc
    dsimp only at hc
    by_cases hi : id = i
    · rw [hi, Function.update_self] at hc
      obtain rfl := Option.some.inj hc
      exact ((hd i c₁ hconn).step hconnStep).1
    · rw [Function.update_of_ne hi] at hc
      exact hd id c hc

/-- The channel of an id that was never used is as it was made. -/
def Unused (limits : Limits) (d : Daemon) : Prop :=
  ∀ id, d.conn id = none → d.hub.chan id = { depth := limits.queueDepth }

/-- A fan-out leaves the channels of others alone. -/
theorem fanoutLocked_chan_of_notMem {h : Hub} {msg : Message}
    (hid : ∀ typeName, id ∉ h.registry.subscribers typeName) :
    (h.fanoutLocked msg).chan id = h.chan id := by
  rw [Hub.fanoutLocked_chan, if_neg (hid msg.typeName)]

/-- **Every step** leaves the channels of unused ids alone. -/
theorem Unused.step (hd : d.Unused limits) (hinv : SubscriptionInvariant d past)
    (hstep : Daemon.step limits fwd d a = some (d', es)) : d'.Unused limits := by
  have hnone : ∀ id, d.conn id = none → ∀ typeName, id ∉ d.hub.registry.subscribers typeName := by
    intro id hconn typeName hmem
    exact hinv.not_listening hconn typeName ((hinv.listening id typeName).mp hmem)
  cases a with
  | accept i =>
    obtain ⟨_, rfl, _⟩ := step_accept_eq_some_iff.mp hstep
    intro id hconn
    dsimp only at hconn ⊢
    by_cases hi : id = i
    · rw [hi, Function.update_self] at hconn
      cases hconn
    · rw [Function.update_of_ne hi] at hconn ⊢
      exact hd id hconn
  | inbound made =>
    simp only [Daemon.step, Option.some.injEq, Prod.mk.injEq] at hstep
    obtain ⟨rfl, _⟩ := hstep
    intro id hconn
    cases made with
    | recordSeen msg => exact hd id hconn
    | fanOut msg => exact (fanoutLocked_chan_of_notMem (hnone id hconn)).trans (hd id hconn)
    | applyRemoteRegistration => exact hd id hconn
  | task i nowMs wake =>
    obtain ⟨c, c', h', done, hconn, hconnStep, rfl, _⟩ := step_task_eq_some_iff.mp hstep
    obtain ⟨_, huses⟩ := Conn.step_uses hconnStep
    have hself := hinv.ids i c hconn
    intro id hid
    dsimp only at hid ⊢
    have hne : id ≠ i := by
      rintro rfl
      rw [Function.update_self] at hid
      cases hid
    rw [Function.update_of_ne hne] at hid
    cases huses with
    | alone => exact hd id hid
    | channel =>
      dsimp only
      rw [Function.update_of_ne (hself ▸ hne)]
      exact hd id hid
    | call made =>
      cases made with
      | publishLocal typeName key body =>
        simp only [Hub.execute]
        rcases hres : d.hub.publishLocal typeName key body with ⟨e | msg, h₁⟩
        · rw [Hub.publishLocal_error hres]
          exact hd id hid
        · obtain ⟨_, _, rfl⟩ := Hub.publishLocal_eq_ok_iff.mp hres
          refine Eq.trans (fanoutLocked_chan_of_notMem ?_) (hd id hid)
          exact hnone id hid
      | removeConn types =>
        simp only [Hub.execute]
        rw [Function.update_of_ne (hself ▸ hne)]
        exact hd id hid
      | _ => exact hd id hid

/-- **What holds of every run of a daemon**: its connections hand on what was checked, and the
channels of unused ids are untouched. -/
theorem checked_of_run
    (hrun : Transition.Run (Daemon.step limits fwd) Transition.anyStep (start daemonId limits) d
      past) : d.Checked limits ∧ d.Unused limits := by
  refine hrun.invariant_of_reached (I := fun d _ => d.Checked limits ∧ d.Unused limits)
    ⟨fun _ _ hconn => (by cases hconn), fun _ _ => rfl⟩ ?_
  rintro d past a d' es hbefore ⟨hchecked, hunused⟩ _ hstep
  exact ⟨hchecked.step hstep, hunused.step (subscriptionInvariant_of_run hbefore) hstep⟩

end Daemon

end MacroBus
