import MacroBus.Lib.Unwinding
import MacroBus.Busd.AgreeOff

/-!
# A slow consumer

Two runs of a daemon are compared that differ in what one connection does on its own: how
fast it drains its queue, when it ends, what it subscribes to. The other connections and the
peer links take the same steps in both, and the publishes and registrations of the one are
the same. Nothing that anyone else sees is different.
-/

namespace MacroBus

/-- Everything a task does with a call of the registry: the call, what it forwards, what it
answers. -/
def Call.does (fwd : Bool) (h : Hub) : Call → List Effect
  | .registerLocal typeName key nowMs =>
    .call (.registerLocal typeName key nowMs) ::
      match (h.registry.registerLocal typeName key nowMs).1 with
      | .ok reg =>
        (if reg.changed && fwd then [Effect.propagateRegistration typeName reg.reg] else []) ++
          [writeLine status.REGISTERED (typeName ++ " registered".toList)]
      | .error e => [writeLine e.code e.reason]
  | .subscribe typeName =>
    [.call (.subscribe typeName), writeLine status.SUBSCRIBED ("subscribed ".toList ++ typeName)]
  | .unsubscribe typeName =>
    [.call (.unsubscribe typeName),
      writeLine status.UNSUBSCRIBED ("unsubscribed ".toList ++ typeName)]
  | .listTypes =>
    [writeLine status.TYPE_LIST "type list follows".toList, .call .listTypes,
      .wrote (frame.encodeBody h.registry.listTypes)]
  | .publishPrecheck typeName key =>
    .call (.publishPrecheck typeName key) ::
      match h.registry.publishPrecheck typeName key with
      | some e => [writeLine e.code e.reason]
      | none => [writeLine status.START_BODY "enter message body; end with <CRLF>.<CRLF>".toList]
  | .publishLocal typeName key body =>
    .call (.publishLocal typeName key body) ::
      match (h.publishLocal typeName key body).1 with
      | .ok msg =>
        (if fwd then [Effect.forwardLocal msg] else []) ++
          [writeLine status.ACCEPTED "message accepted".toList]
      | .error e => [writeLine e.code e.reason]
  | .removeConn types => [.call (.removeConn types)]

/-- What a task does with a call, up to its first write. -/
def Call.doesUnwritten (fwd : Bool) (h : Hub) (made : Call) : List Effect :=
  (made.does fwd h).takeWhile fun e => !Conn.isWrite e

/-- A call does the same on hubs that agree. -/
theorem Hub.AgreeOff.does {x : ℕ} {h k : Hub} (hk : h.AgreeOff x k) (fwd : Bool) (made : Call) :
    made.does fwd h = made.does fwd k := by
  cases made with
  | registerLocal typeName key nowMs =>
    simp only [Call.does, (hk.registry.registerLocal typeName key nowMs).1]
  | publishLocal typeName key body =>
    simp only [Call.does, (hk.publishLocal typeName key body).1]
  | publishPrecheck typeName key =>
    simp only [Call.does, Registry.publishPrecheck, hk.registry.types]
  | listTypes => simp only [Call.does, Registry.listTypes, hk.registry.types]
  | subscribe | unsubscribe | removeConn => rfl

namespace Conn

/-- What a step of a task did, by its call of the registry. -/
inductive Did (fwd : Bool) (h : Hub) : List Effect → Prop
  /-- Nothing was called, and nothing forwarded. -/
  | alone {done : List Effect} : calls done = [] → done.any Effect.isForward = false →
      Did fwd h done
  /-- Something was called, after a line was taken. -/
  | call {before : List Effect} (made : Call) : before.all Effect.isTaking = true →
      Did fwd h (before ++ made.does fwd h)
  /-- The answer to a call could not be written. -/
  | unwritten {before : List Effect} (made : Call) : made ≠ .listTypes →
      before.all Effect.isTaking = true → Did fwd h (before ++ made.doesUnwritten fwd h)

section Steps

variable {limits : Limits} {fwd : Bool} {nowMs : ℕ} {wake : Wake} {c c' : Conn} {h h' : Hub}
  {done : List Effect}

/-- What the end of a `PUBLISH` does. -/
theorem finishPublish_did (fwd : Bool) (c : Conn) (h : Hub) (typeName key : Str)
    (body : Option (List Str)) :
    let done := (finishPublish fwd c h typeName key body).2.2
    calls done = [] ∧ done.any Effect.isForward = false ∨ ∃ made : Call, done = made.does fwd h := by
  unfold finishPublish
  cases body with
  | none => exact Or.inl ⟨rfl, rfl⟩
  | some lines =>
    refine Or.inr ⟨.publishLocal typeName key lines, ?_⟩
    dsimp only
    split
    · next heq => simp only [Call.does, heq]
    · next heq => simp only [Call.does, heq]

/-- What a command does. -/
theorem handleCommand_did (limits : Limits) (fwd : Bool) (nowMs : ℕ) (c : Conn) (h : Hub)
    (line : Bytes) :
    let done := (handleCommand limits fwd nowMs c h line).2.2
    calls done = [] ∧ done.any Effect.isForward = false ∨ ∃ made : Call, done = made.does fwd h := by
  unfold handleCommand
  split
  · exact Or.inl ⟨rfl, rfl⟩
  · exact Or.inl ⟨rfl, rfl⟩
  · exact Or.inl ⟨rfl, rfl⟩
  · exact Or.inl ⟨rfl, rfl⟩
  · exact Or.inr ⟨.listTypes, rfl⟩
  · next typeName key _ =>
    refine Or.inr ⟨.registerLocal typeName key nowMs, ?_⟩
    dsimp only
    split
    · next heq => simp only [Call.does, heq]
    · next heq => simp only [Call.does, heq]
  · next typeName _ => exact Or.inr ⟨.subscribe typeName, rfl⟩
  · next typeName _ => exact Or.inr ⟨.unsubscribe typeName, rfl⟩
  · next typeName key _ =>
    refine Or.inr ⟨.publishPrecheck typeName key, ?_⟩
    unfold beginPublish
    split
    · next heq => simp only [Call.does, heq]
    · next heq => simp only [Call.does, heq]

/-- What an internal step does. -/
theorem go_did (hgo : go limits fwd nowMs c h = some (c', h', done)) :
    calls done = [] ∧ done.any Effect.isForward = false ∨
      ∃ before, ∃ made : Call, before.all Effect.isTaking = true ∧
        done = before ++ made.does fwd h := by
  have htaken : ∀ (e : Effect) (rest : List Effect), e.asCall = none → e.isTaking = true →
      (calls rest = [] ∧ rest.any Effect.isForward = false ∨ ∃ made : Call, rest = made.does fwd h) →
      calls (e :: rest) = [] ∧ (e :: rest).any Effect.isForward = false ∨
        ∃ before, ∃ made : Call, before.all Effect.isTaking = true ∧
          e :: rest = before ++ made.does fwd h := by
    rintro e rest hcall htaking (⟨hnone, hquiet⟩ | ⟨made, rfl⟩)
    · refine Or.inl ⟨(List.filterMap_cons_none hcall).trans hnone, ?_⟩
      rw [List.any_cons, hquiet, Bool.or_false]
      exact (Effect.of_isTaking htaking).2.2
    · exact Or.inr ⟨[e], made, by simp [htaking], rfl⟩
  cases go_goes hgo with
  | command => exact htaken _ _ rfl rfl (handleCommand_did ..)
  | terminator => exact htaken _ _ rfl rfl (finishPublish_did ..)
  | remove => exact Or.inr ⟨[], .removeConn c.mySubs, rfl, rfl⟩
  | deliver => next out _ => cases out <;> exact Or.inl ⟨rfl, rfl⟩
  | _ => exact Or.inl ⟨rfl, rfl⟩

/-- What is forwarded comes between the call and the answer, except where the call only
looks. -/
theorem does_eq (fwd : Bool) (h : Hub) {made : Call} (hmade : made ≠ .listTypes) :
    ∃ forwards answer, made.does fwd h = .call made :: (forwards ++ answer) ∧
      forwards.all Effect.isForward = true ∧ answer.all isWrite = true ∧
      (made.changesTables = false → forwards = []) := by
  cases made with
  | listTypes => exact absurd rfl hmade
  | registerLocal typeName key nowMs =>
    simp only [Call.does]
    split
    · next reg _ =>
      refine ⟨_, _, rfl, ?_, rfl, fun hown => by cases hown⟩
      split <;> rfl
    · exact ⟨[], _, rfl, rfl, rfl, fun _ => rfl⟩
  | publishLocal typeName key body =>
    simp only [Call.does]
    split
    · refine ⟨_, _, rfl, ?_, rfl, fun hown => by cases hown⟩
      split <;> rfl
    · exact ⟨[], _, rfl, rfl, rfl, fun _ => rfl⟩
  | publishPrecheck typeName key =>
    simp only [Call.does]
    split <;> exact ⟨[], _, rfl, rfl, rfl, fun _ => rfl⟩
  | subscribe | unsubscribe => exact ⟨[], _, rfl, rfl, rfl, fun _ => rfl⟩
  | removeConn types => exact ⟨[], [], rfl, rfl, rfl, fun _ => rfl⟩

/-- Neither what is forwarded nor what is written is a call. -/
theorem calls_of_outward {effects : List Effect}
    (hout : ∀ e ∈ effects, e.isForward = true ∨ isWrite e = true ∨ e.isTaking = true) :
    calls effects = [] := by
  refine List.filterMap_eq_nil_iff.mpr fun e he => ?_
  have hkind := hout e he
  cases e with
  | call => simp [Effect.isForward, isWrite, Effect.isTaking] at hkind
  | _ => rfl

/-- Of all that a call does, it is the one call made. -/
theorem calls_does (fwd : Bool) (h : Hub) (made : Call) : calls (made.does fwd h) = [made] := by
  by_cases hmade : made = .listTypes
  · subst hmade
    rfl
  · obtain ⟨forwards, answer, heq, hforwards, hanswer, _⟩ := does_eq fwd h hmade
    have hnone : calls (forwards ++ answer) = [] := by
      refine calls_of_outward fun e he => ?_
      rcases List.mem_append.mp he with he | he
      · exact Or.inl (List.all_eq_true.mp hforwards e he)
      · exact Or.inr (Or.inl (List.all_eq_true.mp hanswer e he))
    rw [heq]
    exact congrArg (made :: ·) hnone

/-- What is left out where the answer cannot be written is the answer. -/
theorem does_eq_doesUnwritten (fwd : Bool) (h : Hub) {made : Call} (hmade : made ≠ .listTypes) :
    ∃ answer, made.does fwd h = made.doesUnwritten fwd h ++ answer ∧ answer.all isWrite = true ∧
      (made.doesUnwritten fwd h).any isWrite = false := by
  obtain ⟨forwards, answer, heq, hforwards, hanswer, _⟩ := does_eq fwd h hmade
  have hsilent : ∀ e ∈ Effect.call made :: forwards, isWrite e = false := by
    intro e he
    rcases List.mem_cons.mp he with rfl | he
    · rfl
    · have hforward := List.all_eq_true.mp hforwards e he
      cases e <;> first | rfl | cases hforward
  have hunwritten : made.doesUnwritten fwd h = .call made :: forwards := by
    have hstop : answer.takeWhile (fun e => !isWrite e) = [] := by
      cases answer with
      | nil => rfl
      | cons e answer =>
        have hwrite := List.all_eq_true.mp hanswer e List.mem_cons_self
        rw [List.takeWhile_cons_of_neg (by simp [hwrite])]
    unfold Call.doesUnwritten
    rw [heq, ← List.cons_append,
      List.takeWhile_append_of_pos fun e he => by rw [hsilent e he, Bool.not_false], hstop,
      List.append_nil]
  refine ⟨answer, by rw [hunwritten, heq, List.cons_append], hanswer, ?_⟩
  rw [hunwritten, List.any_eq_false]
  exact fun e he => by simp [hsilent e he]

/-- Where the answer cannot be written, it is still the one call made. -/
theorem calls_doesUnwritten (fwd : Bool) (h : Hub) {made : Call} (hmade : made ≠ .listTypes) :
    calls (made.doesUnwritten fwd h) = [made] := by
  obtain ⟨answer, heq, hanswer, _⟩ := does_eq_doesUnwritten fwd h hmade
  have hnone : calls answer = [] :=
    calls_of_outward fun e he => Or.inr (Or.inl (List.all_eq_true.mp hanswer e he))
  have hcalls := calls_does fwd h made
  rw [heq, calls, List.filterMap_append] at hcalls
  unfold calls at hnone ⊢
  rwa [hnone, List.append_nil] at hcalls

/-- A call that is the connection's own business forwards nothing. -/
theorem does_isForward (fwd : Bool) (h : Hub) {made : Call} (hown : made.changesTables = false) :
    (made.does fwd h).any Effect.isForward = false := by
  by_cases hmade : made = .listTypes
  · subst hmade
    rfl
  · obtain ⟨forwards, answer, heq, _, hanswer, hnone⟩ := does_eq fwd h hmade
    rw [heq, hnone hown, List.nil_append, List.any_cons, Bool.or_eq_false_iff]
    refine ⟨rfl, List.any_eq_false.mpr fun e he => ?_⟩
    have hwrite := List.all_eq_true.mp hanswer e he
    cases e with
    | wrote => simp [Effect.isForward]
    | _ => cases hwrite

/-- `LIST TYPES` writes before it looks. -/
theorem does_unwritten {made : Call} (hmade : made = .listTypes) :
    made.doesUnwritten fwd h = [] := by
  subst hmade
  rfl

/-- **What a step of a task does.** -/
theorem step_did (hstep : step limits fwd nowMs wake c h = some (c', h', done)) :
    Did fwd h done := by
  cases step_steps hstep with
  | go hgo =>
    rcases go_did hgo with ⟨hnone, hquiet⟩ | ⟨before, made, hbefore, rfl⟩
    · exact .alone hnone hquiet
    · exact .call made hbefore
  | @writeErr _ _ es hgo =>
    rcases go_did hgo with ⟨hnone, hquiet⟩ | ⟨before, made, hbefore, rfl⟩
    · have hsub := List.takeWhile_sublist (l := es) fun e => !isWrite e
      refine .alone (List.sublist_nil.mp (hnone ▸ hsub.filterMap _)) ?_
      rw [List.any_eq_false] at hquiet ⊢
      exact fun e he => hquiet e (hsub.subset he)
    · have hsilent : ∀ e ∈ before, (!isWrite e) = true := by
        intro e he
        rw [(Effect.of_isTaking (List.all_eq_true.mp hbefore e he)).2.1, Bool.not_false]
      rw [List.takeWhile_append_of_pos hsilent]
      by_cases hlist : made = .listTypes
      · have hnone : (made.does fwd h).takeWhile (fun e => !isWrite e) = [] :=
          does_unwritten hlist
        rw [hnone, List.append_nil]
        refine .alone (List.filterMap_eq_nil_iff.mpr fun e he => ?_)
          (List.any_eq_false.mpr fun e he => ?_)
        · exact (Effect.of_isTaking (List.all_eq_true.mp hbefore e he)).1
        · rw [(Effect.of_isTaking (List.all_eq_true.mp hbefore e he)).2.2]
          exact Bool.false_ne_true
      · exact .unwritten made hlist hbefore
  | _ => exact .alone rfl rfl

end Steps

end Conn

namespace Daemon

/-- What two runs have in common. -/
inductive Input
  /-- A step that is not one of the connection. -/
  | step (a : Action)
  /-- A call of the connection. -/
  | call (made : Call)
  deriving DecidableEq

/-- Whether a step is one of the connection. -/
def Action.isOf (x : ℕ) : Action → Bool
  | .accept id => id = x
  | .task id .. => id = x
  | .inbound _ => false

section Views

variable (x : ℕ) (shared : Call → Bool)

/-- What a step has in common with one of another run: the step itself, or the call of the
connection that the runs share. -/
def input (r : Action × List Event) : Option Input :=
  if r.1.isOf x then ((calls (effectsOf x r.2)).find? shared).map .call else some (.step r.1)

/-- Whether an effect of the connection is its own business: neither forwarded nor shared. -/
def ownEffect : Effect → Bool
  | .call made => !shared made
  | e => !e.isForward

/-- Whether an event is the own business of the connection. -/
def Event.isOwn : Event → Bool
  | .act a => a.isOf x
  | .did id e => id = x && ownEffect shared e
  | .took id _ => id = x
  | _ => false

/-- An event as others see it: a fan-out, whether or not the connection got it. -/
def Event.mask : Event → Event
  | .fannedOut publisher msg queued => .fannedOut publisher msg (queued.erase x)
  | e => e

/-- What everyone but the connection sees. -/
def seen (es : List Event) : List Event :=
  (es.filter fun e => !e.isOwn x shared).map (Event.mask x)

/-- The same texts are written, unless a write fails in one of the runs. -/
def SameReply (texts texts' : List Str) : Prop := texts = texts' ∨ texts = [] ∨ texts' = []

/-- The daemons agree, what belongs to the connection aside. -/
structure AgreeOff (d e : Daemon) : Prop where
  /-- The hubs agree. -/
  hub : d.hub.AgreeOff x e.hub
  /-- The other connections are the same. -/
  conn : ∀ id, id ≠ x → d.conn id = e.conn id
  /-- Every connection of the first is found under its id. -/
  ids : ∀ id c, d.conn id = some c → c.id = id
  /-- So is every one of the second. -/
  ids' : ∀ id c, e.conn id = some c → c.id = id

end Views

section Steps

variable {x : ℕ} {shared : Call → Bool} {h k : Hub} {es : List Event} {done : List Effect}
  {id nowMs : ℕ} {wake : Conn.Wake} {limits : Limits} {fwd : Bool} {d d' e : Daemon}

/-- What is seen adds up. -/
theorem seen_append (es es' : List Event) :
    seen x shared (es ++ es') = seen x shared es ++ seen x shared es' := by
  unfold seen
  rw [List.filter_append, List.map_append]

/-- What is seen of an effect and its fan-outs. -/
theorem seen_observe (h : Hub) (id : ℕ) (e : Effect) :
    seen x shared (observe h id e) =
      seen x shared [.did id e] ++ (fanned h id e).map (Event.mask x) := by
  have hself : (fanned h id e).filter (fun e => !e.isOwn x shared) = fanned h id e := by
    refine List.filter_eq_self.mpr fun ev hev => ?_
    obtain ⟨_, _, _, _, _, _, rfl⟩ := mem_fanned.mp hev
    rfl
  have hcons : observe h id e = [.did id e] ++ fanned h id e := rfl
  rw [hcons, seen_append]
  congr 1
  unfold seen
  rw [hself]

/-- A fan-out looks the same on hubs that agree. -/
theorem fanned_agreeOff (hk : h.AgreeOff x k) (id : ℕ) (e : Effect) :
    (fanned h id e).map (Event.mask x) = (fanned k id e).map (Event.mask x) := by
  cases e with
  | call made =>
    cases made with
    | publishLocal typeName key body =>
      simp only [fanned, (hk.publishLocal typeName key body).1]
      split
      · next msg _ => simp only [List.map_cons, List.map_nil, Event.mask, hk.recipients msg]
      · rfl
    | _ => rfl
  | _ => rfl

/-- Whatever a task does looks the same on hubs that agree. -/
theorem seen_task_agreeOff (hk : h.AgreeOff x k) (id : ℕ) (done : List Effect) :
    seen x shared (done.flatMap (observe h id)) = seen x shared (done.flatMap (observe k id)) := by
  induction done with
  | nil => rfl
  | cons e done ih =>
    rw [List.flatMap_cons, List.flatMap_cons, seen_append, seen_append, ih, seen_observe,
      seen_observe, fanned_agreeOff hk]

/-- Nothing is seen of what the connection does on its own. -/
theorem seen_own (hshared : ∀ made, made.changesTables = true → shared made = true)
    (hown : ∀ e ∈ done, ownEffect shared e = true) :
    seen x shared (done.flatMap (observe h x)) = [] := by
  induction done with
  | nil => rfl
  | cons e done ih =>
    have hhead := hown e List.mem_cons_self
    rw [List.flatMap_cons, seen_append, ih fun e' he' => hown e' (List.mem_cons_of_mem e he'),
      seen_observe]
    have hself : seen x shared [.did x e] = [] := by
      simp [seen, Event.isOwn, hhead]
    have hfanned : fanned h x e = [] := by
      refine List.eq_nil_iff_forall_not_mem.mpr fun ev hev => ?_
      obtain ⟨typeName, key, body, _, rfl, _, _⟩ := mem_fanned.mp hev
      simp [ownEffect, hshared (.publishLocal typeName key body) rfl] at hhead
    rw [hself, hfanned]
    rfl

/-- Nothing is seen of an item that the connection takes from its queue. -/
theorem seen_taken (h : Hub) (wake : Conn.Wake) : seen x shared (taken h x wake) = [] := by
  unfold taken
  split
  · cases (h.chan x).queue.head? <;> simp [seen, Event.isOwn]
  · rfl

/-- What was called is none of the others' business if it is not shared. -/
theorem own_of_calls (hcalls : ∀ made ∈ calls done, shared made = false)
    (hquiet : done.any Effect.isForward = false) : ∀ e ∈ done, ownEffect shared e = true := by
  intro e he
  cases e with
  | call made =>
    have hnot := hcalls made (mem_calls.mpr he)
    simp [ownEffect, hnot]
  | forwardLocal | propagateRegistration => exact absurd rfl (List.any_eq_false.mp hquiet _ he)
  | _ => rfl

/-- Taking octets is the connection's own business. -/
theorem own_of_taking {before : List Effect} (hbefore : before.all Effect.isTaking = true) :
    ∀ e ∈ before, ownEffect shared e = true := by
  intro e he
  have htaking := List.all_eq_true.mp hbefore e he
  cases e with
  | command | bodyLine | giveUp => rfl
  | _ => cases htaking

/-- What is written to the connection is its own business. -/
theorem own_of_writing {answer : List Effect} (hanswer : answer.all Conn.isWrite = true) :
    ∀ e ∈ answer, ownEffect shared e = true := by
  intro e he
  have hwrite := List.all_eq_true.mp hanswer e he
  cases e with
  | wrote => rfl
  | _ => cases hwrite

/-- The calls of a step that took a line and then did this. -/
theorem calls_append_taking {before rest : List Effect}
    (hbefore : before.all Effect.isTaking = true) : calls (before ++ rest) = calls rest := by
  have hnone : calls before = [] :=
    Conn.calls_of_outward fun e he => Or.inr (Or.inr (List.all_eq_true.mp hbefore e he))
  unfold calls at hnone ⊢
  rw [List.filterMap_append, hnone, List.nil_append]

/-- **A step without a shared call is the connection's own business.** -/
theorem own_of_unshared (hshared : ∀ made, made.changesTables = true → shared made = true)
    (hdid : Conn.Did fwd h done) (hnone : (calls done).find? shared = none) :
    ∀ e ∈ done, ownEffect shared e = true := by
  have hcalls : ∀ made ∈ calls done, shared made = false := fun made hmade =>
    Bool.eq_false_iff.mpr (List.find?_eq_none.mp hnone made hmade)
  have hown : ∀ made, calls done = [made] → made.changesTables = false := by
    intro made hmade
    have hnot := hcalls made (hmade ▸ List.mem_singleton_self made)
    cases htables : made.changesTables with
    | false => rfl
    | true => rw [hshared made htables] at hnot; cases hnot
  have hforward : ∀ before : List Effect, before.all Effect.isTaking = true →
      before.any Effect.isForward = false := by
    intro before hbefore
    refine List.any_eq_false.mpr fun e he => ?_
    rw [(Effect.of_isTaking (List.all_eq_true.mp hbefore e he)).2.2]
    exact Bool.false_ne_true
  refine own_of_calls hcalls ?_
  cases hdid with
  | alone _ hquiet => exact hquiet
  | @call before made hbefore =>
    have hone := (calls_append_taking hbefore).trans (Conn.calls_does fwd h made)
    rw [List.any_append, hforward _ hbefore, Conn.does_isForward fwd h (hown _ hone)]
    rfl
  | @unwritten before made hmade hbefore =>
    have hone := (calls_append_taking hbefore).trans (Conn.calls_doesUnwritten fwd h hmade)
    obtain ⟨answer, heq, _⟩ := Conn.does_eq_doesUnwritten fwd h hmade
    have hwhole := Conn.does_isForward fwd h (hown _ hone)
    rw [heq, List.any_append, Bool.or_eq_false_iff] at hwhole
    rw [List.any_append, hforward _ hbefore, hwhole.1]
    rfl

/-- **A step with a shared call** looks like that call and what comes of it. -/
theorem seen_of_shared (hshared : ∀ made, made.changesTables = true → shared made = true)
    {made : Call} (hdid : Conn.Did fwd h done) (hsome : (calls done).find? shared = some made) :
    calls done = [made] ∧
      seen x shared (done.flatMap (observe h x)) =
        seen x shared ((made.does fwd h).flatMap (observe h x)) ∧
      (done.filterMap written = (made.does fwd h).filterMap written ∨
        done.filterMap written = []) := by
  have hmade : ∀ made', calls done = [made'] → made' = made := by
    intro made' hone
    rw [hone] at hsome
    exact (List.mem_singleton.mp (List.mem_of_find?_eq_some hsome)).symm
  have htaking : ∀ before rest : List Effect, before.all Effect.isTaking = true →
      seen x shared ((before ++ rest).flatMap (observe h x)) =
          seen x shared (rest.flatMap (observe h x)) ∧
        (before ++ rest).filterMap written = rest.filterMap written := by
    intro before rest hbefore
    have hnone : before.filterMap written = [] := by
      refine List.filterMap_eq_nil_iff.mpr fun e he => ?_
      have htake := List.all_eq_true.mp hbefore e he
      cases e with
      | wrote => cases htake
      | _ => rfl
    rw [List.flatMap_append, seen_append, seen_own hshared (own_of_taking hbefore),
      List.filterMap_append, hnone]
    exact ⟨rfl, rfl⟩
  cases hdid with
  | alone hnone => rw [hnone] at hsome; cases hsome
  | @call before made' hbefore =>
    have hone := (calls_append_taking hbefore).trans (Conn.calls_does fwd h made')
    obtain rfl := hmade made' hone
    obtain ⟨hseen, hwritten⟩ := htaking before (made'.does fwd h) hbefore
    exact ⟨hone, hseen, Or.inl hwritten⟩
  | @unwritten before made' hlist hbefore =>
    have hone := (calls_append_taking hbefore).trans (Conn.calls_doesUnwritten fwd h hlist)
    obtain rfl := hmade made' hone
    obtain ⟨hseen, hwritten⟩ := htaking before (made'.doesUnwritten fwd h) hbefore
    obtain ⟨answer, heq, hanswer, hsilent⟩ := Conn.does_eq_doesUnwritten fwd h hlist
    have hnone : (made'.doesUnwritten fwd h).filterMap written = [] := by
      refine List.filterMap_eq_nil_iff.mpr fun e he => ?_
      have hwrite := List.any_eq_false.mp hsilent e he
      cases e with
      | wrote => exact absurd rfl hwrite
      | _ => rfl
    refine ⟨hone, ?_, Or.inr (hwritten.trans hnone)⟩
    rw [hseen, heq, List.flatMap_append, seen_append, seen_own hshared (own_of_writing hanswer),
      List.append_nil]

/-- What a step of the connection itself does to the hub. -/
theorem hub_of_own {c c' : Conn} {h' : Hub} (huses : Conn.Uses c h wake c' h' done) (hid : c.id = x)
    (hk : h.AgreeOff x k) (hcalls : ∀ made ∈ calls done, made.changesTables = false) :
    h'.AgreeOff x k := by
  subst hid
  cases huses with
  | alone => exact hk
  | channel => exact hk.own _
  | call made _ hone => exact hk.execute_own (hcalls made (hone ▸ List.mem_singleton_self made))

/-- The task of another connection takes the same item. -/
theorem taken_agreeOff (hk : h.AgreeOff x k) (hid : id ≠ x) (wake : Conn.Wake) :
    taken h id wake = taken k id wake := by
  unfold taken
  rw [hk.chan id hid]

/-- A peer link is seen to do the same. -/
theorem seen_received (hk : h.AgreeOff x k) (made : Section) :
    seen x shared (received h made) = seen x shared (received k made) := by
  cases made with
  | recordSeen msg =>
    unfold received
    dsimp only
    rw [(hk.recordSeen msg).1]
  | fanOut msg => simp [received, seen, Event.isOwn, Event.mask, hk.recipients]
  | applyRemoteRegistration typeName incoming =>
    unfold received
    dsimp only
    rw [(hk.perform _).1]

/-- What the daemon is left with after steps of the same kind. -/
theorem AgreeOff.update (hagree : AgreeOff x d e) {h' k' : Hub} (hk : h'.AgreeOff x k')
    {c : Conn} (hid : c.id = id) :
    AgreeOff x ⟨h', Function.update d.conn id (some c)⟩ ⟨k', Function.update e.conn id (some c)⟩ := by
  have hids : ∀ conn : ℕ → Option Conn, (∀ i c', conn i = some c' → c'.id = i) →
      ∀ i c', Function.update conn id (some c) i = some c' → c'.id = i := by
    intro conn hconn i c' hc'
    by_cases hi : i = id
    · subst hi
      rw [Function.update_self] at hc'
      rw [← Option.some.inj hc', hid]
    · rw [Function.update_of_ne hi] at hc'
      exact hconn i c' hc'
  refine ⟨hk, fun i hi => ?_, hids _ hagree.ids, hids _ hagree.ids'⟩
  by_cases hid' : i = id
  · subst hid'
    dsimp only
    rw [Function.update_self, Function.update_self]
  · dsimp only
    rw [Function.update_of_ne hid', Function.update_of_ne hid']
    exact hagree.conn i hi

/-- What the daemon is left with after a step of the connection itself. -/
theorem AgreeOff.own (hagree : AgreeOff x d e) {h' : Hub} (hk : h'.AgreeOff x e.hub) {c : Conn}
    (hid : c.id = x) : AgreeOff x ⟨h', Function.update d.conn x (some c)⟩ e := by
  refine ⟨hk, fun i hi => ?_, fun i c' hc' => ?_, hagree.ids'⟩
  · dsimp only
    rw [Function.update_of_ne hi]
    exact hagree.conn i hi
  · by_cases hi : i = x
    · subst hi
      dsimp only at hc'
      rw [Function.update_self] at hc'
      rw [← Option.some.inj hc', hid]
    · dsimp only at hc'
      rw [Function.update_of_ne hi] at hc'
      exact hagree.ids i c' hc'

/-- Daemons agree in both directions. -/
theorem AgreeOff.symm (hagree : AgreeOff x d e) : AgreeOff x e d :=
  ⟨hagree.hub.symm, fun id hid => (hagree.conn id hid).symm, hagree.ids', hagree.ids⟩

/-- **A silent step** of the connection is seen by no one. -/
theorem AgreeOff.silent (hshared : ∀ made, made.changesTables = true → shared made = true)
    (hagree : AgreeOff x d e) {a : Action} (hstep : step limits fwd d a = some (d', es))
    (hnone : input x shared (a, es) = none) :
    AgreeOff x d' e ∧ seen x shared es = [] := by
  cases hof : a.isOf x with
  | false =>
    unfold input at hnone
    rw [if_neg (by simp [hof])] at hnone
    cases hnone
  | true =>
    unfold input at hnone
    rw [if_pos (by simp [hof]), Option.map_eq_none_iff] at hnone
    cases a with
    | inbound made => cases hof
    | accept id =>
      obtain rfl : id = x := of_decide_eq_true hof
      obtain ⟨_, rfl, rfl⟩ := step_accept_eq_some_iff.mp hstep
      refine ⟨hagree.own (hagree.hub.own _) rfl, ?_⟩
      simp [seen, Event.isOwn, hof]
    | task id nowMs wake =>
      obtain rfl : id = x := of_decide_eq_true hof
      obtain ⟨c, c', h', done, hconn, hconnStep, rfl, rfl⟩ := step_task_eq_some_iff.mp hstep
      obtain ⟨hid, huses⟩ := Conn.step_uses hconnStep
      have hself := hagree.ids id c hconn
      rw [effectsOf_task, if_pos rfl] at hnone
      have hown := own_of_unshared hshared (Conn.step_did hconnStep) hnone
      have hcalls : ∀ made ∈ calls done, made.changesTables = false := by
        intro made hmade
        cases htables : made.changesTables with
        | false => rfl
        | true => exact absurd (hshared made htables) (List.find?_eq_none.mp hnone made hmade)
      refine ⟨hagree.own (hub_of_own huses hself hagree.hub hcalls) (hid.trans hself), ?_⟩
      have hact : seen id shared [.act (.task id nowMs wake)] = [] := by
        simp [seen, Event.isOwn, hof]
      rw [← List.singleton_append, seen_append, hact, seen_append, seen_taken, seen_own hshared hown]
      rfl

/-- **A step of anyone else** is the same on daemons that agree. -/
theorem AgreeOff.step (hagree : AgreeOff x d e) {a : Action} (hof : a.isOf x = false)
    {e' : Daemon} {es' : List Event} (hstep : Daemon.step limits fwd d a = some (d', es))
    (hstep' : Daemon.step limits fwd e a = some (e', es')) :
    AgreeOff x d' e' ∧ seen x shared es = seen x shared es' ∧ replies x es = replies x es' := by
  cases a with
  | accept id =>
    obtain ⟨_, rfl, rfl⟩ := step_accept_eq_some_iff.mp hstep
    obtain ⟨_, rfl, rfl⟩ := step_accept_eq_some_iff.mp hstep'
    exact ⟨hagree.update (hagree.hub.update id _) rfl, rfl, rfl⟩
  | inbound made =>
    simp only [Daemon.step, Option.some.injEq, Prod.mk.injEq] at hstep hstep'
    obtain ⟨rfl, rfl⟩ := hstep
    obtain ⟨rfl, rfl⟩ := hstep'
    have hquiet : ∀ h : Hub, replies x (.act (.inbound made) :: received h made) = [] := by
      intro h
      unfold replies
      rw [effectsOf_received, List.filterMap_nil]
    refine ⟨⟨(hagree.hub.perform made).2, hagree.conn, hagree.ids, hagree.ids'⟩, ?_, ?_⟩
    · rw [← List.singleton_append, seen_append, seen_received hagree.hub, ← seen_append,
        List.singleton_append]
    · rw [hquiet, hquiet]
  | task id nowMs wake =>
    have hne : id ≠ x := of_decide_eq_false hof
    obtain ⟨c, c₁, h', done, hconn, hconnStep, rfl, rfl⟩ := step_task_eq_some_iff.mp hstep
    obtain ⟨c', c₂, k', done', hconn', hconnStep', rfl, rfl⟩ := step_task_eq_some_iff.mp hstep'
    obtain rfl : c = c' := Option.some.inj (hconn.symm.trans ((hagree.conn id hne).trans hconn'))
    have hself := hagree.ids id c hconn
    have hrel := Conn.step_agreeOff hagree.hub (by rw [hself]; exact hne) limits fwd nowMs wake
    rw [hconnStep, hconnStep'] at hrel
    cases hrel with
    | some hresult =>
      obtain ⟨hc, hdone, hhub⟩ := hresult
      obtain rfl : c₁ = c₂ := hc
      obtain rfl : done = done' := hdone
      refine ⟨hagree.update hhub ((Conn.step_uses hconnStep).1.trans hself), ?_, ?_⟩
      · rw [← List.singleton_append, seen_append, seen_append, taken_agreeOff hagree.hub hne,
          seen_task_agreeOff hagree.hub, ← seen_append, ← seen_append, List.singleton_append]
      · unfold replies
        rw [effectsOf_task, effectsOf_task]

/-- **Steps of the connection with the same shared call** do the same. -/
theorem AgreeOff.call (hshared : ∀ made, made.changesTables = true → shared made = true)
    (hagree : AgreeOff x d e) {a b : Action} {made : Call} {e' : Daemon} {es' : List Event}
    (hstep : Daemon.step limits fwd d a = some (d', es))
    (hstep' : Daemon.step limits fwd e b = some (e', es'))
    (hinput : input x shared (a, es) = some (.call made))
    (hinput' : input x shared (b, es') = some (.call made)) :
    AgreeOff x d' e' ∧ seen x shared es = seen x shared es' ∧
      SameReply (replies x es) (replies x es') := by
  have hview : ∀ {f f' : Daemon} {a : Action} {es : List Event},
      Daemon.step limits fwd f a = some (f', es) → (∀ i c, f.conn i = some c → c.id = i) →
      input x shared (a, es) = some (.call made) →
      ∃ c, c.id = x ∧ f' = ⟨f.hub.execute x made, Function.update f.conn x (some c)⟩ ∧
        seen x shared es = seen x shared ((made.does fwd f.hub).flatMap (observe f.hub x)) ∧
        (replies x es = (made.does fwd f.hub).filterMap written ∨ replies x es = []) := by
    intro f f' a es hstep hids hinput
    unfold input at hinput
    split at hinput
    · next hof =>
      obtain ⟨made', hfind, hmade⟩ := Option.map_eq_some_iff.mp hinput
      obtain rfl : made' = made := by simpa using hmade
      cases a with
      | inbound => cases hof
      | accept id =>
        obtain ⟨_, _, rfl⟩ := step_accept_eq_some_iff.mp hstep
        cases hfind
      | task id nowMs wake =>
        obtain rfl : id = x := of_decide_eq_true hof
        obtain ⟨c, c', h', done, hconn, hconnStep, rfl, rfl⟩ := step_task_eq_some_iff.mp hstep
        obtain ⟨hid, huses⟩ := Conn.step_uses hconnStep
        have hself := hids id c hconn
        rw [effectsOf_task, if_pos rfl] at hfind
        obtain ⟨hone, hseen, hreply⟩ :=
          seen_of_shared (x := id) hshared (Conn.step_did hconnStep) hfind
        have hhub : h' = f.hub.execute id made' := by
          cases huses with
          | alone _ hnone => rw [hnone] at hone; cases hone
          | channel hnone => rw [hnone] at hone; cases hone
          | call made'' _ hone' =>
            rw [hone] at hone'
            obtain rfl := List.singleton_inj.mp hone'
            rw [hself]
        refine ⟨c', hid.trans hself, by rw [hhub], ?_, ?_⟩
        · have hact : seen id shared [.act (.task id nowMs wake)] = [] := by
            simp [seen, Event.isOwn, hof]
          rw [← List.singleton_append, seen_append, hact, seen_append, seen_taken, hseen]
          rfl
        · unfold replies
          rw [effectsOf_task, if_pos rfl]
          exact hreply
    · cases hinput
  obtain ⟨c, hc, rfl, hseen, hreply⟩ := hview hstep hagree.ids hinput
  obtain ⟨c', hc', rfl, hseen', hreply'⟩ := hview hstep' hagree.ids' hinput'
  have hdoes := hagree.hub.does fwd made
  have hhub := hagree.hub.execute made
  have hcalled : AgreeOff x ⟨d.hub.execute x made, d.conn⟩ ⟨e.hub.execute x made, e.conn⟩ :=
    ⟨hhub, hagree.conn, hagree.ids, hagree.ids'⟩
  refine ⟨((hcalled.own hhub hc).symm.own hhub.symm hc').symm, ?_, ?_⟩
  · rw [hseen, hseen', hdoes, seen_task_agreeOff hagree.hub]
  · rw [hdoes] at hreply
    rcases hreply with hreply | hreply
    · rcases hreply' with hreply' | hreply'
      · exact Or.inl (hreply.trans hreply'.symm)
      · exact Or.inr (Or.inr hreply')
    · exact Or.inr (Or.inl hreply)

/-- **Daemons that agree off a connection unwind**: its silent steps are quiet, and all
others are seen to do the same. -/
theorem agreeOff_unwinds (limits : Limits) (fwd : Bool)
    (hshared : ∀ made, made.changesTables = true → shared made = true) :
    Transition.Unwinds (Daemon.step limits fwd) (input x shared)
      (fun r => seen x shared r.2 = [])
      (fun r r' => seen x shared r.2 = seen x shared r'.2 ∧
        SameReply (replies x r.2) (replies x r'.2)) (AgreeOff x) where
  symm _ _ hagree := hagree.symm
  silent _ _ _ _ _ hagree hstep hnone := hagree.silent hshared hstep hnone
  agree s t s' t' a b es es' hagree hstep hstep' heq hsome := by
    cases hinput : input x shared (a, es) with
    | none => exact absurd hinput hsome
    | some i =>
      have hinput' := heq.symm.trans hinput
      cases i with
      | call made => exact hagree.call hshared hstep hstep' hinput hinput'
      | step act =>
        have hkind : ∀ {b : Action} {es : List Event}, input x shared (b, es) = some (.step act) →
            b.isOf x = false ∧ b = act := by
          intro b es hb
          unfold input at hb
          split at hb
          · obtain ⟨_, _, hmade⟩ := Option.map_eq_some_iff.mp hb
            cases hmade
          · next hof => exact ⟨Bool.eq_false_iff.mpr hof, by simpa using hb⟩
        obtain ⟨hof, rfl⟩ := hkind hinput
        obtain ⟨_, rfl⟩ := hkind hinput'
        obtain ⟨hafter, hseen, hreply⟩ := hagree.step hof hstep hstep'
        exact ⟨hafter, hseen, Or.inl hreply⟩

/-- What is seen of a history, step by step. -/
theorem seen_events (trace : List (Action × List Event)) :
    seen x shared (Transition.events trace) = trace.flatMap fun r => seen x shared r.2 := by
  unfold Transition.events
  induction trace with
  | nil => rfl
  | cons r trace ih => rw [List.flatMap_cons, List.flatMap_cons, seen_append, ih]

/-- What the queue of another connection took can be seen. -/
theorem queuedTo_seen (shared : Call → Bool) (hid : id ≠ x) (past : List Event) :
    queuedTo past id = queuedTo (seen x shared past) id := by
  unfold queuedTo seen
  induction past with
  | nil => rfl
  | cons ev past ih =>
    cases hown : ev.isOwn x shared with
    | true =>
      have hnone : Event.queuedTo id ev = none := by
        cases ev with
        | fannedOut => cases hown
        | _ => rfl
      rw [List.filterMap_cons_none hnone, ih, List.filter_cons_of_neg (by simp [hown])]
    | false =>
      have hmask : Event.queuedTo id (ev.mask x) = Event.queuedTo id ev := by
        cases ev with
        | fannedOut publisher msg queued => simp [Event.queuedTo, Event.mask, hid]
        | _ => rfl
      rw [List.filter_cons_of_pos (by simp [hown]), List.map_cons, List.filterMap_cons,
        List.filterMap_cons, hmask, ih]

/-- **A slow consumer affects only itself.** Two runs of a daemon have the same steps of
everyone but the connection `x`, in the same order with the same publishes and registrations
of `x`; whatever else `x` does, how fast it drains its queue or when it closes, is up to each
run. Then everyone else sees the same: the same messages are fanned out to the same other
queues, the others get the same replies, and the same frames are handed to the peers. The
queues and drop counts of the others are equal in the end. What the runs share of `x` is
answered alike, unless the answer can not be written in one of them. -/
theorem slow_consumer_affects_only_itself {daemonId : Str}
    {trace trace' : List (Action × List Event)}
    (hshared : ∀ made, made.changesTables = true → shared made = true)
    (hrun : Transition.Run (Transition.recorded (Daemon.step limits fwd)) Transition.anyStep
      (start daemonId limits) d trace)
    (hrun' : Transition.Run (Transition.recorded (Daemon.step limits fwd)) Transition.anyStep
      (start daemonId limits) d' trace')
    (hsame : trace.filterMap (input x shared) = trace'.filterMap (input x shared)) :
    seen x shared (Transition.events trace) = seen x shared (Transition.events trace') ∧
      List.Forall₂ (fun r r' => SameReply (replies x r.2) (replies x r'.2))
        (Transition.visible (input x shared) trace)
        (Transition.visible (input x shared) trace') ∧
      ∀ id, id ≠ x → d.hub.chan id = d'.hub.chan id ∧
        queuedTo (Transition.events trace) id = queuedTo (Transition.events trace') id := by
  have hunwinds := agreeOff_unwinds (x := x) limits fwd hshared
  have hstart : AgreeOff x (start daemonId limits) (start daemonId limits) :=
    ⟨.refl x _, fun _ _ => rfl, fun _ _ hnone => (by cases hnone), fun _ _ hnone => (by cases hnone)⟩
  obtain ⟨hagree, hpairs⟩ := hunwinds.run hstart hrun hrun' hsame
  have hquiet := (hunwinds.quiet_of_run hstart hrun).2
  have hquiet' := (hunwinds.quiet_of_run hstart hrun').2
  have hseen : seen x shared (Transition.events trace) =
      seen x shared (Transition.events trace') := by
    have hvisible := Transition.flatMap_eq_of_forall₂ (hpairs.imp fun _ _ hpair => hpair.1)
    rw [Transition.flatMap_visible hquiet, Transition.flatMap_visible hquiet'] at hvisible
    rw [seen_events, seen_events, hvisible]
  refine ⟨hseen, hpairs.imp fun _ _ hpair => hpair.2, fun id hid => ?_⟩
  exact ⟨hagree.hub.chan id hid,
    by rw [queuedTo_seen shared hid, hseen, ← queuedTo_seen shared hid]⟩

/-- Two connections subscribe, and a third one registers the type and publishes once. -/
def firstPublish : List Action :=
  arrival 1 ++ arrives 1 (Str.asBytes "SUBSCRIBE t\r\n".toList) 4 ++
    arrival 2 ++ arrives 2 (Str.asBytes "SUBSCRIBE t\r\n".toList) 4 ++
    arrival 3 ++ arrives 3 (Str.asBytes "REGISTER t k\r\n".toList) 4 ++
    arrives 3 (Str.asBytes "PUBLISH t k\r\n.\r\n".toList) 5

/-- The third connection publishes again. -/
def secondPublish : List Action := arrives 3 (Str.asBytes "PUBLISH t k\r\n.\r\n".toList) 5

/-- One run in which the first connection drains its queue of one item between the publishes,
and one in which it does not: it loses the second message there, and no one else notices. -/
theorem slow_consumer_affects_only_itself_drained : ∃ d trace d' trace',
    Transition.Run (Transition.recorded (Daemon.step { queueDepth := 1 } true)) Transition.anyStep
        (start "d1".toList { queueDepth := 1 }) d trace ∧
      Transition.Run (Transition.recorded (Daemon.step { queueDepth := 1 } true))
        Transition.anyStep (start "d1".toList { queueDepth := 1 }) d' trace' ∧
      (d.hub.chan 1).drops.lookup "t".toList = some 1 ∧
      (d'.hub.chan 1).drops.lookup "t".toList = none ∧
      seen 1 Call.changesTables (Transition.events trace) =
        seen 1 Call.changesTables (Transition.events trace') ∧
      d.hub.chan 2 = d'.hub.chan 2 := by
  have hboth : (Transition.exec (Transition.recorded (Daemon.step { queueDepth := 1 } true))
      (fun _ _ _ => true) (start "d1".toList { queueDepth := 1 }) []
      (firstPublish ++ secondPublish)).any (fun p =>
        (Transition.exec (Transition.recorded (Daemon.step { queueDepth := 1 } true))
          (fun _ _ _ => true) (start "d1".toList { queueDepth := 1 }) []
          (firstPublish ++ [.task 1 0 .recv] ++ secondPublish)).any fun q =>
            decide (p.2.filterMap (input 1 Call.changesTables) =
                q.2.filterMap (input 1 Call.changesTables) ∧
              (p.1.hub.chan 1).drops.lookup "t".toList = some 1 ∧
              (q.1.hub.chan 1).drops.lookup "t".toList = none)) = true := by
    decide
  obtain ⟨⟨d, trace⟩, hexec, hrest⟩ := (Option.any_eq_true _ _).mp hboth
  obtain ⟨⟨d', trace'⟩, hexec', hP⟩ := (Option.any_eq_true _ _).mp hrest
  obtain ⟨hsame, hdrop, hnone⟩ := of_decide_eq_true hP
  have hrun : Transition.Run (Transition.recorded (Daemon.step { queueDepth := 1 } true))
      Transition.anyStep (start "d1".toList { queueDepth := 1 }) d trace :=
    (Transition.run_of_exec _ _ _ _ hexec).weaken fun _ _ _ _ => trivial
  have hrun' : Transition.Run (Transition.recorded (Daemon.step { queueDepth := 1 } true))
      Transition.anyStep (start "d1".toList { queueDepth := 1 }) d' trace' :=
    (Transition.run_of_exec _ _ _ _ hexec').weaken fun _ _ _ _ => trivial
  obtain ⟨hseen, _, hothers⟩ := slow_consumer_affects_only_itself
    (fun _ htables => htables) hrun hrun' hsame
  exact ⟨d, trace, d', trace', hrun, hrun', hdrop, hnone, hseen, (hothers 2 (by decide)).1⟩

end Steps

end Daemon

end MacroBus
