import MacroBus.Busd.Daemon

/-!
# A daemon that is given commands

The octets a connection reads matter only by what they are parsed to: command lines, and the
bodies of a `PUBLISH`. This daemon is given the parsed commands and bodies themselves, and
whatever the daemon that reads octets does, it does too.
-/

namespace MacroBus

namespace Conn

/-- `Conn::handle_command` from the point where the line is parsed. -/
def execute (limits : Limits) (fwd : Bool) (nowMs : ℕ) (c : Conn) (h : Hub) : Command → Result
  | .quit =>
    ({ c with phase := .ended .ok }, h,
      [writeLine status.CLOSING "closing connection".toList])
  | .capabilities =>
    ({ c with phase := .top }, h,
      [writeLine status.INFO_FOLLOWS "capabilities follow".toList,
        .wrote (frame.encodeBody (capabilityLines limits))])
  | .help =>
    ({ c with phase := .top }, h,
      [writeLine status.INFO_FOLLOWS "help follows".toList, .wrote (frame.encodeBody helpLines)])
  | .listTypes =>
    ({ c with phase := .top }, h,
      [writeLine status.TYPE_LIST "type list follows".toList, .call .listTypes,
        .wrote (frame.encodeBody h.registry.listTypes)])
  | .register typeName key =>
    let called := Effect.call (.registerLocal typeName key nowMs)
    match h.registry.registerLocal typeName key nowMs with
    | (.ok reg, registry) =>
      ({ c with phase := .top }, { h with registry := registry },
        called ::
          ((if reg.changed && fwd then [Effect.propagateRegistration typeName reg.reg] else []) ++
            [writeLine status.REGISTERED (typeName ++ " registered".toList)]))
    | (.error e, registry) =>
      ({ c with phase := .top }, { h with registry := registry },
        [called, writeLine e.code e.reason])
  | .subscribe typeName =>
    ({ c with mySubs := c.mySubs.insert typeName, phase := .top },
      { h with registry := h.registry.subscribe typeName c.id },
      [.call (.subscribe typeName),
        writeLine status.SUBSCRIBED ("subscribed ".toList ++ typeName)])
  | .unsubscribe typeName =>
    ({ c with mySubs := c.mySubs.erase typeName, phase := .top },
      { h with registry := h.registry.unsubscribe typeName c.id },
      [.call (.unsubscribe typeName),
        writeLine status.UNSUBSCRIBED ("unsubscribed ".toList ++ typeName)])
  | .publish typeName key => beginPublish c h typeName key

/-- What the task of a connection is given when it goes on. -/
inductive Given
  /-- Nothing to wait for. -/
  | go
  /-- A command line that parses. -/
  | command (cmd : Command)
  /-- A command line that does not. -/
  | malformed (e : ParseError)
  /-- A command line that is too long. -/
  | overlong
  /-- No complete command line. -/
  | idle
  /-- More octets, while it waits for a command line. -/
  | received
  /-- The end of the stream, or a failed read. -/
  | closed (exit : Exit)
  /-- The body of a `PUBLISH`, or `none` where it is too large. -/
  | body (result : Option (List Str))
  /-- The outbound queue yields an item. -/
  | recv
  /-- The drop notification fires. -/
  | notified
  deriving DecidableEq

/-- One step of a task with what it is given. -/
def handle (limits : Limits) (fwd : Bool) (nowMs : ℕ) (c : Conn) (h : Hub) : Given → Option Result
  | .go =>
    match c.phase with
    | .take | .body .. => none
    | _ => go limits fwd nowMs c h
  | .command cmd => if c.phase = .take then some (execute limits fwd nowMs c h cmd) else none
  | .malformed e =>
    if c.phase = .take then some ({ c with phase := .top }, h, [writeLine e.code e.reason])
    else none
  | .overlong =>
    if c.phase = .take then
      some ({ c with phase := .ended .ok }, h,
        [writeLine status.SYNTAX "command line too long".toList])
    else none
  | .idle => if c.phase = .take then some ({ c with phase := .select }, h, []) else none
  | .received => if c.phase = .select then some ({ c with phase := .top }, h, []) else none
  | .closed exit =>
    match c.phase with
    | .select | .body .. => some ({ c with phase := .ended exit }, h, [])
    | _ => none
  | .body result =>
    match c.phase with
    | .body typeName key _ => some (finishPublish fwd c h typeName key result)
    | _ => none
  | .recv => step limits fwd nowMs .recv c h
  | .notified => step limits fwd nowMs .notified c h

/-- A step whose first write fails. -/
def cut (r : Result) : Option Result :=
  if r.2.2.any isWrite then
    some ({ r.1 with phase := .ended .io }, r.2.1, r.2.2.takeWhile fun e => !isWrite e)
  else none

/-- One step of a task; its first write may fail. -/
def attempt (limits : Limits) (fwd : Bool) (nowMs : ℕ) (fails : Bool) (g : Given) (c : Conn)
    (h : Hub) : Option Result :=
  if fails then (handle limits fwd nowMs c h g).bind cut else handle limits fwd nowMs c h g

end Conn

/-- A phase without what was read of a body so far. -/
def Phase.forget : Phase → Phase
  | .body typeName key _ => .body typeName key {}
  | .bodyRead typeName key _ => .body typeName key {}
  | phase => phase

/-- A connection without what it has read. -/
def Conn.forget (c : Conn) : Conn := { c with rbuf := [], phase := c.phase.forget }

namespace Conn

section Steps

variable {limits : Limits} {fwd : Bool} {nowMs : ℕ} {wake : Wake} {c c' : Conn} {h h' : Hub}
  {done : List Effect}

/-- A line that parses is executed. -/
theorem handleCommand_eq (limits : Limits) (fwd : Bool) (nowMs : ℕ) (c : Conn) (h : Hub)
    (line : Bytes) : handleCommand limits fwd nowMs c h line =
      match command.parse (fromUtf8Lossy line) with
      | .ok cmd => execute limits fwd nowMs c h cmd
      | .error e => ({ c with phase := .top }, h, [writeLine e.code e.reason]) := by
  unfold handleCommand
  cases command.parse (fromUtf8Lossy line) with
  | error e => rfl
  | ok cmd => cases cmd <;> rfl

/-- What was read has no part in a command. -/
theorem execute_forget (limits : Limits) (fwd : Bool) (nowMs : ℕ) (c : Conn) (h : Hub)
    (cmd : Command) : execute limits fwd nowMs c.forget h cmd =
      ((execute limits fwd nowMs c h cmd).1.forget, (execute limits fwd nowMs c h cmd).2) := by
  cases cmd with
  | register typeName key =>
    simp only [execute]
    rcases h.registry.registerLocal typeName key nowMs with ⟨e | reg, r'⟩ <;> rfl
  | publish typeName key =>
    simp only [execute, beginPublish]
    cases h.registry.publishPrecheck typeName key <;> rfl
  | _ => rfl

/-- What was read has no part in the end of a `PUBLISH`. -/
theorem finishPublish_forget (fwd : Bool) (c : Conn) (h : Hub) (typeName key : Str)
    (body : Option (List Str)) : finishPublish fwd c.forget h typeName key body =
      ((finishPublish fwd c h typeName key body).1.forget,
        (finishPublish fwd c h typeName key body).2) := by
  unfold finishPublish
  cases body with
  | none => rfl
  | some lines =>
    dsimp only
    rcases h.publishLocal typeName key lines with ⟨e | msg, h'⟩ <;> rfl

/-- A command takes nothing more. -/
theorem execute_notTaking (limits : Limits) (fwd : Bool) (nowMs : ℕ) (c : Conn) (h : Hub)
    (cmd : Command) : ∀ e ∈ (execute limits fwd nowMs c h cmd).2.2, e.isTaking = false := by
  cases cmd with
  | register typeName key =>
    simp only [execute]
    rcases h.registry.registerLocal typeName key nowMs with ⟨e | ⟨reg, changed⟩, r'⟩
    · simp [Effect.isTaking, writeLine]
    · cases changed <;> cases fwd <;> simp [Effect.isTaking, writeLine]
  | publish typeName key =>
    simp only [execute, beginPublish]
    cases h.registry.publishPrecheck typeName key <;> simp [Effect.isTaking, writeLine]
  | _ => simp [execute, Effect.isTaking, writeLine]

/-- The end of a `PUBLISH` takes nothing more. -/
theorem finishPublish_notTaking (fwd : Bool) (c : Conn) (h : Hub) (typeName key : Str)
    (body : Option (List Str)) :
    ∀ e ∈ (finishPublish fwd c h typeName key body).2.2, e.isTaking = false := by
  unfold finishPublish
  cases body with
  | none => simp [Effect.isTaking, writeLine]
  | some lines =>
    dsimp only
    rcases h.publishLocal typeName key lines with ⟨e | msg, h'⟩
    · simp [Effect.isTaking, writeLine]
    · cases fwd <;> simp [Effect.isTaking, writeLine]

/-- What is left when a line has been taken. -/
theorem filter_taken {e : Effect} (he : e.isTaking = true)
    (hdone : ∀ e ∈ done, e.isTaking = false) :
    (e :: done).filter (fun e => !e.isTaking) = done := by
  rw [List.filter_cons_of_neg (by simp [he])]
  exact List.filter_eq_self.mpr fun e' he' => by rw [hdone e' he', Bool.not_false]

/-- **An internal step** takes octets, or is one with what they are parsed to. -/
theorem go_given (hgo : go limits fwd nowMs c h = some (c', h', done)) :
    c'.forget = c.forget ∧ h' = h ∧ done.all Effect.isTaking = true ∨
      ∃ g, handle limits fwd nowMs c.forget h g =
        some (c'.forget, h', done.filter fun e => !e.isTaking) := by
  have hforget : c.forget.phase = c.phase.forget := rfl
  cases go_goes hgo with
  | greet hphase =>
    refine Or.inr ⟨.go, ?_⟩
    simp [handle, go, forget, hphase, Phase.forget, Effect.isTaking]
  | noDrops hphase hnone =>
    refine Or.inr ⟨.go, ?_⟩
    simp [handle, go, forget, hphase, Phase.forget, hnone]
  | drain hphase hsome =>
    refine Or.inr ⟨.go, ?_⟩
    have htop : c.forget.phase = .top := by
      rw [hforget, hphase]
      rfl
    unfold handle
    rw [htop]
    dsimp only
    rw [go_top htop]
    split
    · next hnone => exact absurd hnone hsome
    · rfl
  | flushed hphase =>
    refine Or.inr ⟨.go, ?_⟩
    simp [handle, go, forget, hphase, Phase.forget]
  | notice hphase =>
    refine Or.inr ⟨.go, ?_⟩
    simp [handle, go, forget, hphase, Phase.forget, Effect.isTaking, writeLine]
  | @command line rest hphase htake =>
    have htake : c.forget.phase = .take := by
      rw [hforget, hphase]
      rfl
    have hsame : ({ c with rbuf := rest } : Conn).forget = c.forget := rfl
    rw [handleCommand_eq]
    cases hparse : command.parse (fromUtf8Lossy line) with
    | ok cmd =>
      refine Or.inr ⟨.command cmd, ?_⟩
      have hexecute := execute_forget limits fwd nowMs { c with rbuf := rest } h cmd
      rw [hsame] at hexecute
      simp only [handle, if_pos htake, hexecute,
        filter_taken (e := .command line) rfl (execute_notTaking limits fwd nowMs { c with rbuf := rest } h cmd)]
    | error e =>
      refine Or.inr ⟨.malformed e, ?_⟩
      simp only [handle, if_pos htake]
      rfl
  | commandTooLong hphase =>
    refine Or.inr ⟨.overlong, ?_⟩
    simp [handle, forget, hphase, Phase.forget, Effect.isTaking, writeLine]
  | commandNeed hphase =>
    refine Or.inr ⟨.idle, ?_⟩
    simp [handle, forget, hphase, Phase.forget]
  | @deliver out hphase =>
    refine Or.inr ⟨.go, ?_⟩
    cases out <;>
      simp [handle, go, forget, hphase, Phase.forget, Effect.isTaking, writeOutbound, writeLine]
  | @terminator typeName key acc line rest hphase htake hline =>
    refine Or.inr ⟨.body acc.result, ?_⟩
    have hbody : c.forget.phase = .body typeName key {} := by
      rw [hforget, hphase]
      rfl
    have hsame : ({ c with rbuf := rest } : Conn).forget = c.forget := rfl
    have hfinish := finishPublish_forget fwd { c with rbuf := rest } h typeName key acc.result
    rw [hsame] at hfinish
    simp only [handle, hbody, hfinish, filter_taken (e := .bodyLine line) rfl
      (finishPublish_notTaking fwd { c with rbuf := rest } h typeName key acc.result)]
  | bodyLine hphase htake hline =>
    refine Or.inl ⟨?_, rfl, rfl⟩
    simp [forget, hphase, Phase.forget]
  | bodyTooLong hphase htake =>
    refine Or.inr ⟨.body none, ?_⟩
    simp [handle, forget, hphase, Phase.forget, finishPublish, Effect.isTaking, writeLine]
  | bodyNeed hphase htake =>
    refine Or.inl ⟨?_, rfl, rfl⟩
    simp [forget, hphase, Phase.forget]
  | remove hphase =>
    refine Or.inr ⟨.go, ?_⟩
    simp [handle, go, forget, hphase, Phase.forget, Effect.isTaking]

/-- Writes are found again where octets taken are left out. -/
theorem any_isWrite_filter (done : List Effect) :
    (done.filter fun e => !e.isTaking).any isWrite = done.any isWrite := by
  induction done with
  | nil => rfl
  | cons e done ih =>
    cases htaking : e.isTaking with
    | true =>
      have hwrite : isWrite e = false := (Effect.of_isTaking htaking).2.1
      simp [htaking, hwrite, ih]
    | false => simp [htaking, ih]

/-- What stands before the first write is found again where octets taken are left out. -/
theorem takeWhile_filter (done : List Effect) :
    (done.filter fun e => !e.isTaking).takeWhile (fun e => !isWrite e) =
      (done.takeWhile fun e => !isWrite e).filter fun e => !e.isTaking := by
  induction done with
  | nil => rfl
  | cons e done ih =>
    cases htaking : e.isTaking with
    | true =>
      have hwrite : isWrite e = false := (Effect.of_isTaking htaking).2.1
      rw [List.filter_cons_of_neg (by simp [htaking]), ih, List.takeWhile_cons_of_pos (by simp [hwrite]),
        List.filter_cons_of_neg (by simp [htaking])]
    | false =>
      rw [List.filter_cons_of_pos (by simp [htaking])]
      cases hwrite : isWrite e with
      | true =>
        rw [List.takeWhile_cons_of_neg (by simp [hwrite]), List.takeWhile_cons_of_neg (by simp [hwrite])]
        rfl
      | false =>
        rw [List.takeWhile_cons_of_pos (by simp [hwrite]), List.takeWhile_cons_of_pos (by simp [hwrite]),
          List.filter_cons_of_pos (by simp [htaking]), ih]

/-- **A step of a task** only takes octets, or is one with what they are parsed to. -/
theorem step_given (hstep : step limits fwd nowMs wake c h = some (c', h', done)) :
    c'.forget = c.forget ∧ h' = h ∧ done.all Effect.isTaking = true ∨
      ∃ fails g, attempt limits fwd nowMs fails g c.forget h =
        some (c'.forget, h', done.filter fun e => !e.isTaking) := by
  cases step_steps hstep with
  | go hgo =>
    rcases go_given hgo with hsame | ⟨g, hg⟩
    · exact Or.inl hsame
    · exact Or.inr ⟨false, g, hg⟩
  | read hphase =>
    refine Or.inr ⟨false, .received, ?_⟩
    simp [attempt, handle, forget, hphase, Phase.forget]
  | readBody hphase =>
    refine Or.inl ⟨?_, rfl, rfl⟩
    simp [forget, hphase, Phase.forget]
  | @closed _ exit hphase =>
    refine Or.inr ⟨false, .closed exit, ?_⟩
    simp [attempt, handle, forget, hphase, Phase.forget]
  | closedBody hphase =>
    refine Or.inr ⟨false, .closed .midBody, ?_⟩
    simp [attempt, handle, forget, hphase, Phase.forget]
  | @recv out queue hphase hqueue =>
    refine Or.inr ⟨false, .recv, ?_⟩
    have hselect : c.forget.phase = .select := congrArg Phase.forget hphase
    have hqueue' : (h.chan c.forget.id).queue = out :: queue := hqueue
    simp only [attempt, handle, step, hselect, hqueue']
    rfl
  | notified hphase hpermit =>
    refine Or.inr ⟨false, .notified, ?_⟩
    have hselect : c.forget.phase = .select := congrArg Phase.forget hphase
    have hpermit' : (h.chan c.forget.id).permit = true := hpermit
    simp only [attempt, handle, step, hselect, hpermit']
    rfl
  | writeErr hgo hwrites =>
    rcases go_given hgo with ⟨_, _, htaking⟩ | ⟨g, hg⟩
    · -- Taking octets writes nothing.
      obtain ⟨e, he, hwrite⟩ := List.any_eq_true.mp hwrites
      have hnone := (Effect.of_isTaking (List.all_eq_true.mp htaking e he)).2.1
      rw [hnone] at hwrite
      cases hwrite
    · refine Or.inr ⟨true, g, ?_⟩
      simp only [attempt, hg, Option.bind_some, cut, any_isWrite_filter, hwrites,
        takeWhile_filter, if_true]
      rfl

end Steps

end Conn

namespace Commanded

/-- A step of a daemon that is given commands. -/
inductive Action
  /-- A connection is accepted under an id that was never used. -/
  | accept (id : ℕ)
  /-- The task of a connection takes a step; its first write may fail. -/
  | task (id nowMs : ℕ) (fails : Bool) (g : Conn.Given)
  /-- A peer link calls the registry. -/
  | inbound (made : Section)
  /-- A dialer pushes the whole type table to its peer. -/
  | reconcile

/-- What is observed of a step. -/
inductive Event
  /-- What the task of a connection did. -/
  | did (id : ℕ) (effect : Effect)
  /-- A frame is broadcast to the peers. -/
  | broadcast (frame : OutFrame)
  /-- A record is pushed to a peer. -/
  | pushed (typeName : Str) (reg : TypeReg)
  deriving DecidableEq

/-- One step of the daemon. -/
def step (limits : Limits) (fwd : Bool) (d : Daemon) : Action → Option (Daemon × List Event)
  | .accept id =>
    match d.conn id with
    | some _ => none
    | none =>
      some ({
        hub := { d.hub with
          chan := Function.update d.hub.chan id { depth := limits.queueDepth } }
        conn := Function.update d.conn id (some { id := id }) }, [])
  | .task id nowMs fails g =>
    match d.conn id with
    | none => none
    | some c =>
      (Conn.attempt limits fwd nowMs fails g c d.hub).map fun r =>
        (⟨r.2.1, Function.update d.conn id (some r.1)⟩, r.2.2.map (.did id))
  | .inbound made =>
    some (⟨(d.hub.perform made).1, d.conn⟩, (d.hub.perform made).2.toList.map .broadcast)
  | .reconcile =>
    some (d, d.hub.registry.allRegistrations.map fun entry => .pushed entry.1 entry.2)

/-- What a daemon that reads octets shows of an event. -/
def shown : Daemon.Event → Option Event
  | .did id e => if e.isTaking then none else some (.did id e)
  | .broadcast frame => some (.broadcast frame)
  | _ => none

end Commanded

/-- A daemon without what its connections have read. -/
def Daemon.forget (d : Daemon) : Daemon := { d with conn := fun id => (d.conn id).map Conn.forget }

/-- A connection goes on. -/
theorem Daemon.forget_update (d : Daemon) (h : Hub) (id : ℕ) (c : Conn) :
    (⟨h, Function.update d.conn id (some c)⟩ : Daemon).forget =
      ⟨h, Function.update d.forget.conn id (some c.forget)⟩ := by
  unfold Daemon.forget
  congr 1
  funext id'
  dsimp only
  by_cases hid : id' = id
  · rw [hid, Function.update_self, Function.update_self]
    rfl
  · rw [Function.update_of_ne hid, Function.update_of_ne hid]

namespace Commanded

section Steps

variable {limits : Limits} {fwd : Bool} {d d' : Daemon} {a : Daemon.Action}
  {es past : List Daemon.Event}

/-- What is shown of a step of a task. -/
theorem shown_task (h : Hub) (id : ℕ) (wake : Conn.Wake) (done : List Effect) (a : Daemon.Action) :
    (Daemon.Event.act a :: (Daemon.taken h id wake ++ done.flatMap (Daemon.observe h id))).filterMap
      shown = (done.filter fun e => !e.isTaking).map (.did id) := by
  have htaken : (Daemon.taken h id wake).filterMap shown = [] := by
    unfold Daemon.taken
    split
    · cases (h.chan id).queue.head? <;> rfl
    · rfl
  have hfanned : ∀ e, (Daemon.fanned h id e).filterMap shown = [] := by
    intro e
    refine List.filterMap_eq_nil_iff.mpr fun ev hev => ?_
    obtain ⟨_, _, _, _, _, _, rfl⟩ := Daemon.mem_fanned.mp hev
    rfl
  rw [List.filterMap_cons_none rfl, List.filterMap_append, htaken, List.nil_append]
  induction done with
  | nil => rfl
  | cons e done ih =>
    rw [List.flatMap_cons, List.filterMap_append, ih]
    unfold Daemon.observe
    cases htaking : e.isTaking with
    | true =>
      have hnone : shown (.did id e) = none := by simp [shown, htaking]
      rw [List.filterMap_cons_none hnone, hfanned, List.filter_cons_of_neg (by simp [htaking])]
      rfl
    | false =>
      have hsome : shown (.did id e) = some (.did id e) := by simp [shown, htaking]
      rw [List.filterMap_cons_some hsome, hfanned, List.filter_cons_of_pos (by simp [htaking])]
      rfl

/-- **A step of a daemon** takes octets only, or is one of the daemon that is given what they
are parsed to, and shows the same. -/
theorem step_given (h : Daemon.step limits fwd d a = some (d', es)) :
    d'.forget = d.forget ∧ es.filterMap shown = [] ∨
      ∃ a', step limits fwd d.forget a' = some (d'.forget, es.filterMap shown) := by
  cases a with
  | accept id =>
    obtain ⟨hnone, rfl, rfl⟩ := Daemon.step_accept_eq_some_iff.mp h
    refine Or.inr ⟨.accept id, ?_⟩
    have hnone' : d.forget.conn id = none := by simp [Daemon.forget, hnone]
    rw [Daemon.forget_update]
    simp only [step, hnone']
    rfl
  | task id nowMs wake =>
    obtain ⟨c, c', h', done, hconn, hstep, rfl, rfl⟩ := Daemon.step_task_eq_some_iff.mp h
    rw [shown_task]
    have hconn' : d.forget.conn id = some c.forget := by simp [Daemon.forget, hconn]
    rw [Daemon.forget_update]
    rcases Conn.step_given hstep with ⟨hsame, rfl, htaking⟩ | ⟨fails, g, hg⟩
    · refine Or.inl ⟨?_, ?_⟩
      · rw [hsame, ← hconn', Function.update_eq_self]
        rfl
      · have hnil : (done.filter fun e => !e.isTaking) = [] := by
          refine List.filter_eq_nil_iff.mpr fun e he => ?_
          simp [List.all_eq_true.mp htaking e he]
        rw [hnil]
        rfl
    · refine Or.inr ⟨.task id nowMs fails g, ?_⟩
      have hhub : d.forget.hub = d.hub := rfl
      simp only [step, hconn', hhub, hg, Option.map_some]
  | inbound made =>
    obtain ⟨rfl, rfl⟩ := by simpa only [Daemon.step, Option.some.injEq, Prod.mk.injEq] using h
    refine Or.inr ⟨.inbound made, ?_⟩
    have hhub : d.forget.hub = d.hub := rfl
    have hshown : (Daemon.Event.act (.inbound made) :: Daemon.received d.hub made).filterMap shown =
        (d.hub.perform made).2.toList.map .broadcast := by
      rw [List.filterMap_cons_none rfl]
      cases made with
      | recordSeen msg =>
        cases hnew : (d.hub.recordSeen msg).1 <;> simp [Daemon.received, Hub.perform, hnew, shown]
      | fanOut msg => rfl
      | applyRemoteRegistration typeName incoming =>
        unfold Daemon.received
        rw [List.filterMap_map]
        exact congrFun List.filterMap_eq_map _
    rw [hshown]
    simp only [step, hhub]
    rfl

/-- **Whatever a daemon does** with the octets it reads, the daemon that is given commands does
with some commands. -/
theorem run_given {d₀ : Daemon}
    (hrun : Transition.Run (Daemon.step limits fwd) Transition.anyStep d₀ d past) :
    Transition.Run (step limits fwd) Transition.anyStep d₀.forget d.forget
      (past.filterMap shown) := by
  induction hrun with
  | init => exact .init
  | step _ _ hstep ih =>
    rw [List.filterMap_append]
    rcases step_given hstep with ⟨hsame, hnone⟩ | ⟨a', ha'⟩
    · rw [hsame, hnone, List.append_nil]
      exact ih
    · exact ih.step trivial ha'

end Steps

end Commanded

end MacroBus
