import MacroBus.Busd.DropNotices
import MacroBus.Busd.LineTexts
import MacroBus.Client.Hearing

/-!
# What a daemon has written to a connection

Behind the greeting, all that the task of a connection writes are units made of lines. The messages
in them are those it took from its queue, in order and each once; while the task goes on, the only
one that may be missing is the one it is about to write.
-/

namespace MacroBus

/-- The message of an item of the queue. -/
def Outbound.message? : Outbound → Option Message
  | .deliver msg => some msg
  | .note _ => none

/-- What a task in this phase has taken from its queue and not written yet. -/
def Phase.inHand : Phase → List Outbound
  | .deliver out => [out]
  | _ => []

/-- The items that a wake-up takes from the queue. -/
def Conn.Wake.items (h : Hub) (id : ℕ) : Conn.Wake → List Outbound
  | .recv => (h.chan id).queue.head?.toList
  | _ => []

/-- The pushes that a step from this phase writes, unless a write fails. -/
def Phase.pushedBy (phase : Phase) : Conn.Wake → List Push
  | .go => phase.push.toList
  | _ => []

/-- A step between these phases, behind the greeting, writes these units. -/
structure Phase.Writes (phase phase' : Phase) (done : List Effect) (units : List OutUnit) : Prop where
  /-- The greeting is not written again. -/
  begun : phase' ≠ .start
  /-- They are all it writes. -/
  output : outputOf done = outStream units
  /-- They are made of lines. -/
  framed : ∀ u ∈ units, u.Framed
  /-- The push among them is the one that was due. -/
  pushed : OutUnit.pushes units = phase.push.toList
  /-- The pushes that come next are made of lines. -/
  pushes : ∀ p ∈ phase'.pushes, p.Framed
  /-- Nothing is in hand any more. -/
  hand : phase'.inHand = []

/-- The units that were written of what was taken from the queue. -/
structure Phase.Wrote (phase : Phase) (took : List Outbound) (units : List OutUnit) : Prop where
  /-- The greeting was written. -/
  begun : phase ≠ .start
  /-- They are made of lines. -/
  framed : ∀ u ∈ units, u.Framed
  /-- So are the pushes that come next. -/
  pushes : ∀ p ∈ phase.pushes, p.Framed
  /-- What was taken is written, in hand, or lost with the task. -/
  messages : ∃ lost, took.filterMap Outbound.message? = units.filterMap OutUnit.message? ++
    (phase.inHand.filterMap Outbound.message? ++ lost) ∧ (phase.isOver = false → lost = [])

/-- What was written to a connection that has taken these items from its queue, with these
pushes. -/
inductive Phase.Told (phase : Phase) (took : List Outbound) (said : List Push) (output : Bytes) : Prop
  /-- Nothing: it is not greeted yet, or could not be. -/
  | nothing : phase = .start ∨ phase.isOver = true → took = [] → said = [] → output = [] →
      Told phase took said output
  /-- The greeting, and units. -/
  | greeted (daemonId : Str) (units : List OutUnit) : '\n' ∉ daemonId →
      output = wireLine (greeting daemonId) ++ outStream units → OutUnit.pushes units = said →
      phase.Wrote took units → Told phase took said output

section Steps

variable {limits : Limits} {fwd : Bool} {nowMs : ℕ} {c c' : Conn} {h h' : Hub}
  {done : List Effect} {phase phase' : Phase}

/-- The messages among the units are what was in hand. -/
theorem Phase.Writes.messages {units : List OutUnit} (h : phase.Writes phase' done units) :
    units.filterMap OutUnit.message? = phase.inHand.filterMap Outbound.message? := by
  rw [OutUnit.messages_pushes, h.pushed]
  cases phase with
  | deliver out => cases out <;> rfl
  | flush notices => cases notices <;> rfl
  | _ => rfl

/-- Nothing is written. -/
theorem Phase.Writes.nothing (hbegun : phase' ≠ .start) (houtput : outputOf done = [])
    (hpush : phase.push = none) (hpushes : ∀ p ∈ phase'.pushes, p.Framed)
    (hhand : phase'.inHand = []) : phase.Writes phase' done [] := by
  refine ⟨hbegun, houtput, by simp, ?_, hpushes, hhand⟩
  rw [hpush]
  rfl

/-- One reply is written. -/
theorem Phase.Writes.reply {r : Reply} (houtput : outputOf done = outStream [.reply r])
    (hr : r.Framed) (hpush : phase.push = none)
    (hnext : phase' ≠ .start ∧ phase'.pushes = [] ∧ phase'.inHand = []) :
    phase.Writes phase' done [.reply r] := by
  obtain ⟨hbegun, hpushes, hhand⟩ := hnext
  refine ⟨hbegun, houtput, ?_, ?_, by simp [hpushes], hhand⟩
  · intro u hu
    obtain rfl := List.mem_singleton.mp hu
    exact hr
  · rw [hpush]
    rfl

/-- A body is answered with a line, and the connection goes on. -/
theorem finishPublish_framed (fwd : Bool) (c : Conn) (h : Hub) {typeName : Str}
    (htype : '\n' ∉ typeName) (key : Str) (body : Option (List Str)) :
    ∃ r : Reply, r.Plain ∧ r.Framed ∧
      outputOf (Conn.finishPublish fwd c h typeName key body).2.2 = outStream [.reply r] := by
  have hline : ∀ (r : Reply), r.Final → '\n' ∉ r.text → r.block = none → r.Framed :=
    fun r hfinal htext hnone => hfinal.framed htext fun lines hlines => by
      rw [hnone] at hlines
      cases hlines
  unfold Conn.finishPublish
  cases body with
  | none =>
    have hplain : Reply.Plain ⟨status.TOO_LARGE, "message too large".toList, none⟩ :=
      plain_statusLine _ (Or.inr (Or.inl rfl)) (by decide)
    exact ⟨_, hplain, hline _ hplain.1 (by decide) rfl, outputOf_writeLine _ _⟩
  | some lines =>
    dsimp only
    split
    · have hplain : Reply.Plain ⟨status.ACCEPTED, "message accepted".toList, none⟩ :=
        plain_statusLine _ (Or.inl rfl) (by decide)
      refine ⟨_, hplain, hline _ hplain.1 (by decide) rfl, ?_⟩
      cases fwd <;> simp [outputOf, writeLine, OutUnit.serialize, Reply.serialize]
    · next e h' heq =>
      have hcode : e.code = status.UNKNOWN_TYPE ∨ e.code = status.KEY_MISMATCH := by
        rcases publishLocal_error heq with rfl | rfl
        · exact Or.inl rfl
        · exact Or.inr rfl
      have hreason : '\n' ∉ e.reason := by
        rcases publishLocal_error heq with rfl | rfl
        · simp [htype]
        · decide
      have hplain : Reply.Plain ⟨e.code, e.reason, none⟩ := plain_publishError hcode
      refine ⟨_, hplain, hline _ hplain.1 hreason rfl, ?_⟩
      simp [outputOf, writeLine, OutUnit.serialize, Reply.serialize]

/-- A command line is answered with a line, or with a block of lines. -/
theorem handleCommand_writes (hphase : c.phase = .take) (hhub : h.Framed c.id) {rest : Bytes}
    (line : Bytes) :
    ∃ units, c.phase.Writes
      (Conn.handleCommand limits fwd nowMs { c with rbuf := rest } h line).1.phase
      (.command line ::
        (Conn.handleCommand limits fwd nowMs { c with rbuf := rest } h line).2.2) units := by
  have hpush : c.phase.push = none := by rw [hphase]; rfl
  rw [Conn.handleCommand_eq]
  split
  · next cmd hparse =>
    -- The line stands for the request that has been sent with the same command.
    have hrequest : command.parse (Request.line ⟨cmd, []⟩) = .ok cmd :=
      command.parse_render (command.from_of_parse hparse)
    have hreacts : Request.Reacts ⟨cmd, []⟩
        (Conn.execute limits fwd nowMs { c with rbuf := rest } h cmd).1
        (Conn.execute limits fwd nowMs { c with rbuf := rest } h cmd).2.2 :=
      execute_reacts hrequest hhub.types
    cases hreacts with
    | replied r hends _ houtput hwhere =>
      refine ⟨_, .reply houtput hends.framed hpush ?_⟩
      rcases hwhere with ⟨hwhere, _⟩ | hwhere <;>
      · rw [hwhere]
        exact ⟨Phase.noConfusion, rfl, rfl⟩
    | invited typeName key _ houtput _ hwhere =>
      refine ⟨_, .reply houtput framed_invitation hpush ?_⟩
      rw [hwhere]
      exact ⟨Phase.noConfusion, rfl, rfl⟩
  · next e hparse =>
    have hall : ∀ e ∈ command.errors, '\n' ∉ e.reason := by decide +kernel
    have hfinal := (plain_permanent e.reason (command.permanent_parse _ e hparse)).1
    exact ⟨_, .reply (outputOf_writeLine _ _) (hfinal.framed
      (hall e (command.listed_parse _ e hparse)) fun _ hlines => by cases hlines) hpush
      ⟨Phase.noConfusion, rfl, rfl⟩⟩

/-- **An internal step** behind the greeting writes units of lines. -/
theorem go_writes (hstart : c.phase ≠ .start) (hpushes : ∀ p ∈ c.phase.pushes, p.Framed)
    (hhub : h.Framed c.id) (hc : c.Framed)
    (hgo : Conn.go limits fwd nowMs c h = some (c', h', done)) :
    ∃ units, c.phase.Writes c'.phase done units := by
  cases Conn.go_goes hgo with
  | greet hphase => exact absurd hphase hstart
  | noDrops hphase | flushed hphase | commandNeed hphase | bodyLine hphase | bodyNeed hphase
  | remove hphase =>
    refine ⟨[], .nothing Phase.noConfusion rfl ?_ (by simp [Phase.pushes]) rfl⟩
    rw [hphase]
    rfl
  | drain hphase =>
    refine ⟨[], .nothing Phase.noConfusion rfl ?_ ?_ rfl⟩
    · rw [hphase]
      rfl
    · simp only [Phase.pushes, List.map_map, List.mem_map]
      rintro p ⟨notice, hnotice, rfl⟩
      exact framed_drop (hhub.drops notice hnotice) _
  | @notice typeName count pending hphase =>
    rw [hphase] at hpushes ⊢
    have hpushed := pushed_notice (hpushes _ List.mem_cons_self)
    refine ⟨[.push (.drop typeName count)], Phase.noConfusion, hpushed.output, ?_, rfl, ?_, rfl⟩
    · intro u hu
      obtain rfl := List.mem_singleton.mp hu
      exact hpushes _ List.mem_cons_self
    · exact fun p hp => hpushes p (List.mem_cons_of_mem _ hp)
  | @command line rest hphase => exact handleCommand_writes hphase hhub line
  | commandTooLong hphase =>
    refine ⟨_, .reply (outputOf_writeLine _ _) final_refusal.2 ?_ ⟨Phase.noConfusion, rfl, rfl⟩⟩
    rw [hphase]
    rfl
  | @deliver out hphase =>
    rw [hphase] at hpushes ⊢
    have hpushed := pushed_outbound (hpushes _ List.mem_cons_self)
    refine ⟨[.push out.push], Phase.noConfusion, hpushed.output, ?_, ?_, by simp [Phase.pushes], rfl⟩
    · intro u hu
      obtain rfl := List.mem_singleton.mp hu
      exact hpushes _ List.mem_cons_self
    · cases out <;> rfl
  | @terminator typeName key acc line rest hphase =>
    obtain ⟨r, _, hr, houtput⟩ := finishPublish_framed fwd { c with rbuf := rest } h
      (hc typeName key acc (Or.inl hphase)).1 key acc.result
    refine ⟨_, .reply houtput hr ?_ ?_⟩
    · rw [hphase]
      rfl
    · rw [Conn.finishPublish_fst]
      exact ⟨Phase.noConfusion, rfl, rfl⟩
  | @bodyTooLong typeName key acc rest hphase =>
    obtain ⟨r, _, hr, houtput⟩ := finishPublish_framed fwd c h
      (hc typeName key acc (Or.inl hphase)).1 key none
    refine ⟨_, .reply houtput hr ?_ ⟨Phase.noConfusion, rfl, rfl⟩⟩
    rw [hphase]
    rfl

/-- Only one wake-up takes an item. -/
theorem items_eq_nil {wake : Conn.Wake} (h : Hub) (id : ℕ) (hwake : wake ≠ .recv) :
    wake.items h id = [] := by
  cases wake with
  | recv => exact absurd rfl hwake
  | _ => rfl

/-- Only an internal step writes. -/
theorem pushedBy_eq_nil {wake : Conn.Wake} (phase : Phase) (hwake : wake ≠ .go) :
    phase.pushedBy wake = [] := by
  cases wake with
  | go => exact absurd rfl hwake
  | _ => rfl

/-- What is written is added to what was. -/
theorem Phase.Wrote.writes {took : List Outbound} {units more : List OutUnit}
    (hw : phase.Wrote took units) (hmore : phase.Writes phase' done more)
    (hover : phase.isOver = true → phase'.isOver = true) : phase'.Wrote took (units ++ more) := by
  obtain ⟨lost, hmessages, hlost⟩ := hw.messages
  refine ⟨hmore.begun, List.forall_mem_append.mpr ⟨hw.framed, hmore.framed⟩, hmore.pushes, lost, ?_,
    fun hgoes => ?_⟩
  · rw [hmessages, hmore.hand, List.filterMap_append, hmore.messages, List.filterMap_nil,
      List.nil_append, List.append_assoc]
  · refine hlost (Bool.eq_false_iff.mpr fun hbefore => ?_)
    rw [hover hbefore] at hgoes
    cases hgoes

/-- A task that waits goes on, or ends, without writing. -/
theorem Phase.Wrote.waits {took : List Outbound} {units : List OutUnit} (hw : phase.Wrote took units)
    (hgoes : phase.isOver = false) (hpush : phase.push = none)
    (hnext : phase' ≠ .start ∧ phase'.pushes = [] ∧ phase'.inHand = []) :
    phase'.Wrote took (units ++ []) := by
  obtain ⟨hbegun, hpushes, hhand⟩ := hnext
  have hnothing : phase.Writes phase' [] [] := .nothing hbegun rfl hpush (by simp [hpushes]) hhand
  exact hw.writes hnothing fun hover => by rw [hgoes] at hover; cases hover

/-- **A step** behind the greeting adds units of lines to what was written. -/
theorem Phase.Wrote.step {took : List Outbound} {units : List OutUnit} {wake : Conn.Wake}
    (hw : c.phase.Wrote took units) (hhub : h.Framed c.id) (hc : c.Framed)
    (hstep : Conn.step limits fwd nowMs wake c h = some (c', h', done)) :
    ∃ more, outputOf done = outStream more ∧ OutUnit.pushes more = c.phase.pushedBy wake ∧
      c'.phase.Wrote (took ++ wake.items h c.id) (units ++ more) := by
  cases Conn.step_steps hstep with
  | go hgo =>
    obtain ⟨more, hmore⟩ := go_writes hw.begun hw.pushes hhub hc hgo
    refine ⟨more, hmore.output, hmore.pushed, ?_⟩
    rw [items_eq_nil h c.id Conn.Wake.noConfusion, List.append_nil]
    exact hw.writes hmore fun hover => (Conn.over_step hover hstep).2.1
  | writeErr hgo =>
    -- What was in hand is lost with the task.
    obtain ⟨lost, hmessages, _⟩ := hw.messages
    refine ⟨[], outputOf_cut _, rfl, Phase.noConfusion, ?_, by simp [Phase.pushes],
      c.phase.inHand.filterMap Outbound.message? ++ lost, ?_, fun hgoes => by cases hgoes⟩
    · rw [List.append_nil]
      exact hw.framed
    · rw [items_eq_nil h c.id Conn.Wake.noConfusion, List.append_nil, List.append_nil, hmessages]
      rfl
  | read hphase | readBody hphase | notified hphase =>
    refine ⟨[], rfl, rfl, ?_⟩
    rw [hphase] at hw
    rw [items_eq_nil h c.id Conn.Wake.noConfusion, List.append_nil]
    exact hw.waits rfl rfl ⟨Phase.noConfusion, rfl, rfl⟩
  | closed hphase hwake =>
    rw [hphase] at hw ⊢
    have hother : wake ≠ .recv ∧ wake ≠ .go := by
      rcases hwake with ⟨rfl, _⟩ | ⟨rfl, _⟩ <;> exact ⟨Conn.Wake.noConfusion, Conn.Wake.noConfusion⟩
    refine ⟨[], rfl, (pushedBy_eq_nil _ hother.2).symm, ?_⟩
    rw [items_eq_nil h c.id hother.1, List.append_nil]
    exact hw.waits rfl rfl ⟨Phase.noConfusion, rfl, rfl⟩
  | closedBody hphase hwake =>
    rw [hphase] at hw ⊢
    have hother : wake ≠ .recv ∧ wake ≠ .go := by
      rcases hwake with rfl | rfl <;> exact ⟨Conn.Wake.noConfusion, Conn.Wake.noConfusion⟩
    refine ⟨[], rfl, (pushedBy_eq_nil _ hother.2).symm, ?_⟩
    rw [items_eq_nil h c.id hother.1, List.append_nil]
    exact hw.waits rfl rfl ⟨Phase.noConfusion, rfl, rfl⟩
  | @recv out queue hphase hqueue =>
    rw [hphase] at hw
    obtain ⟨lost, hmessages, hlost⟩ := hw.messages
    obtain rfl := hlost rfl
    have hitems : Conn.Wake.items h c.id .recv = [out] := by simp [Conn.Wake.items, hqueue]
    refine ⟨[], rfl, rfl, Phase.noConfusion, ?_, ?_, [], ?_, fun _ => rfl⟩
    · rw [List.append_nil]
      exact hw.framed
    · simp only [Phase.pushes, List.mem_singleton]
      rintro p rfl
      exact hhub.queue out (hqueue ▸ List.mem_cons_self)
    · rw [hitems, List.filterMap_append, hmessages]
      simp [Phase.inHand]

/-- **Every step** greets the client, or adds units of lines to what was written. -/
theorem Phase.Told.step {took : List Outbound} {said : List Push} {output : Bytes}
    {wake : Conn.Wake} (htold : c.phase.Told took said output) (hid : '\n' ∉ h.registry.daemonId)
    (hhub : h.Framed c.id) (hc : c.Framed)
    (hstep : Conn.step limits fwd nowMs wake c h = some (c', h', done)) :
    c'.phase.Told (took ++ wake.items h c.id) (said ++ c.phase.pushedBy wake)
      (output ++ outputOf done) := by
  cases htold with
  | greeted daemonId units hname houtput hsaid hw =>
    obtain ⟨more, hmore, hnow, hw'⟩ := hw.step hhub hc hstep
    refine .greeted daemonId (units ++ more) hname ?_ ?_ hw'
    · rw [houtput, hmore, outStream_append, List.append_assoc]
    · rw [OutUnit.pushes_append, hsaid, hnow]
  | nothing hwhere htook hsaid houtput =>
    subst htook hsaid houtput
    have hother : wake ≠ .recv := by
      rintro rfl
      have hphase : c.phase = .select := by
        cases Conn.step_steps hstep with
        | recv hphase => exact hphase
        | closed hphase => exact hphase
        | closedBody _ hwake => rcases hwake with heq | heq <;> cases heq
      rcases hwhere with hstart | hover
      · exact Phase.noConfusion (hstart.symm.trans hphase)
      · rw [hphase] at hover
        cases hover
    have hpush : c.phase.push = none := by
      rcases hwhere with hstart | hover
      · rw [hstart]
        rfl
      · cases hphase : c.phase with
        | ended | gone => rfl
        | _ => rw [hphase] at hover; cases hover
    have hnow : c.phase.pushedBy wake = [] := by
      cases wake with
      | go => simp [Phase.pushedBy, hpush]
      | _ => rfl
    rw [items_eq_nil h c.id hother, hnow, List.append_nil, List.append_nil, List.nil_append]
    rcases hwhere with hstart | hover
    · cases Conn.step_steps hstep with
      | go hgo =>
        simp only [Conn.go, hstart, Option.some.injEq, Prod.mk.injEq] at hgo
        obtain ⟨rfl, rfl, rfl⟩ := hgo
        refine .greeted h.registry.daemonId [] hid ?_ rfl
          ⟨Phase.noConfusion, by simp, by simp [Phase.pushes], [], rfl, fun _ => rfl⟩
        simp [outputOf, wireLine]
      | writeErr => exact .nothing (Or.inr rfl) rfl rfl (outputOf_cut _)
      | read hphase | readBody hphase | closed hphase | closedBody hphase | recv hphase
      | notified hphase => exact Phase.noConfusion (hstart.symm.trans hphase)
    · obtain ⟨hpushed, hover', _⟩ := Conn.over_step hover hstep
      exact .nothing (Or.inr hover') rfl rfl hpushed.output

end Steps

namespace Daemon

variable {limits : Limits} {fwd : Bool} {daemonId : Str} {d d' : Daemon} {past es : List Event}
  {id : ℕ} {c : Conn}

/-- The pushes that a step of the daemon writes to a connection, unless a write fails. -/
def said (d : Daemon) (id : ℕ) : Action → List Push
  | .task i _ wake => if i = id then ((d.conn i).map fun c => c.phase.pushedBy wake).getD [] else []
  | .accept _ | .inbound _ => []

/-- Nothing is written to a stranger. -/
theorem said_stranger (hnone : d.conn id = none) (a : Action) : d.said id a = [] := by
  cases a with
  | accept | inbound => rfl
  | task i nowMs wake =>
    rw [said]
    split
    · next hi =>
      rw [hi, hnone]
      rfl
    · rfl

/-- What was written to every connection, of what it has taken, with these pushes. -/
structure Told (d : Daemon) (past : List Event) (ps : ℕ → List Push) : Prop where
  /-- The connections. -/
  conn : ∀ id c, d.conn id = some c →
    c.phase.Told (takenBy past id) (ps id) (outputOf (effectsOf id past))
  /-- Nothing was written before a connection was accepted. -/
  fresh : ∀ id, d.conn id = none → takenBy past id = [] ∧ ps id = [] ∧ effectsOf id past = []

/-- What a connection takes in a step of a task. -/
theorem takenBy_task (x : ℕ) (a : Action) (h : Hub) (id : ℕ) (wake : Conn.Wake)
    (done : List Effect) :
    takenBy (.act a :: (taken h id wake ++ done.flatMap (observe h id))) x =
      if id = x then wake.items h id else [] := by
  have hobserve : (done.flatMap (observe h id)).filterMap (Event.takenBy x) = [] := by
    refine List.filterMap_eq_nil_iff.mpr fun ev hev => ?_
    obtain ⟨e, _, hev⟩ := List.mem_flatMap.mp hev
    rcases List.mem_cons.mp hev with rfl | hfanned
    · rfl
    · obtain ⟨_, _, _, _, _, _, rfl⟩ := mem_fanned.mp hfanned
      rfl
  unfold takenBy
  rw [List.filterMap_cons_none rfl, List.filterMap_append, hobserve, List.append_nil]
  cases wake with
  | recv =>
    unfold taken Conn.Wake.items
    cases (h.chan id).queue.head? with
    | none => simp
    | some out => by_cases hid : id = x <;> simp [Event.takenBy, hid]
  | _ => simp [taken, Conn.Wake.items]

/-- A peer link takes nothing from a queue. -/
theorem takenBy_received (x : ℕ) (a : Action) (h : Hub) (made : Section) :
    takenBy (.act a :: received h made) x = [] := by
  refine List.filterMap_eq_nil_iff.mpr fun ev hev => ?_
  rcases List.mem_cons.mp hev with rfl | hev
  · rfl
  · rcases cases_of_mem_received hev with ⟨_, rfl⟩ | ⟨_, rfl⟩ | ⟨_, rfl⟩ <;> rfl

/-- In a step nothing is taken by a stranger, or written to it. -/
theorem quiet_stranger {a : Action} (hstep : Daemon.step limits fwd d a = some (d', es))
    (hnone : d.conn id = none) : takenBy es id = [] ∧ effectsOf id es = [] := by
  cases a with
  | accept i =>
    obtain ⟨_, _, rfl⟩ := step_accept_eq_some_iff.mp hstep
    exact ⟨rfl, rfl⟩
  | inbound made =>
    simp only [Daemon.step, Option.some.injEq, Prod.mk.injEq] at hstep
    obtain ⟨_, rfl⟩ := hstep
    exact ⟨takenBy_received id _ _ made, effectsOf_received id _ _ made⟩
  | task i nowMs wake =>
    obtain ⟨c₁, _, _, _, hconn, _, _, rfl⟩ := step_task_eq_some_iff.mp hstep
    have hi : i ≠ id := by
      rintro rfl
      rw [hnone] at hconn
      cases hconn
    rw [takenBy_task, effectsOf_task, if_neg hi, if_neg hi]
    exact ⟨rfl, rfl⟩

/-- **A step of the daemon** greets a client, or adds units of lines to what was written to it. -/
theorem Told.step {a : Action} {ps : ℕ → List Push} (htold : Told d past ps) (hd : d.Framed)
    (hids : ∀ id c, d.conn id = some c → c.id = id)
    (hstep : Daemon.step limits fwd d a = some (d', es)) :
    Told d' (past ++ es) fun id => ps id ++ d.said id a := by
  have hadd : ∀ id, takenBy (past ++ es) id = takenBy past id ++ takenBy es id ∧
      effectsOf id (past ++ es) = effectsOf id past ++ effectsOf id es :=
    fun id => ⟨List.filterMap_append, List.filterMap_append⟩
  refine ⟨fun id c hc => ?_, fun id hc => ?_⟩
  · rw [(hadd id).1, (hadd id).2]
    cases a with
    | accept i =>
      obtain ⟨hnone, rfl, rfl⟩ := step_accept_eq_some_iff.mp hstep
      have hquiet : takenBy [.act (.accept i)] id = [] ∧ effectsOf id [.act (.accept i)] = [] :=
        ⟨rfl, rfl⟩
      rw [hquiet.1, hquiet.2, said, List.append_nil, List.append_nil, List.append_nil]
      dsimp only at hc
      by_cases hi : id = i
      · subst hi
        rw [Function.update_self] at hc
        obtain rfl := Option.some.inj hc
        obtain ⟨htook, hsaid, heffects⟩ := htold.fresh id hnone
        exact .nothing (Or.inl rfl) htook hsaid (by rw [heffects]; rfl)
      · rw [Function.update_of_ne hi] at hc
        exact htold.conn id c hc
    | inbound made =>
      simp only [Daemon.step, Option.some.injEq, Prod.mk.injEq] at hstep
      obtain ⟨rfl, rfl⟩ := hstep
      rw [takenBy_received, effectsOf_received, said, List.append_nil, List.append_nil, List.append_nil]
      exact htold.conn id c hc
    | task i nowMs wake =>
      obtain ⟨c₁, c', h', done, hconn, hconnStep, rfl, rfl⟩ := step_task_eq_some_iff.mp hstep
      rw [takenBy_task, effectsOf_task, said]
      dsimp only at hc
      by_cases hi : id = i
      · subst hi
        rw [Function.update_self] at hc
        obtain rfl := Option.some.inj hc
        rw [if_pos rfl, if_pos rfl, if_pos rfl, outputOf_append, hconn, Option.map_some,
          Option.getD_some]
        have hid := hids id c₁ hconn
        have hnext := (htold.conn id c₁ hconn).step hd.hub.daemonId (hd.hub.framed c₁.id)
          (hd.conn id c₁ hconn) hconnStep
        rwa [hid] at hnext
      · rw [Function.update_of_ne hi] at hc
        rw [if_neg (Ne.symm hi), if_neg (Ne.symm hi), if_neg (Ne.symm hi), List.append_nil,
          List.append_nil, List.append_nil]
        exact htold.conn id c hc
  · have hnone := conn_of_step hstep hc
    obtain ⟨htook, heffects⟩ := quiet_stranger hstep hnone
    rw [(hadd id).1, (hadd id).2, htook, heffects, said_stranger hnone, List.append_nil,
      List.append_nil, List.append_nil]
    exact htold.fresh id hnone

end Daemon

end MacroBus
