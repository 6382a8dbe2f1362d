import MacroBus.Busd.Discipline
import MacroBus.Client.Calls

/-!
# A connection between its commands

While the task of a connection has no complete command line, all it writes are pushes: items of
its queue and notices of drops. A task that has ended writes nothing more. Where every text in
the hub is a line, so is every line of a push.
-/

namespace MacroBus

/-- The push an outbound item is written as. -/
def Outbound.push : Outbound → Push
  | .deliver msg => .message msg
  | .note text => .note text

/-- What a task in this phase will push before anything else. -/
def Phase.pushes : Phase → List Push
  | .flush pending => pending.map fun notice => .drop notice.1 notice.2
  | .deliver out => [out.push]
  | _ => []

/-- Whether a task in this phase is between two commands. -/
def Phase.isIdle : Phase → Bool
  | .top | .flush _ | .take | .select | .deliver _ => true
  | _ => false

/-- Whether a task in this phase has ended. -/
def Phase.isOver : Phase → Bool
  | .ended _ | .gone => true
  | _ => false

/-- The texts that the connection `id` may write are lines: its queue, its drop counters and
the registered types. -/
structure Hub.Framed (h : Hub) (id : ℕ) : Prop where
  /-- The queue. -/
  queue : ∀ out ∈ (h.chan id).queue, out.push.Framed
  /-- The drop counters. -/
  drops : ∀ notice ∈ (h.chan id).drops.entries, '\n' ∉ notice.1
  /-- The registered types. -/
  types : ∀ typeName ∈ h.registry.types.keys, '\n' ∉ typeName

/-- The task is between two commands: what it will push are lines, and where it waits, it has
no complete line. -/
structure Conn.Idle (c : Conn) : Prop where
  /-- The phase. -/
  phase : c.phase.isIdle = true
  /-- The pushes. -/
  pushes : ∀ p ∈ c.phase.pushes, p.Framed
  /-- The buffer. -/
  line : c.phase = .select → LF ∉ c.rbuf

/-- What was taken of the octets read. -/
def takenOf (done : List Effect) : List Effect := done.filter Effect.isTaking

/-- Whether the call removes a connection that has ended. -/
def Call.removes : Call → Bool
  | .removeConn _ => true
  | _ => false

/-- What was called for a command. -/
def calledOf (done : List Effect) : List Call := (calls done).filter fun made => !made.removes

/-- These pushes were written, and nothing else was done. -/
structure Pushed (pushes : List Push) (done : List Effect) : Prop where
  /-- The pushes are lines. -/
  framed : ∀ p ∈ pushes, p.Framed
  /-- They are written. -/
  output : outputOf done = outStream (pushes.map .push)
  /-- Nothing is taken. -/
  taken : takenOf done = []
  /-- Nothing is called. -/
  called : calledOf done = []

section Lists

variable (done more : List Effect)

@[simp] theorem takenOf_append : takenOf (done ++ more) = takenOf done ++ takenOf more := by
  simp [takenOf]

@[simp] theorem calledOf_append : calledOf (done ++ more) = calledOf done ++ calledOf more := by
  simp [calledOf, calls]

variable {done}

/-- Nothing is taken where no effect takes anything. -/
theorem takenOf_notTaking (h : ∀ e ∈ done, e.isTaking = false) : takenOf done = [] := by
  unfold takenOf
  rw [List.filter_eq_nil_iff]
  intro e he
  rw [h e he]
  exact Bool.false_ne_true

/-- A line that is taken in front. -/
theorem takenOf_cons {e : Effect} (he : e.isTaking = true) :
    takenOf (e :: done) = e :: takenOf done := by
  unfold takenOf
  rw [List.filter_cons_of_pos he]

/-- Where the first write fails, nothing is written. -/
theorem outputOf_cut (done : List Effect) :
    outputOf (done.takeWhile fun e => !Conn.isWrite e) = [] := by
  unfold outputOf
  rw [List.flatMap_eq_nil_iff]
  intro e he
  have hwrite := List.mem_takeWhile_imp he
  cases e with
  | wrote text => cases hwrite
  | _ => rfl

/-- Where the first write fails, nothing is taken that would not have been. -/
theorem takenOf_cut (h : takenOf done = []) :
    takenOf (done.takeWhile fun e => !Conn.isWrite e) = [] := by
  unfold takenOf at h ⊢
  rw [List.filter_eq_nil_iff] at h ⊢
  exact fun e he => h e ((List.takeWhile_sublist _).subset he)

/-- Where the first write fails, nothing is called that would not have been. -/
theorem calledOf_cut (h : calledOf done = []) :
    calledOf (done.takeWhile fun e => !Conn.isWrite e) = [] := by
  have hsub : (calledOf (done.takeWhile fun e => !Conn.isWrite e)).Sublist (calledOf done) :=
    ((List.takeWhile_sublist _).filterMap _).filter _
  exact List.sublist_nil.mp (h ▸ hsub)

end Lists

section Pushing

variable {pushes pushes' : List Push} {done more : List Effect}

/-- Nothing is done. -/
theorem Pushed.nil : Pushed [] [] := ⟨by simp, rfl, rfl, rfl⟩

/-- Pushes after pushes. -/
theorem Pushed.append (h : Pushed pushes done) (h' : Pushed pushes' more) :
    Pushed (pushes ++ pushes') (done ++ more) := by
  refine ⟨?_, ?_, ?_, ?_⟩
  · intro p hp
    rcases List.mem_append.mp hp with hp | hp
    · exact h.framed p hp
    · exact h'.framed p hp
  · rw [outputOf_append, h.output, h'.output]
    simp
  · rw [takenOf_append, h.taken, h'.taken, List.append_nil]
  · rw [calledOf_append, h.called, h'.called, List.append_nil]

/-- A push whose write fails. -/
theorem Pushed.cut (h : Pushed pushes done) :
    Pushed [] (done.takeWhile fun e => !Conn.isWrite e) :=
  ⟨by simp, outputOf_cut done, takenOf_cut h.taken, calledOf_cut h.called⟩

/-- A notice of drops is a line where its type is one. -/
theorem framed_drop {typeName : Str} (h : '\n' ∉ typeName) (count : ℕ) :
    (Push.drop typeName count).Framed := by
  have hdigits := notMem_decimal (show '\n'.isDigit = false by decide) count
  change '\n' ∉ "DROP".toList ++ ' ' :: (typeName ++ ' ' :: decimal count)
  simp [h, hdigits]

/-- **A notice** is pushed. -/
theorem pushed_notice {typeName : Str} {count : ℕ} (h : (Push.drop typeName count).Framed) :
    Pushed [.drop typeName count]
      [writeLine status.DROP ("DROP ".toList ++ typeName ++ ' ' :: decimal count)] := by
  refine ⟨by simpa using h, ?_, rfl, rfl⟩
  simp [outputOf, writeLine, OutUnit.serialize, Push.serialize]

/-- **An item of the queue** is pushed. -/
theorem pushed_outbound {out : Outbound} (h : out.push.Framed) :
    Pushed [out.push] [writeOutbound out] := by
  refine ⟨by simpa using h, ?_, ?_, ?_⟩
  · cases out <;>
      simp [outputOf, writeOutbound, writeLine, Outbound.push, OutUnit.serialize, Push.serialize]
  · cases out <;> rfl
  · cases out <;> rfl

end Pushing

namespace Conn

variable {limits : Limits} {fwd : Bool} {nowMs : ℕ} {wake : Wake} {c c' : Conn} {h h' : Hub}
  {done : List Effect}

/-- **A task that has ended** does nothing more, except that it is removed. -/
theorem over_step (hover : c.phase.isOver = true)
    (hstep : step limits fwd nowMs wake c h = some (c', h', done)) :
    Pushed [] done ∧ c'.phase.isOver = true ∧ reads wake.received = [] := by
  cases hphase : c.phase with
  | gone =>
    rw [step_gone hphase] at hstep
    cases hstep
  | ended exit =>
    cases step_steps hstep with
    | go hgo =>
      simp only [go, hphase, Option.some.injEq, Prod.mk.injEq] at hgo
      obtain ⟨rfl, rfl, rfl⟩ := hgo
      exact ⟨⟨by simp, rfl, rfl, rfl⟩, rfl, rfl⟩
    | writeErr hgo hwrite =>
      simp only [go, hphase, Option.some.injEq, Prod.mk.injEq] at hgo
      obtain ⟨_, _, rfl⟩ := hgo
      cases hwrite
    | read hother | readBody hother | closed hother | closedBody hother | recv hother
    | notified hother => exact absurd (hphase.symm.trans hother) (by simp)
  | _ => simp [hphase, Phase.isOver] at hover

/-- **Between two commands** an internal step pushes, or it finds a line. -/
theorem Idle.go (hidle : c.Idle) (hhub : h.Framed c.id)
    (hgo : go limits fwd nowMs c h = some (c', h', done)) :
    (∃ pushes, Pushed pushes done ∧ c'.Idle ∧ c'.rbuf = c.rbuf) ∨
      c.phase = .take ∧ (takeLine limits.maxCommandLineBytes c.rbuf).1 ≠ .need := by
  obtain ⟨hwhere, hpushes, hline⟩ := hidle
  cases go_goes hgo with
  | noDrops => exact Or.inl ⟨[], .nil, ⟨rfl, by simp [Phase.pushes], by simp⟩, rfl⟩
  | drain =>
    refine Or.inl ⟨[], .nil, ⟨rfl, ?_, by simp⟩, rfl⟩
    simp only [Phase.pushes, List.map_map, List.mem_map]
    rintro p ⟨notice, hnotice, rfl⟩
    exact framed_drop (hhub.drops notice hnotice) _
  | flushed => exact Or.inl ⟨[], .nil, ⟨rfl, by simp [Phase.pushes], by simp⟩, rfl⟩
  | @notice typeName count pending hphase =>
    rw [hphase] at hpushes
    refine Or.inl ⟨_, pushed_notice (hpushes _ List.mem_cons_self), ⟨rfl, ?_, by simp⟩, rfl⟩
    exact fun p hp => hpushes p (List.mem_cons_of_mem _ hp)
  | command hphase htake =>
    refine Or.inr ⟨hphase, ?_⟩
    rw [htake]
    exact LineTake.noConfusion
  | commandTooLong hphase htake =>
    refine Or.inr ⟨hphase, ?_⟩
    rw [htake]
    exact LineTake.noConfusion
  | commandNeed hphase htake =>
    obtain ⟨rfl, hnone, _⟩ := takeLine_eq_need_iff.mp htake
    exact Or.inl ⟨[], .nil, ⟨rfl, by simp [Phase.pushes], fun _ => hnone⟩, rfl⟩
  | @deliver out hphase =>
    rw [hphase] at hpushes
    exact Or.inl ⟨_, pushed_outbound (hpushes _ List.mem_cons_self),
      ⟨rfl, by simp [Phase.pushes], by simp⟩, rfl⟩
  | greet hphase | terminator hphase | bodyLine hphase | bodyTooLong hphase | bodyNeed hphase
  | remove hphase => simp [hphase, Phase.isIdle] at hwhere

/-- **Between two commands** a step pushes and reads, or ends the task, or it finds a line. -/
theorem Idle.step (hidle : c.Idle) (hhub : h.Framed c.id)
    (hstep : step limits fwd nowMs wake c h = some (c', h', done)) :
    (∃ pushes, Pushed pushes done ∧
      (c'.Idle ∧ c'.rbuf = c.rbuf ++ (reads wake.received).flatten ∨
        c'.phase.isOver = true ∧ (reads wake.received).flatten = [])) ∨
      c.phase = .take ∧ (takeLine limits.maxCommandLineBytes c.rbuf).1 ≠ .need := by
  cases step_steps hstep with
  | go hgo =>
    rcases hidle.go hhub hgo with ⟨pushes, hpushed, hidle', hrbuf⟩ | hline
    · exact Or.inl ⟨pushes, hpushed, Or.inl ⟨hidle', hrbuf.trans (List.append_nil _).symm⟩⟩
    · exact Or.inr hline
  | writeErr hgo =>
    rcases hidle.go hhub hgo with ⟨pushes, hpushed, _⟩ | hline
    · exact Or.inl ⟨[], hpushed.cut, Or.inr ⟨rfl, rfl⟩⟩
    · exact Or.inr hline
  | read =>
    refine Or.inl ⟨[], .nil, Or.inl ⟨⟨rfl, by simp [Phase.pushes], by simp⟩, ?_⟩⟩
    simp [reads, Wake.received]
  | closed _ hwake =>
    refine Or.inl ⟨[], .nil, Or.inr ⟨rfl, ?_⟩⟩
    rcases hwake with ⟨rfl, _⟩ | ⟨rfl, _⟩ <;> rfl
  | @recv out queue _ hqueue =>
    refine Or.inl ⟨[], .nil, Or.inl ⟨⟨rfl, ?_, by simp⟩, (List.append_nil _).symm⟩⟩
    simp only [Phase.pushes, List.mem_singleton]
    rintro p rfl
    exact hhub.queue out (hqueue ▸ List.mem_cons_self)
  | notified =>
    exact Or.inl ⟨[], .nil, Or.inl ⟨⟨rfl, by simp [Phase.pushes], by simp⟩,
      (List.append_nil _).symm⟩⟩
  | readBody hphase | closedBody hphase =>
    have hwhere := hidle.phase
    simp [hphase, Phase.isIdle] at hwhere

/-- The task has handled all that it has read: it is between two commands with nothing in its
buffer, or it has ended. -/
def Settled (c : Conn) : Prop := c.Idle ∧ c.rbuf = [] ∨ c.phase.isOver = true

/-- **A task that has handled all** pushes, and remains so until it reads. -/
theorem Settled.step (hsettled : c.Settled) (hhub : h.Framed c.id)
    (hstep : step limits fwd nowMs wake c h = some (c', h', done))
    (hread : (reads wake.received).flatten = []) :
    ∃ pushes, Pushed pushes done ∧ c'.Settled := by
  rcases hsettled with ⟨hidle, hnil⟩ | hover
  · rcases hidle.step hhub hstep with ⟨pushes, hpushed, hidle' | hover⟩ | ⟨_, hline⟩
    · refine ⟨pushes, hpushed, Or.inl ⟨hidle'.1, ?_⟩⟩
      rw [hidle'.2, hnil, hread, List.append_nil]
    · exact ⟨pushes, hpushed, Or.inr hover.1⟩
    · rw [hnil] at hline
      exact absurd (congrArg Prod.fst (takeLine_eq_need_iff.mpr ⟨rfl, by simp, by simp⟩)) hline
  · obtain ⟨hpushed, hover', _⟩ := over_step hover hstep
    exact ⟨[], hpushed, Or.inr hover'⟩

end Conn

end MacroBus
