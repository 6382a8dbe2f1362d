import MacroBus.Lib.Transition
import MacroBus.Client.Demux

/-!
# Calls that are cancelled

A call of `next_event` waits octet by octet, and it may be dropped whenever it waits: a timeout
or a `select!` does so. What it has read of a push is in its own buffers and is dropped with it.
So a call that is cancelled before its first octet does no harm, and any other loses octets.
-/

namespace MacroBus

namespace Client

/-- What a running `next_event` reads. -/
inductive Stage
  /-- The first line of a push. -/
  | header
  /-- The block of a message with these fields, behind the lines `out`. -/
  | body (typeName msgId origin : Str) (out : List Str)
  deriving DecidableEq

/-- What a running `next_event` keeps for itself. -/
structure Running where
  /-- What it reads. -/
  stage : Stage := .header
  /-- The octets of the line so far. -/
  buf : Bytes := []
  deriving DecidableEq

/-- What a running `next_event` makes of an octet or a line. -/
inductive Progress
  /-- It goes on. -/
  | going (r : Running)
  /-- It returns. -/
  | done (result : Except Error Event)

/-- `read_push`, up to the block of a message. -/
def pushHeader (code : Code) (rest : Str) : Progress :=
  let fields := Str.split ' ' rest
  let kw := (fields[0]?).getD []
  if code = status.MSG then
    let typeName := (fields[1]?).getD []
    let msgId := (fields[2]?).getD []
    let origin := (fields[3]?).getD []
    if kw ≠ "MSG".toList then .done (.error (.protocol "bad 101 header: ".toList rest))
    else if typeName = [] ∨ msgId = [] ∨ origin = [] then
      .done (.error (.protocol "incomplete 101 header: ".toList rest))
    else .going { stage := .body typeName msgId origin [] }
  else if code = status.DROP then
    if kw ≠ "DROP".toList then .done (.error (.protocol "bad 102 header: ".toList rest))
    else
      match (fields[2]?).bind (parseUnsigned u64Values) with
      | none => .done (.error (.protocol "bad 102 count: ".toList rest))
      | some count => .done (.ok (.drop ((fields[1]?).getD []) count))
  else if code = status.NOTE then
    .done (.ok (.note ((Str.stripPrefix "NOTE ".toList rest).getD rest)))
  else .done (.error (.protocol "unknown 1xx code ".toList (decimal code)))

/-- A line is complete. -/
def Stage.line : Stage → Str → Progress
  | .header, line =>
    match splitStatus line with
    | .error e => .done (.error e)
    | .ok (code, rest) =>
      if status.isAsync code then pushHeader code rest
      else
        .done (.error (.protocol "unexpected non-1xx line while awaiting a push: ".toList line))
  | .body typeName msgId origin out, line =>
    if line = frame.TERMINATOR then .done (.ok (.message ⟨typeName, msgId, origin, out⟩))
    else .going { stage := .body typeName msgId origin (out ++ [frame.unstuffLine line]) }

/-- An octet is read. -/
def Running.poll (maxLine : ℕ) (r : Running) (byte : UInt8) : Progress :=
  if byte = LF then r.stage.line (fromUtf8Lossy (stripCr r.buf))
  else if (r.buf ++ [byte]).length > maxLine then
    .done (.error (.protocol "line too long".toList []))
  else .going { r with buf := r.buf ++ [byte] }

/-- What a call that goes on over these octets returns, and what it leaves of them; `none`
where it still waits behind them. -/
def resume (maxLine : ℕ) : Running → Bytes → Option (Except Error Event × Bytes)
  | _, [] => none
  | r, byte :: octets =>
    match r.poll maxLine byte with
    | .going r' => resume maxLine r' octets
    | .done result => some (result, octets)

/-- What a call that has got so far returns over these octets. -/
def Progress.over (maxLine : ℕ) (octets : Bytes) :
    Progress → Option (Except Error Event × Bytes)
  | .going r => resume maxLine r octets
  | .done result => some (result, octets)

/-- What a call that reads to the end of its stream returns, and what it leaves; `none` where
the stream ends first. -/
def outcome (p : Except Error Event × Client) : Option (Except Error Event × Bytes) :=
  if p.1 = .error .closed then none else some (p.1, p.2.io.remaining)

section Resuming

variable {c c' : Client}

/-- A line of a running call is read as `read_line` reads it. -/
theorem resume_line (maxLine : ℕ) (stage : Stage) (buf : Bytes) (io : BufReader UInt8) :
    resume maxLine ⟨stage, buf⟩ io.remaining =
      match readLineFrom maxLine buf io with
      | (.error .closed, _) => none
      | (.error e, io') => some (.error e, io'.remaining)
      | (.ok line, io') => (stage.line line).over maxLine io'.remaining := by
  induction hn : io.remaining.length using Nat.strong_induction_on generalizing buf io with
  | _ n ih =>
    have hspec := io.readByte_remaining
    cases hread : io.readByte with
    | none =>
      rw [hread] at hspec
      rw [readLineFrom_none hread, show io.remaining = [] from hspec]
      rfl
    | some p =>
      obtain ⟨byte, io'⟩ := p
      have hlt := BufReader.readByte_lt hread
      rw [hread] at hspec
      rw [readLineFrom_some hread, show io.remaining = byte :: io'.remaining from hspec, resume]
      unfold Running.poll
      dsimp only
      by_cases hbyte : byte = LF
      · rw [if_pos hbyte, if_pos hbyte]
        dsimp only
        cases stage.line (fromUtf8Lossy (stripCr buf)) <;> rfl
      · rw [if_neg hbyte, if_neg hbyte]
        by_cases hlong : (buf ++ [byte]).length > maxLine
        · rw [if_pos hlong, if_pos hlong]
        · rw [if_neg hlong, if_neg hlong]
          exact ih _ (hn ▸ hlt) (buf ++ [byte]) io' rfl

/-- The block of a message is read as `read_block` reads it. -/
theorem resume_block (typeName msgId origin : Str) (out : List Str) (c : Client) :
    resume c.maxLine { stage := .body typeName msgId origin out } c.io.remaining =
      outcome (match readBlockFrom out c with
        | (.error e, c') => (.error e, c')
        | (.ok body, c') => (.ok (.message ⟨typeName, msgId, origin, body⟩), c')) := by
  induction hn : c.io.remaining.length using Nat.strong_induction_on generalizing out c with
  | _ n ih =>
    have hline := resume_line c.maxLine (.body typeName msgId origin out) [] c.io
    rw [hline]
    rcases hread : c.readLine with ⟨e | line, c'⟩
    · obtain ⟨hres, rfl⟩ := Prod.mk.inj hread
      rw [readBlockFrom_error hread]
      rcases hfrom : readLineFrom c.maxLine [] c.io with ⟨result, io'⟩
      rw [hfrom] at hres
      dsimp only at hres
      subst hres
      cases e <;> rfl
    · have hlt := readLine_lt hread
      obtain ⟨hres, rfl⟩ := Prod.mk.inj hread
      rw [readBlockFrom_ok hread]
      rcases hfrom : readLineFrom c.maxLine [] c.io with ⟨result, io'⟩
      rw [hfrom] at hres hlt
      dsimp only at hres hlt ⊢
      subst hres
      unfold Stage.line
      dsimp only
      split
      · rfl
      · exact ih _ (hn ▸ hlt) (out ++ [frame.unstuffLine line]) { c with io := io' } rfl

/-- A push is read as `read_push` reads it. -/
theorem over_pushHeader (c : Client) (code : Code) (rest : Str) :
    (pushHeader code rest).over c.maxLine c.io.remaining = outcome (c.readPush code rest) := by
  unfold pushHeader readPush
  dsimp only
  split
  · split
    · rfl
    · split
      · rfl
      · exact resume_block _ _ _ [] c
  · split
    · split
      · rfl
      · cases ((Str.split ' ' rest)[2]?).bind (parseUnsigned u64Values) <;> rfl
    · split <;> rfl

/-- Reading a block moves the stream and nothing else. -/
theorem readBlockFrom_frame (out : List Str) (c : Client) :
    ∃ io, (readBlockFrom out c).2 = { c with io := io } := by
  induction hn : c.io.remaining.length using Nat.strong_induction_on generalizing out c with
  | _ n ih =>
    rcases hread : c.readLine with ⟨e | line, c'⟩
    · obtain ⟨_, rfl⟩ := Prod.mk.inj hread
      rw [readBlockFrom_error hread]
      exact ⟨_, rfl⟩
    · have hlt := readLine_lt hread
      obtain ⟨_, rfl⟩ := Prod.mk.inj hread
      rw [readBlockFrom_ok hread]
      split
      · exact ⟨_, rfl⟩
      · obtain ⟨io, hio⟩ := ih _ (hn ▸ hlt) (out ++ [frame.unstuffLine line]) _ rfl
        exact ⟨io, hio⟩

/-- Reading a push moves the stream and nothing else. -/
theorem readPush_frame (c : Client) (code : Code) (rest : Str) :
    ∃ io, (c.readPush code rest).2 = { c with io := io } := by
  obtain ⟨io, hblock⟩ := readBlockFrom_frame [] c
  unfold readPush
  dsimp only
  split
  · split
    · exact ⟨_, rfl⟩
    · split
      · exact ⟨_, rfl⟩
      · refine ⟨io, ?_⟩
        rw [← hblock]
        unfold readBlock
        rcases readBlockFrom [] c with ⟨_ | _, _⟩ <;> rfl
  · split
    · split
      · exact ⟨_, rfl⟩
      · split <;> exact ⟨_, rfl⟩
    · split <;> exact ⟨_, rfl⟩

/-- Where no push is kept, `next_event` moves the stream and nothing else. -/
theorem nextEvent_frame (hpending : c.pending = []) :
    ∃ io, c.nextEvent.2 = { c with io := io } := by
  obtain ⟨io₀, pending, maxLine, daemonId⟩ := c
  obtain rfl : pending = [] := hpending
  unfold nextEvent
  dsimp only
  rcases hread : readLine ⟨io₀, [], maxLine, daemonId⟩ with ⟨e | line, c'⟩
  · obtain ⟨_, rfl⟩ := Prod.mk.inj hread
    exact ⟨_, rfl⟩
  · obtain ⟨_, rfl⟩ := Prod.mk.inj hread
    dsimp only
    split
    · exact ⟨_, rfl⟩
    · next code rest _ =>
      split
      · exact readPush_frame _ code rest
      · exact ⟨_, rfl⟩

/-- A status line does not end the stream. -/
theorem splitStatus_ne_closed (line : Str) : splitStatus line ≠ .error .closed := by
  unfold splitStatus
  split
  · simp
  · split
    · simp
    · split <;> simp

/-- **A call that is not cancelled is `next_event`.** -/
theorem resume_nextEvent (hpending : c.pending = []) :
    resume c.maxLine {} c.io.remaining = outcome c.nextEvent := by
  have hline := resume_line c.maxLine .header [] c.io
  rw [hline]
  unfold nextEvent
  rw [hpending]
  dsimp only
  rcases hread : c.readLine with ⟨e | line, c'⟩
  · obtain ⟨hres, rfl⟩ := Prod.mk.inj hread
    rcases hfrom : readLineFrom c.maxLine [] c.io with ⟨result, io'⟩
    rw [hfrom] at hres
    dsimp only at hres
    subst hres
    cases e <;> rfl
  · obtain ⟨hres, rfl⟩ := Prod.mk.inj hread
    rcases hfrom : readLineFrom c.maxLine [] c.io with ⟨result, io'⟩
    rw [hfrom] at hres
    dsimp only at hres ⊢
    subst hres
    unfold Stage.line
    dsimp only
    rcases hsplit : splitStatus line with e | ⟨code, rest⟩
    · have hne : e ≠ .closed := by
        rintro rfl
        exact splitStatus_ne_closed line hsplit
      simp [Progress.over, outcome, hne]
    · dsimp only
      split
      · exact over_pushHeader { c with io := io' } code rest
      · rfl

end Resuming

/-- A client that listens: what its `next_event` calls see of the stream. -/
structure Listener where
  /-- The pushes that are kept. -/
  pending : List Event
  /-- The cap on a received line. -/
  maxLine : ℕ
  /-- The octets that are still to arrive. -/
  incoming : Bytes
  /-- The octets that have arrived and are not read. -/
  arrived : Bytes := []
  /-- The call that is running. -/
  running : Option Running := none

namespace Listener

/-- A step of a listener. -/
inductive Action
  /-- So many octets arrive. -/
  | arrive (n : ℕ)
  /-- `next_event` is called. -/
  | call
  /-- The running call reads an octet. -/
  | poll
  /-- The running call is dropped. -/
  | cancel
  deriving DecidableEq

/-- Everything that is still to be read. -/
def remaining (s : Listener) : Bytes := s.arrived ++ s.incoming

/-- One step. What is observed is what a call returns. -/
def step (s : Listener) : Action → Option (Listener × List (Except Error Event))
  | .arrive n =>
    some ({ s with arrived := s.arrived ++ s.incoming.take n, incoming := s.incoming.drop n }, [])
  | .call =>
    match s.running, s.pending with
    | some _, _ => none
    | none, ev :: pending => some ({ s with pending := pending }, [.ok ev])
    | none, [] => some ({ s with running := some {} }, [])
  | .poll =>
    match s.running, s.arrived with
    | some r, byte :: arrived =>
      match r.poll s.maxLine byte with
      | .going r' => some ({ s with arrived := arrived, running := some r' }, [])
      | .done result => some ({ s with arrived := arrived, running := none }, [result])
    | _, _ => none
  | .cancel => s.running.map fun _ => ({ s with running := none }, [])

/-- A call is cancelled only before it has read an octet. -/
def CancelsUnread (s : Listener) (_ : List (Except Error Event)) (a : Action) : Prop :=
  a = .cancel → s.running = some {}

/-- A client that calls `next_event` so many times on the whole stream: what is returned, and
the client then. -/
def calls (c : Client) : ℕ → List (Except Error Event) × Client
  | 0 => ([], c)
  | n + 1 =>
    let (results, c') := calls c n
    (results ++ [c'.nextEvent.1], c'.nextEvent.2)

/-- What holds after every step: the listener is where a client is that was never cancelled. -/
structure Undisturbed (c : Client) (s : Listener) (past : List (Except Error Event)) : Prop where
  /-- The same was returned. -/
  results : past = (calls c past.length).1
  /-- The same pushes are kept. -/
  pending : s.pending = (calls c past.length).2.pending
  /-- Under the same cap. -/
  maxLine : s.maxLine = (calls c past.length).2.maxLine
  /-- Without a call the same is still to be read. -/
  idle : s.running = none → s.remaining = (calls c past.length).2.io.remaining
  /-- A call will return what `next_event` returns, and leave the same. -/
  running : ∀ r, s.running = some r → s.pending = [] ∧
    resume s.maxLine r s.remaining = outcome (calls c past.length).2.nextEvent
  /-- No call has come to the end of the stream. -/
  ended : .error .closed ∉ past
  /-- A call that has read nothing has left everything. -/
  unread : s.running = some {} → s.remaining = (calls c past.length).2.io.remaining

section Steps

variable {c : Client} {s s' : Listener} {past es : List (Except Error Event)} {a : Action}

/-- A call that has read an octet is not as it was. -/
theorem poll_ne_unread {maxLine : ℕ} {r r' : Running} {byte : UInt8}
    (hpoll : r.poll maxLine byte = .going r') : r' ≠ {} := by
  have hheader : ∀ code rest, pushHeader code rest = .going r' → r' ≠ {} := by
    rintro code rest heq rfl
    unfold pushHeader at heq
    dsimp only at heq
    split at heq
    · split at heq
      · cases heq
      · split at heq <;> cases heq
    · split at heq
      · split at heq
        · cases heq
        · split at heq <;> cases heq
      · split at heq <;> cases heq
  unfold Running.poll at hpoll
  split at hpoll
  · unfold Stage.line at hpoll
    split at hpoll
    · split at hpoll
      · cases hpoll
      · split at hpoll
        · exact hheader _ _ hpoll
        · cases hpoll
    · split at hpoll
      · cases hpoll
      · cases hpoll
        simp
  · split at hpoll
    · cases hpoll
    · cases hpoll
      simp

/-- What is returned by one more call. -/
theorem calls_succ (c : Client) (n : ℕ) : calls c (n + 1) =
    ((calls c n).1 ++ [(calls c n).2.nextEvent.1], (calls c n).2.nextEvent.2) := rfl

/-- A client that begins to listen is undisturbed. -/
theorem undisturbed_start (c : Client) :
    Undisturbed c ⟨c.pending, c.maxLine, c.io.remaining, [], none⟩ [] where
  results := rfl
  pending := rfl
  maxLine := rfl
  idle _ := rfl
  running r h := by cases h
  ended h := by cases h
  unread h := by cases h

/-- **Every step leaves the client undisturbed**, as long as calls are cancelled only before they have
read an octet. -/
theorem Undisturbed.step (h : Undisturbed c s past) (hcancel : s.CancelsUnread past a)
    (hstep : s.step a = some (s', es)) : Undisturbed c s' (past ++ es) := by
  cases a with
  | arrive n =>
    obtain ⟨rfl, rfl⟩ := by simpa only [Listener.step, Option.some.injEq, Prod.mk.injEq] using hstep
    have hsame : Listener.remaining { s with
        arrived := s.arrived ++ s.incoming.take n
        incoming := s.incoming.drop n } = s.remaining := by
      unfold Listener.remaining
      rw [List.append_assoc, List.take_append_drop]
    rw [List.append_nil]
    constructor
    · exact h.results
    · exact h.pending
    · exact h.maxLine
    · intro hidle
      rw [hsame]
      exact h.idle hidle
    · intro r hr
      rw [hsame]
      exact h.running r hr
    · exact h.ended
    · intro hr
      rw [hsame]
      exact h.unread hr
  | cancel =>
    have hunread := hcancel rfl
    obtain ⟨_, _, heq⟩ := Option.map_eq_some_iff.mp hstep
    obtain ⟨rfl, rfl⟩ := Prod.mk.inj heq
    rw [List.append_nil]
    exact ⟨h.results, h.pending, h.maxLine, fun _ => h.unread hunread,
      fun _ hr => (by cases hr), h.ended, fun hr => (by cases hr)⟩
  | call =>
    cases hrunning : s.running with
    | some r => simp [Listener.step, hrunning] at hstep
    | none =>
      have hidle := h.idle hrunning
      cases hpending : s.pending with
      | cons ev pending =>
        simp only [Listener.step, hrunning, hpending, Option.some.injEq, Prod.mk.injEq] at hstep
        obtain ⟨rfl, rfl⟩ := hstep
        have hkept := h.pending
        rw [hpending] at hkept
        have hnext : (calls c past.length).2.nextEvent =
            (.ok ev, { (calls c past.length).2 with pending := pending }) := by
          unfold nextEvent
          rw [← hkept]
        have hlength : (past ++ [Except.ok ev]).length = past.length + 1 := by simp
        constructor
        · rw [hlength, calls_succ, hnext, ← h.results]
        · rw [hlength, calls_succ, hnext]
        · rw [hlength, calls_succ, hnext]
          exact h.maxLine
        · intro _
          rw [hlength, calls_succ, hnext]
          exact hidle
        · intro r hr
          cases hr
        · simpa using h.ended
        · intro hr
          cases hr
      | nil =>
        simp only [Listener.step, hrunning, hpending, Option.some.injEq, Prod.mk.injEq] at hstep
        obtain ⟨rfl, rfl⟩ := hstep
        rw [List.append_nil]
        constructor
        · exact h.results
        · exact hpending.symm.trans h.pending
        · exact h.maxLine
        · intro hnone
          cases hnone
        · intro r hr
          obtain rfl := Option.some.inj hr
          refine ⟨rfl, ?_⟩
          rw [← resume_nextEvent (h.pending.symm.trans hpending), ← h.maxLine, ← hidle]
          rfl
        · exact h.ended
        · exact fun _ => hidle
  | poll =>
    cases hrunning : s.running with
    | none => simp [Listener.step, hrunning] at hstep
    | some r =>
      cases harrived : s.arrived with
      | nil => simp [Listener.step, hrunning, harrived] at hstep
      | cons byte arrived =>
        obtain ⟨hpending, hresume⟩ := h.running r hrunning
        have hremaining : s.remaining = byte :: (arrived ++ s.incoming) := by
          unfold Listener.remaining
          rw [harrived, List.cons_append]
        rw [hremaining, resume] at hresume
        simp only [Listener.step, hrunning, harrived] at hstep
        cases hpoll : r.poll s.maxLine byte with
        | going r' =>
          simp only [hpoll, Option.some.injEq, Prod.mk.injEq] at hstep hresume
          obtain ⟨rfl, rfl⟩ := hstep
          rw [List.append_nil]
          refine ⟨h.results, h.pending, h.maxLine, fun hnone => (by cases hnone), ?_, h.ended, ?_⟩
          · intro r₁ hr₁
            obtain rfl := Option.some.inj hr₁
            exact ⟨hpending, hresume⟩
          · intro hr
            exact absurd (Option.some.inj hr) (poll_ne_unread hpoll)
        | done result =>
          simp only [hpoll, Option.some.injEq, Prod.mk.injEq] at hstep hresume
          obtain ⟨rfl, rfl⟩ := hstep
          obtain ⟨io, hframe⟩ := nextEvent_frame (h.pending.symm.trans hpending)
          have hresult : (calls c past.length).2.nextEvent.1 = result ∧
              (calls c past.length).2.nextEvent.2.io.remaining = arrived ++ s.incoming ∧
              result ≠ .error .closed := by
            unfold outcome at hresume
            split at hresume
            · cases hresume
            · next hopen =>
              obtain ⟨h1, h2⟩ := Prod.mk.inj (Option.some.inj hresume)
              exact ⟨h1.symm, h2.symm, h1 ▸ hopen⟩
          have hlength : (past ++ [result]).length = past.length + 1 := by simp
          constructor
          · rw [hlength, calls_succ, hresult.1, ← h.results]
          · rw [hlength, calls_succ, hframe]
            exact h.pending
          · rw [hlength, calls_succ, hframe]
            exact h.maxLine
          · intro _
            rw [hlength, calls_succ]
            exact hresult.2.1.symm
          · intro r₁ hr₁
            cases hr₁
          · simpa using ⟨h.ended, hresult.2.2.symm⟩
          · intro hr
            cases hr

/-- The listener of a run is where a client is that was never cancelled. -/
theorem undisturbed_of_run
    (hrun : Transition.Run Listener.step CancelsUnread
      ⟨c.pending, c.maxLine, c.io.remaining, [], none⟩ s past) : Undisturbed c s past := by
  refine hrun.invariant (I := Undisturbed c) (undisturbed_start c) ?_
  intro s past a s' es h hcancel hstep
  exact h.step hcancel hstep

end Steps

section Pushes

variable {c : Client} {kept : List Event} {ps : List Push} {maxLine : ℕ} {s : Listener}
  {past : List (Except Error Event)}

/-- What calls on a stream of pushes return: the events in their order, and what is left are
the others. Nothing else is returned before the end of the stream. -/
theorem calls_pushes (hio : c.io.remaining = outStream (ps.map .push))
    (hfits : ∀ p ∈ ps, p.Fits c.maxLine) (n : ℕ) (hopen : .error .closed ∉ (calls c n).1) :
    ∃ (returned : List Event) (rest : List Push), (calls c n).1 = returned.map .ok ∧
      returned ++ ((calls c n).2.pending ++ rest.map ofPush) = c.pending ++ ps.map ofPush ∧
      (calls c n).2.io.remaining = outStream (rest.map .push) ∧
      (calls c n).2.maxLine = c.maxLine ∧ ∀ p ∈ rest, p ∈ ps := by
  induction n with
  | zero => exact ⟨[], ps, rfl, rfl, hio, rfl, fun _ hp => hp⟩
  | succ n ih =>
    rw [calls_succ, List.mem_append, not_or] at hopen
    obtain ⟨returned, rest, hresults, hevents, hleft, hmax, hrest⟩ := ih hopen.1
    rw [calls_succ]
    rcases hstate : (calls c n).2 with ⟨io, pending, maxLine, daemonId⟩
    rw [hstate] at hevents hleft hmax hopen
    dsimp only at hevents hleft hmax
    cases pending with
    | cons ev pending =>
      refine ⟨returned ++ [ev], rest, ?_, ?_, hleft, hmax, hrest⟩
      · rw [hresults, List.map_append]
        rfl
      · rw [← hevents, List.append_assoc]
        rfl
    | nil =>
      cases rest with
      | nil =>
        have hnone : readLine ⟨io, [], maxLine, daemonId⟩ = (.error .closed, ⟨io, [], maxLine, daemonId⟩) := by
          unfold readLine
          rw [readLineFrom_none (BufReader.readByte_nil hleft)]
        have hclosed : (nextEvent ⟨io, [], maxLine, daemonId⟩).1 = .error .closed := by
          unfold nextEvent
          dsimp only
          rw [hnone]
        rw [hclosed] at hopen
        exact absurd (List.mem_singleton.mpr rfl) hopen.2
      | cons p rest =>
        have hp : p.Fits maxLine := hmax ▸ hfits p (hrest p List.mem_cons_self)
        obtain ⟨io', hnext, hleft'⟩ :=
          nextEvent_push (c := ⟨io, [], maxLine, daemonId⟩) rfl hp (by rw [hleft]; exact outStream_cons _ _)
        rw [hnext]
        refine ⟨returned ++ [ofPush p], rest, ?_, ?_, hleft', hmax,
          fun q hq => hrest q (List.mem_cons_of_mem _ hq)⟩
        · rw [hresults, List.map_append]
          rfl
        · rw [← hevents, List.append_assoc]
          rfl

/-- A push is sent in some octets. -/
theorem outStream_pushes_eq_nil (h : outStream (ps.map .push) = []) : ps = [] := by
  cases ps with
  | nil => rfl
  | cons p ps =>
    rw [List.map_cons, outStream_cons, show OutUnit.serialize (.push p) = p.serialize from rfl,
      asBytes_push, wireLine_eq] at h
    simp at h

/-- **Calls that are cancelled before they have read an octet lose nothing.** A stream of pushes
arrives in any parts, calls of `next_event` read it octet by octet and are dropped at any time
before their first octet. The events returned are the first ones: those that were kept, and
those of the stream, in order; and when nothing is kept or to be read any more, they are all. -/
theorem cancelled_unread_loses_nothing (hfits : ∀ p ∈ ps, p.Fits maxLine)
    (hrun : Transition.Run Listener.step CancelsUnread
      ⟨kept, maxLine, outStream (ps.map .push), [], none⟩ s past) :
    past <+: (kept ++ ps.map ofPush).map .ok ∧
      (s.pending = [] → s.remaining = [] → past = (kept ++ ps.map ofPush).map .ok) := by
  have hstream : (BufReader.ofList (outStream (ps.map .push))).remaining =
      outStream (ps.map .push) := BufReader.remaining_ofList _
  have h : Undisturbed ⟨.ofList (outStream (ps.map .push)), kept, maxLine, []⟩ s past :=
    undisturbed_of_run (by rw [hstream]; exact hrun)
  obtain ⟨returned, rest, hresults, hevents, hleft, hmax, hrest⟩ :=
    calls_pushes hstream hfits past.length (h.results ▸ h.ended)
  rw [← h.results] at hresults
  rw [← h.pending] at hevents
  constructor
  · rw [hresults, ← hevents]
    exact ⟨_, (List.map_append ..).symm⟩
  · intro hpending hremaining
    have hnone : rest = [] := by
      cases hrunning : s.running with
      | none => exact outStream_pushes_eq_nil (hleft ▸ (h.idle hrunning) ▸ hremaining)
      | some r =>
        obtain ⟨_, hresume⟩ := h.running r hrunning
        rw [hremaining] at hresume
        cases rest with
        | nil => rfl
        | cons p rest =>
          -- A call in front of a push does not wait at the end of the stream.
          have hp : p.Fits (calls ⟨.ofList (outStream (ps.map .push)), kept, maxLine, []⟩
              past.length).2.maxLine := by
            rw [hmax]
            exact hfits p (hrest p List.mem_cons_self)
          have hkept := h.pending.symm.trans hpending
          obtain ⟨io, hnext, _⟩ :=
            nextEvent_push hkept hp (by rw [hleft]; exact outStream_cons _ _)
          rw [hnext] at hresume
          cases hresume
    rw [hresults, ← hevents, hpending, hnone]
    simp

/-- Two notes of which the first arrives in two parts, and a timeout before it. -/
def timeoutTrace : List Action :=
  [.call, .cancel, .arrive 5, .call] ++ List.replicate 5 .poll ++ [.arrive 100] ++
    List.replicate 8 .poll ++ [.call] ++ List.replicate 13 .poll

/-- The timeout costs nothing. -/
theorem cancelled_unread_loses_nothing_timeout : ∃ s past,
    Transition.Run Listener.step CancelsUnread
        ⟨[], DEFAULT_MAX_LINE,
          outStream ([.note "NOTE hi".toList, .note "NOTE ho".toList].map .push), [], none⟩ s past ∧
      past = [.ok (.note "hi".toList), .ok (.note "ho".toList)] := by
  obtain ⟨s, past, hrun, hpending, hremaining⟩ := Transition.exists_run Listener.step
    (fun s _ a => decide (a = .cancel → s.running = some {}))
    ⟨[], DEFAULT_MAX_LINE,
      outStream ([.note "NOTE hi".toList, .note "NOTE ho".toList].map .push), [], none⟩
    timeoutTrace (P := fun s _ => s.pending = [] ∧ s.remaining = []) (by decide)
  have hrun' : Transition.Run Listener.step CancelsUnread ⟨[], DEFAULT_MAX_LINE,
      outStream ([.note "NOTE hi".toList, .note "NOTE ho".toList].map .push), [], none⟩ s past :=
    hrun.weaken fun _ _ _ hok => of_decide_eq_true hok
  exact ⟨s, past, hrun',
    (cancelled_unread_loses_nothing (by decide) hrun').2 hpending hremaining⟩

/-- A message whose body has a line that looks like a note. -/
def noteLike : Message := ⟨"t".toList, "d-1".toList, "d".toList, ["190 NOTE boo".toList]⟩

/-- **A call that is cancelled behind the header of a message** loses the header, and the next
call takes a line of the body for a push: it returns an event that is not in the stream. -/
theorem cancelled_call_misreads : ∃ s past,
    Transition.Run Listener.step Transition.anyStep
        ⟨[], DEFAULT_MAX_LINE, outStream ([.message noteLike].map .push), [], none⟩ s past ∧
      (∀ p ∈ [Push.message noteLike], p.Fits DEFAULT_MAX_LINE) ∧
      past = [.ok (.note "boo".toList)] ∧
      ¬past <+: ([] ++ [Push.message noteLike].map ofPush).map .ok := by
  obtain ⟨s, past, hrun, hpast⟩ := Transition.exists_run Listener.step (fun _ _ _ => true)
    ⟨[], DEFAULT_MAX_LINE, outStream ([.message noteLike].map .push), [], none⟩
    ([.arrive 17, .call] ++ List.replicate 17 .poll ++ [.cancel, .arrive 100, .call] ++
      List.replicate 14 .poll)
    (P := fun _ past => past = [.ok (.note "boo".toList)]) (by decide)
  refine ⟨s, past, hrun.weaken fun _ _ _ _ => trivial, by decide, hpast, ?_⟩
  rw [hpast]
  decide

end Pushes

end Listener

end Client

end MacroBus
