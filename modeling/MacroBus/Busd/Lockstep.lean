import MacroBus.Busd.Exchange
import MacroBus.Client.Demux

/-!
# One client call is one command

A client and its connection are in lockstep when the task has handled all that the client has
sent, and the client has read all but pushes. A call then reads what the task writes, and the
task reads what the call sends. If the call ends with a reply they are in lockstep again, so the
reply that the next call ends with answers the line of that call.
-/

namespace MacroBus

/-- A client and its connection are in lockstep. -/
structure Lockstep (c : Conn) (k : Client) : Prop where
  /-- The task has handled all that it has read. -/
  settled : c.Settled
  /-- What the client has not read are whole pushes. -/
  unread : ∃ pushes : List Push, (∀ p ∈ pushes, p.Framed) ∧
    k.io.remaining = outStream (pushes.map .push)

/-- A call of the client, and what its connection does until the next one. -/
structure Exchange (limits : Limits) (fwd : Bool) (c : Conn) (k : Client) (request : Request)
    (io : List Conn.Io) (c' : Conn) (k' : Client) (outcome : Client.Outcome Unit) : Prop where
  /-- The task goes on, and the rest of the daemon with it. -/
  run : Transition.Run (Conn.task limits fwd) framedHub c c' io
  /-- The client reads what it has not read yet, and then what the task writes. -/
  call : ∃ stream : BufReader UInt8,
    stream.remaining = k.io.remaining ++ outputOf (Conn.effects io) ∧
      Client.perform { k with io := stream } request = (outcome, k')
  /-- The task reads what the client sends. -/
  reads : (Conn.reads io).flatten <+: outcome.sent

/-- A client calls its methods, and every call ends with a reply. -/
inductive Talk (limits : Limits) (fwd : Bool) (c₀ : Conn) (k₀ : Client) : Conn → Client → Prop
  /-- It begins in lockstep. -/
  | start : Lockstep c₀ k₀ → Talk limits fwd c₀ k₀ c₀ k₀
  /-- One more call. -/
  | call {c c' : Conn} {k k' : Client} {request : Request} {io : List Conn.Io}
      {outcome : Client.Outcome Unit} :
      Talk limits fwd c₀ k₀ c k → request.Sendable limits →
      Exchange limits fwd c k request io c' k' outcome → Client.BearsReply outcome.result →
      Talk limits fwd c₀ k₀ c' k'

/-- What is taken of all that was sent for a request: its line, and the body if it was sent. -/
def Request.takenFor (request : Request) (sent : Bytes) : List Effect :=
  if sent = Client.send request.line then [request.lineTaken] else request.allTaken

/-- **The call is one command**: its line is parsed once, with its body behind it. -/
structure OneCommand (request : Request) (io : List Conn.Io) (c' : Conn) (k' : Client)
    (outcome : Client.Outcome Unit) : Prop where
  /-- Nothing else is taken. -/
  taken : takenOf (Conn.effects io) <+: request.allTaken
  /-- All of it is taken where the task has read all that was sent and waits for more. -/
  all : (Conn.reads io).flatten = outcome.sent →
    (c'.phase = .select ∨ ∃ typeName key acc, c'.phase = .bodyRead typeName key acc) →
    takenOf (Conn.effects io) = request.takenFor outcome.sent
  /-- Where the call succeeds, the command of the line was performed; it has the arguments of
  the call, where these are words. -/
  performed : outcome.result = .ok () → ∃ cmd, command.parse request.line = .ok cmd ∧
    request.command.SameKind cmd ∧ (request.command.WordsOnly → cmd = request.command) ∧
      cmd.Served request.body (calledOf (Conn.effects io))
  /-- A reply that the call ends with was written for its line: it answers the line, or refuses
  it as too long and the connection ends. -/
  answer : Client.BearsReply outcome.result →
    ∃ (pushes after : List Push) (before : List Reply) (r : Reply),
      outputOf (Conn.effects io) =
        outStream (pushes.map .push ++ (before ++ [r]).map .reply ++ after.map .push) ∧
      outcome.result = request.verdict r ∧
      (Answers (Str.asBytes request.line) (before ++ [r]) ∧
          takenOf (Conn.effects io) = request.takenFor outcome.sent ∨
        before = [] ∧ r = refusal ∧ takenOf (Conn.effects io) = [] ∧ c'.phase.isOver = true)
  /-- The next call is made in lockstep. -/
  lockstep : Client.BearsReply outcome.result → Lockstep c' k'

section Lockstep

variable {limits : Limits} {fwd : Bool} {c₀ c c' : Conn} {k₀ k k' : Client} {request : Request}
  {io : List Conn.Io} {outcome : Client.Outcome Unit} {pushes : List Push} {sent output : Bytes}

/-- The body of a publish is not empty as it is sent. -/
theorem Request.bodyOctets_ne (request : Request) : request.bodyOctets ≠ [] := by
  unfold Request.bodyOctets
  rw [asBytes_encodeBody]
  exact List.append_ne_nil_of_right_ne_nil _ (by decide)

/-- Where only the line is sent, only the line is taken. -/
theorem Request.takenFor_line (request : Request) :
    request.takenFor (Client.send request.line) = [request.lineTaken] := if_pos rfl

/-- Where the body is sent, it is taken. -/
theorem Request.takenFor_body (request : Request) :
    request.takenFor (Client.send request.line ++ request.bodyOctets) = request.allTaken := by
  refine if_neg fun heq => request.bodyOctets_ne ?_
  exact List.append_right_eq_self.mp heq

/-- A successful result bears a reply. -/
theorem bearsReply_ok : Client.BearsReply (.ok ()) := fun _ h => by cases h

/-- **What is sent** depends on the first reply. -/
theorem sends_perform (hunread : ∀ p ∈ pushes, p.Framed)
    (hstream : k.io.remaining = outStream (pushes.map .push) ++ output) :
    request.Sends (k.perform request).1.sent output := by
  refine ⟨Client.perform_sent k request, ?_⟩
  intro ahead r rest hahead hfinal hframed haccepted houtput
  have hall : ∀ p ∈ pushes ++ ahead, p.Framed := List.forall_mem_append.mpr ⟨hunread, hahead⟩
  have hwhole : k.io.remaining = outStream ((pushes ++ ahead).map .push) ++
      (Str.asBytes r.serialize ++ rest) := by
    rw [hstream, houtput, List.map_append, outStream_append, List.append_assoc]
  exact (Client.perform_reply hall hframed hfinal.code_ne haccepted hwhole).1

/-- Without a reply there is nothing to answer for. -/
theorem OneCommand.of_noReply (htaken : takenOf (Conn.effects io) <+: request.allTaken)
    (hall : (Conn.reads io).flatten = outcome.sent →
      (c'.phase = .select ∨ ∃ typeName key acc, c'.phase = .bodyRead typeName key acc) →
      takenOf (Conn.effects io) = request.takenFor outcome.sent)
    (hno : ¬Client.BearsReply outcome.result) : OneCommand request io c' k' outcome := by
  refine ⟨htaken, hall, fun hok => ?_, fun h => absurd h hno, fun h => absurd h hno⟩
  rw [hok] at hno
  exact absurd bearsReply_ok hno

/-- A result made of a reply is a success where the reply is. -/
theorem Request.verdict_eq_ok_iff {r : Reply} :
    request.verdict r = .ok () ↔ r.code = request.command.expected := by
  unfold Request.verdict
  split
  · next h => simp [h]
  · next h => simp [h]

/-- **With a reply** the call is one command. -/
theorem OneCommand.of_answered {before : List Reply} {r : Reply}
    (hanswered : request.Answered (Conn.effects io) before r)
    (htaken : takenOf (Conn.effects io) = request.takenFor outcome.sent)
    (hpart : takenOf (Conn.effects io) <+: request.allTaken)
    (hanswers : Answers (Str.asBytes request.line) (before ++ [r])) (hsettled : c'.Settled)
    (hverdict : ∀ (pushes after : List Push),
      outputOf (Conn.effects io) =
        outStream (pushes.map .push ++ (before ++ [r]).map .reply ++ after.map .push) →
      (∀ p ∈ pushes, p.Framed) → Client.BearsReply outcome.result →
      outcome.result = request.verdict r ∧ k'.io.remaining = outStream (after.map .push)) :
    OneCommand request io c' k' outcome := by
  obtain ⟨⟨ahead, after, hahead, hafter, houtput⟩, hends⟩ := hanswered
  refine ⟨hpart, fun _ _ => htaken, fun hok => ?_, fun hbears => ?_, fun hbears => ?_⟩
  · obtain ⟨hresult, _⟩ := hverdict ahead after houtput hahead (hok ▸ bearsReply_ok)
    obtain ⟨cmd, hparse, hserved⟩ :=
      hends.performed (Request.verdict_eq_ok_iff.mp (hresult.symm.trans hok))
    obtain ⟨hkind, hwords⟩ := parse_request hparse
    exact ⟨cmd, hparse, hkind, hwords, hserved⟩
  · obtain ⟨hresult, _⟩ := hverdict ahead after houtput hahead hbears
    exact ⟨ahead, after, before, r, houtput, hresult, Or.inl ⟨hanswers, htaken⟩⟩
  · obtain ⟨_, hrest⟩ := hverdict ahead after houtput hahead hbears
    exact ⟨hsettled, after, hafter, hrest⟩

/-- A line that is sent has its end. -/
theorem LF_mem_send (s : Str) : LF ∈ Client.send s := by
  rw [send_eq_wireLine, wireLine_eq]
  simp

/-- **Whatever stage the task has reached**, the call is one command. -/
theorem Request.Stage.oneCommand (hunread : ∀ p ∈ pushes, p.Framed)
    (hstream : k.io.remaining = outStream (pushes.map .push) ++ outputOf (Conn.effects io))
    (hperform : k.perform request = (outcome, k'))
    (hstage : request.Stage limits outcome.sent c' (Conn.effects io) (Conn.reads io).flatten) :
    OneCommand request io c' k' outcome := by
  have hresult : outcome = (k.perform request).1 := by rw [hperform]
  have hclient : k' = (k.perform request).2 := by rw [hperform]
  have hsends : request.Sends outcome.sent (outputOf (Conn.effects io)) :=
    hresult ▸ sends_perform hunread hstream
  have hline : LF ∈ outcome.sent := by
    rcases hsends.shape with hsent | ⟨_, hsent⟩
    · rw [hsent]
      exact LF_mem_send request.line
    · rw [hsent]
      exact List.mem_append_left _ (LF_mem_send request.line)
  -- What the client reads, where the task has written pushes and these replies.
  have hreads : ∀ {ahead : List Push} (units : List OutUnit),
      outputOf (Conn.effects io) = outStream (ahead.map .push ++ units) →
      k.io.remaining = outStream ((pushes ++ ahead).map .push) ++ outStream units := by
    intro ahead units houtput
    rw [hstream, houtput, List.map_append, outStream_append, outStream_append, List.append_assoc]
  have hframed : ∀ {ahead : List Push}, (∀ p ∈ ahead, p.Framed) → ∀ p ∈ pushes ++ ahead, p.Framed :=
    fun hahead => List.forall_mem_append.mpr ⟨hunread, hahead⟩
  have hsilent : ∀ {ahead : List Push}, (∀ p ∈ ahead, p.Framed) →
      outputOf (Conn.effects io) = outStream (ahead.map .push) →
      ¬Client.BearsReply outcome.result := by
    intro ahead hahead houtput
    have hrest := hreads [] (by rw [List.append_nil, houtput])
    rw [outStream_nil, List.append_nil] at hrest
    rw [hresult]
    exact (Client.perform_noReply (Client.noReply_of_pushes (hframed hahead) hrest)).2
  have hinvited : ∀ {ahead : List Push}, request.Publishes → (∀ p ∈ ahead, p.Framed) →
      outputOf (Conn.effects io) = outStream (ahead.map .push ++ [.reply invitation]) →
      ¬Client.BearsReply outcome.result := by
    intro ahead hpublishes hahead houtput
    have hrest := hreads _ houtput
    rw [outStream_cons, outStream_nil, List.append_nil] at hrest
    rw [hresult]
    exact Client.perform_invited hpublishes (hframed hahead) framed_invitation hrest rfl
  cases hstage with
  | waiting hpushed hidle hrbuf =>
    refine .of_noReply ?_ ?_ (hsilent hpushed.framed hpushed.output)
    · rw [hpushed.taken]
      exact List.nil_prefix
    · rintro hgot (hphase | ⟨typeName, key, acc, hphase⟩)
      · rw [← hgot, hrbuf] at hline
        exact absurd hline (hidle.line hphase)
      · have hwhere := hidle.phase
        rw [hphase] at hwhere
        cases hwhere
  | @refused ahead hpushes houtput htaken hover =>
    have hrest := hreads _ houtput
    rw [outStream_cons] at hrest
    have hbears : Client.BearsReply (k.perform request).1.result →
        (k.perform request).1.result = request.verdict refusal ∧
          (k.perform request).2.io.remaining = outStream [] :=
      (Client.perform_reply (hframed hpushes) final_refusal.2 (by decide) (fun _ => by decide)
        hrest).2
    rw [← hresult, ← hclient] at hbears
    refine ⟨?_, ?_, fun hok => ?_, fun h => ?_, fun h => ?_⟩
    · rw [htaken]
      exact List.nil_prefix
    · rintro _ (hphase | ⟨typeName, key, acc, hphase⟩)
      · rw [hphase] at hover
        cases hover
      · rw [hphase] at hover
        cases hover
    · have hcode := Request.verdict_eq_ok_iff.mp ((hbears (hok ▸ bearsReply_ok)).1.symm.trans hok)
      exact absurd hcode.symm (request.command.expected_ne (by decide))
    · exact ⟨ahead, [], [], refusal, by simpa using houtput, (hbears h).1,
        Or.inr ⟨rfl, rfl, htaken, hover⟩⟩
    · exact ⟨Or.inr hover, [], by simp, (hbears h).2⟩
  | lost hpushes hbefore houtput htaken hover =>
    refine .of_noReply htaken ?_ ?_
    · rintro _ (hphase | ⟨typeName, key, acc, hphase⟩)
      · rw [hphase] at hover
        cases hover
      · rw [hphase] at hover
        cases hover
    · rcases hbefore with rfl | ⟨rfl, hpublishes⟩
      · rw [List.map_nil, List.append_nil] at houtput
        exact hsilent hpushes houtput
      · exact hinvited hpublishes hpushes houtput
  | @answered r hanswered haccepted htaken hsent hall hsettled =>
    refine .of_answered hanswered ?_ ?_ (.once hanswered.ends.final) hsettled ?_
    · rw [htaken, hsent, Request.takenFor_line]
    · rw [htaken]
      exact (List.prefix_append _ _ : [request.lineTaken] <+: _)
    · intro ahead after houtput hahead hbears
      rw [List.append_assoc] at houtput
      have hrest := hreads _ houtput
      rw [List.nil_append, List.map_singleton, List.singleton_append, outStream_cons] at hrest
      have hreply := (Client.perform_reply (hframed hahead) hanswered.ends.framed
        hanswered.ends.final.code_ne haccepted hrest).2
      rw [← hresult, ← hclient] at hreply
      exact hreply hbears
  | @invited ahead typeName key lines left acc hpushes hparse houtput hcalled htaken hbody hrbuf
      hacc hphase =>
    have hpublishes := Request.publishes_of_parse hparse
    refine .of_noReply ?_ ?_ (hinvited hpublishes hpushes houtput)
    · rw [htaken]
      exact Request.taken_prefix hbody
    · intro hgot hwaits
      have hnone : LF ∉ c'.rbuf := by
        rcases hphase with hphase | ⟨_, hnone⟩
        · rw [hphase] at hwaits
          simp at hwaits
        · exact hnone
      rw [hrbuf] at hgot
      rcases hsends.shape with hsent | ⟨_, hsent⟩
      · -- The invitation was not understood, so no line of the body was sent.
        have hlen := congrArg List.length hgot
        rw [hsent, List.length_append, List.length_append] at hlen
        have hlines : lines = [] := by
          cases lines with
          | nil => rfl
          | cons line lines =>
            rw [asBytes_encodeLines_cons, List.length_append, wireLine_eq, List.length_append,
              List.length_append, List.length_singleton] at hlen
            omega
        rw [hsent, Request.takenFor_line, htaken, hlines]
        rfl
      · -- The end of the body would be in the buffer.
        rw [hsent, Request.bodyOctets, hbody, asBytes_encodeBody_append, List.append_assoc,
          List.append_cancel_left_eq, List.append_cancel_left_eq, asBytes_encodeBody] at hgot
        rw [hgot] at hnone
        exact absurd (List.mem_append_right _ (by decide)) hnone
  | @finished r typeName key hparse hanswered htaken hsent hall hsettled =>
    have hpublishes := Request.publishes_of_parse hparse
    have hanswers : Answers (Str.asBytes request.line) [invitation, r] :=
      .invited (by rw [fromUtf8Lossy_asBytes]; exact hparse) hanswered.ends.final
    refine .of_answered hanswered ?_ ?_ hanswers hsettled ?_
    · rw [htaken, hsent, Request.takenFor_body]
    · rw [htaken]
    · intro ahead after houtput hahead hbears
      rw [List.append_assoc] at houtput
      have hrest := hreads _ houtput
      simp only [List.cons_append, List.nil_append, List.map_cons, List.map_nil,
        outStream_cons] at hrest
      rw [hresult] at hbears
      have hreply := Client.perform_answered hpublishes (hframed hahead) framed_invitation
        hanswered.ends.framed rfl hrest hbears
      rw [← hresult, ← hclient] at hreply
      exact hreply

/-- **An exchange in lockstep** is one command. -/
theorem Exchange.oneCommand (hlock : Lockstep c k) (hsend : request.Sendable limits)
    (hx : Exchange limits fwd c k request io c' k' outcome) :
    OneCommand request io c' k' outcome := by
  obtain ⟨hrun, ⟨stream, hstream, hperform⟩, hreads⟩ := hx
  obtain ⟨pushes, hpushes, hunread⟩ := hlock.unread
  rw [hunread] at hstream
  have hsends : request.Sends outcome.sent (outputOf (Conn.effects io)) := by
    have hsends : request.Sends (Client.perform { k with io := stream } request).1.sent
        (outputOf (Conn.effects io)) := sends_perform hpushes hstream
    rwa [hperform] at hsends
  have hstage := Request.Stage.run hlock.settled hsend hsends hrun hreads (List.prefix_refl _)
  exact hstage.oneCommand (k := { k with io := stream }) hpushes hstream hperform

/-- Between two calls the client and the connection are in lockstep. -/
theorem Talk.lockstep (htalk : Talk limits fwd c₀ k₀ c k) : Lockstep c k := by
  induction htalk with
  | start hlock => exact hlock
  | call _ hsend hx hbears ih => exact (hx.oneCommand ih hsend).lockstep hbears

/-- **One call is one command.** A client calls its methods one after another, from lockstep
on, and each call before this one ends with a reply. Whatever the rest of the daemon does
meanwhile and however the octets arrive, the daemon takes nothing of what the call sends but
its line, once, and the body behind it. If the call succeeds, the command of the line was
performed, with the arguments of the call where these are words; and a reply that the call ends
with answers its line, or refuses it as too long and the connection ends. -/
theorem one_call_is_one_command (htalk : Talk limits fwd c₀ k₀ c k)
    (hsend : request.Sendable limits) (hx : Exchange limits fwd c k request io c' k' outcome) :
    OneCommand request io c' k' outcome := hx.oneCommand htalk.lockstep hsend

end Lockstep

section Examples

/-- A connection that has greeted its client. -/
def greeted : Conn := { id := 0, phase := .top }

/-- A client that has read its greeting. -/
def welcomed : Client := { io := .ofList [] }

/-- Nothing is registered, queued or dropped. -/
theorem framed_idleHub (id : ℕ) : idleHub.Framed id :=
  ⟨by simp [idleHub], by simp [idleHub], by simp [idleHub, Registry.new]⟩

/-- A client and its connection behind the greeting. -/
theorem lockstep_greeted : Lockstep greeted welcomed :=
  ⟨Or.inl ⟨Conn.idle_top rfl, rfl⟩, [], by simp, BufReader.remaining_ofList []⟩

/-- The line of a request arrives in one chunk and is handled. -/
def lineArrives (request : Request) (steps : ℕ) : List (Hub × ℕ × Conn.Wake) :=
  [(idleHub, 0, .go), (idleHub, 0, .go), (idleHub, 0, .read (Client.send request.line))] ++
    List.replicate steps (idleHub, 0, .go)

/-- An exchange as it is computed: what the task writes, and the reply that the client reads. -/
theorem exists_exchange (limits : Limits) (request : Request) (steps : ℕ) (units : List OutUnit)
    {rest : List OutUnit} {r : Reply} {P : Conn → List Conn.Io → Prop}
    [∀ c io, Decidable (P c io)] (hpublishes : ¬request.Publishes)
    (hexec : (Transition.exec (Conn.task limits false) (fun _ _ _ => true) greeted []
      (lineArrives request steps)).any (fun p => decide (P p.1 p.2 ∧
        outputOf (Conn.effects p.2) = outStream units ∧
        (Conn.reads p.2).flatten = Client.send request.line)) = true)
    (hfits : ∀ u ∈ units, u.Fits welcomed.maxLine)
    (hunits : OutUnit.untilReply units = some ([], r, rest)) :
    ∃ io c' k' outcome, Exchange limits false greeted welcomed request io c' k' outcome ∧
      P c' io ∧ outcome.result = request.verdict r ∧ k'.io.remaining = outStream rest := by
  obtain ⟨⟨c', io⟩, hrun, hdecide⟩ := (Option.any_eq_true _ _).mp hexec
  obtain ⟨hP, houtput, hreads⟩ := of_decide_eq_true hdecide
  have hguard : ∀ a ∈ lineArrives request steps, ∀ c past, framedHub c past a := by
    intro a ha c past
    simp only [lineArrives, List.mem_append, List.mem_cons, List.not_mem_nil, or_false,
      List.mem_replicate] at ha
    rcases ha with (rfl | rfl | rfl) | ⟨_, rfl⟩ <;> exact framed_idleHub c.id
  have hstream : (BufReader.ofList (outputOf (Conn.effects io))).remaining = outStream units := by
    rw [BufReader.remaining_ofList, houtput]
  obtain ⟨stream, hexpect, hrest⟩ := Client.expect_units
    (c := { welcomed with io := .ofList (outputOf (Conn.effects io)) }) request.command.expected
    hstream hfits hunits
  have hperform := Client.perform_request
    { welcomed with io := .ofList (outputOf (Conn.effects io)) } hpublishes
  unfold Client.request at hperform
  rw [hexpect] at hperform
  refine ⟨io, c', _, _, ⟨Transition.Run.exec_of_forall hguard .init hrun,
    ⟨.ofList (outputOf (Conn.effects io)), ?_, hperform⟩, ?_⟩, hP, ?_, hrest⟩
  · rw [BufReader.remaining_ofList]
    rfl
  · rw [hreads]
  · unfold Request.verdict
    dsimp only
    split <;> rfl

/-- A client registers a type. -/
theorem one_call_is_one_command_register : ∃ io c' k' outcome,
    Exchange {} false greeted welcomed ⟨.register "t".toList "k".toList, []⟩ io c' k' outcome ∧
      outcome.result = .ok () ∧
      OneCommand ⟨.register "t".toList "k".toList, []⟩ io c' k' outcome := by
  obtain ⟨io, c', k', outcome, hx, _, hresult, _⟩ := exists_exchange {}
    ⟨.register "t".toList "k".toList, []⟩ 2
    [.reply { code := status.REGISTERED, text := "t registered".toList }]
    (P := fun _ _ => True) (by rintro ⟨typeName, key, heq⟩; cases heq) (by decide) (by decide) rfl
  exact ⟨io, c', k', outcome, hx, hresult, one_call_is_one_command (.start lockstep_greeted)
    ⟨by decide, by decide, by rintro ⟨typeName, key, heq⟩; cases heq⟩ hx⟩

/-- **Arguments are sent as they are.** A type with a space in it is registered as a type and a
key; a type with a line end in it makes two command lines, and the reply to the second one is
left for the next call; and a line over the limit is refused without being parsed. -/
theorem arguments_move_and_split : Lockstep greeted welcomed ∧
    (∃ io c' k' outcome,
      Exchange {} false greeted welcomed ⟨.register "t x".toList [], []⟩ io c' k' outcome ∧
        outcome.result = .ok () ∧
        calledOf (Conn.effects io) = [.registerLocal "t".toList "x".toList 0]) ∧
    (∃ io c' k' outcome,
      Exchange {} false greeted welcomed
          ⟨.register "t k\r\nREGISTER u".toList "k".toList, []⟩ io c' k' outcome ∧
        commandsOf (Conn.effects io) =
          [Str.asBytes "REGISTER t k".toList, Str.asBytes "REGISTER u k".toList] ∧
        outcome.result = .ok () ∧
        k'.io.remaining =
          outStream [.reply { code := status.REGISTERED, text := "u registered".toList }]) ∧
    ∃ io c' k' outcome,
      Exchange { maxCommandLineBytes := 8 } false greeted welcomed
          ⟨.register "t".toList "k".toList, []⟩ io c' k' outcome ∧
        outcome.result = .error (.server refusal.code refusal.text) ∧
        takenOf (Conn.effects io) = [] := by
  refine ⟨lockstep_greeted, ?_, ?_, ?_⟩
  · obtain ⟨io, c', k', outcome, hx, hcalled, hresult, _⟩ := exists_exchange {}
      ⟨.register "t x".toList [], []⟩ 2
      [.reply { code := status.REGISTERED, text := "t registered".toList }]
      (P := fun _ io => calledOf (Conn.effects io) = [.registerLocal "t".toList "x".toList 0])
      (by rintro ⟨typeName, key, heq⟩; cases heq) (by decide) (by decide) rfl
    exact ⟨io, c', k', outcome, hx, hresult, hcalled⟩
  · obtain ⟨io, c', k', outcome, hx, hcommands, hresult, hrest⟩ := exists_exchange {}
      ⟨.register "t k\r\nREGISTER u".toList "k".toList, []⟩ 4
      [.reply { code := status.REGISTERED, text := "t registered".toList },
        .reply { code := status.REGISTERED, text := "u registered".toList }]
      (P := fun _ io => commandsOf (Conn.effects io) =
        [Str.asBytes "REGISTER t k".toList, Str.asBytes "REGISTER u k".toList])
      (by rintro ⟨typeName, key, heq⟩; cases heq) (by decide) (by decide) rfl
    exact ⟨io, c', k', outcome, hx, hcommands, hresult, hrest⟩
  · obtain ⟨io, c', k', outcome, hx, htaken, hresult, _⟩ := exists_exchange
      { maxCommandLineBytes := 8 } ⟨.register "t".toList "k".toList, []⟩ 2 [.reply refusal]
      (P := fun _ io => takenOf (Conn.effects io) = [])
      (by rintro ⟨typeName, key, heq⟩; cases heq) (by decide) (by decide) rfl
    exact ⟨io, c', k', outcome, hx, hresult, htaken⟩

end Examples

end MacroBus
