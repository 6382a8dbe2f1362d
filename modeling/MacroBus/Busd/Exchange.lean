import MacroBus.Busd.Feeding
import MacroBus.Busd.Serving

/-!
# One exchange of a connection

What a task does with the octets of one call. It waits for the line, answers it or invites the
body, and is then between two commands again. However the octets arrive, and whatever the rest
of the daemon does meanwhile, it takes nothing but the line and the body.
-/

namespace MacroBus

/-- A body line as it is taken from the buffer. -/
def bodyLineTaken (line : Str) : Effect := .bodyLine (Str.asBytes (frame.stuffLine line))

namespace Request

/-- The line of the request as it is taken from the buffer. -/
def lineTaken (request : Request) : Effect := .command (Str.asBytes request.line)

/-- The line and the body as they are taken from the buffer. -/
def allTaken (request : Request) : List Effect :=
  request.lineTaken :: (request.body.map bodyLineTaken ++ [.bodyLine DOT])

/-- What is sent for the request, as far as it depends on what is read: its line, and the body
of a publish, unless the first reply invites none. -/
structure Sends (request : Request) (sent output : Bytes) : Prop where
  /-- The line, or the line and the body. -/
  shape : sent = Client.send request.line ∨
    request.Publishes ∧ sent = Client.send request.line ++ request.bodyOctets
  /-- The body is not sent behind a final reply. -/
  alone : ∀ (pushes : List Push) (r : Reply) (rest : Bytes), (∀ p ∈ pushes, p.Framed) →
    r.Final → r.Framed → (request.Publishes → r.code ≠ status.ACCEPTED) →
    output = outStream (pushes.map .push) ++ (Str.asBytes r.serialize ++ rest) →
    sent = Client.send request.line

/-- The exchange is over: behind pushes, and an invitation if there was one, the reply was
written, and nothing but pushes behind it. -/
structure Answered (request : Request) (done : List Effect) (before : List Reply) (r : Reply) :
    Prop where
  /-- What was written. -/
  output : ∃ pushes after : List Push, (∀ p ∈ pushes, p.Framed) ∧ (∀ p ∈ after, p.Framed) ∧
    outputOf done = outStream (pushes.map .push ++ (before ++ [r]).map .reply ++ after.map .push)
  /-- What the reply tells. -/
  ends : request.Ends (calledOf done) r

/-- How far the task is with the request, of which it has read `got`. -/
inductive Stage (limits : Limits) (request : Request) (sent : Bytes) (c : Conn)
    (done : List Effect) (got : Bytes) : Prop
  /-- It waits for the line. -/
  | waiting {pushes : List Push} : Pushed pushes done → c.Idle → got = c.rbuf →
      Stage limits request sent c done got
  /-- It has refused the line, which is too long, and ended. -/
  | refused {pushes : List Push} : (∀ p ∈ pushes, p.Framed) →
      outputOf done = outStream (pushes.map .push ++ [.reply refusal]) → takenOf done = [] →
      c.phase.isOver = true → Stage limits request sent c done got
  /-- The connection was lost before the reply. -/
  | lost {pushes : List Push} {before : List Reply} : (∀ p ∈ pushes, p.Framed) →
      before = [] ∨ before = [invitation] ∧ request.Publishes →
      outputOf done = outStream (pushes.map .push ++ before.map .reply) →
      takenOf done <+: request.allTaken → c.phase.isOver = true → Stage limits request sent c done got
  /-- It has answered the line. -/
  | answered {r : Reply} : request.Answered done [] r →
      (request.Publishes → r.code ≠ status.ACCEPTED) → takenOf done = [request.lineTaken] →
      sent = Client.send request.line → got = sent → c.Settled → Stage limits request sent c done got
  /-- It has invited the body of a publish, and read these lines of it. -/
  | invited {pushes : List Push} {typeName key : Str} {lines left : List Str} {acc : BodyAcc} :
      (∀ p ∈ pushes, p.Framed) →
      command.parse request.line = .ok (.publish typeName key) →
      outputOf done = outStream (pushes.map .push ++ [.reply invitation]) →
      calledOf done = [.publishPrecheck typeName key] →
      takenOf done = request.lineTaken :: lines.map bodyLineTaken → request.body = lines ++ left →
      got = Client.send request.line ++ Str.asBytes (frame.encodeLines lines) ++ c.rbuf →
      acc = (lines.map frame.stuffLine).foldl (BodyAcc.push limits) {} →
      c.phase = .body typeName key acc ∨ c.phase = .bodyRead typeName key acc ∧ LF ∉ c.rbuf →
      Stage limits request sent c done got
  /-- It has answered the body. -/
  | finished {r : Reply} {typeName key : Str} :
      command.parse request.line = .ok (.publish typeName key) →
      request.Answered done [invitation] r → takenOf done = request.allTaken →
      sent = Client.send request.line ++ request.bodyOctets → got = sent → c.Settled →
      Stage limits request sent c done got

end Request

section Prefixes

variable {max : ℕ} {s : Str} {rbuf more : Bytes}

/-- The line in front of what is sent is in the buffer, or is not complete yet. -/
theorem prefix_wireLine (hs : '\n' ∉ s) (h : rbuf <+: wireLine s ++ more) :
    (LF ∉ rbuf ∧ rbuf <+: Str.asBytes s ++ [CR]) ∨
      ∃ rest, rbuf = wireLine s ++ rest ∧ rest <+: more := by
  have hline := LF_notMem_wire hs
  have hwire : wireLine s ++ more = (Str.asBytes s ++ [CR]) ++ LF :: more := by
    rw [wireLine_eq, List.append_assoc, List.singleton_append]
  rw [hwire] at h
  rcases List.prefix_or_prefix_of_prefix h (List.prefix_append _ _) with hshort | ⟨t, rfl⟩
  · exact Or.inl ⟨fun hmem => hline (hshort.subset hmem), hshort⟩
  · rw [List.prefix_append_right_inj, List.prefix_cons_iff] at h
    rcases h with rfl | ⟨rest, rfl, hrest⟩
    · rw [List.append_nil]
      exact Or.inl ⟨hline, List.prefix_refl _⟩
    · refine Or.inr ⟨rest, ?_, hrest⟩
      rw [wireLine_eq, List.append_assoc, List.append_assoc, List.append_assoc]
      rfl

/-- A complete line is taken, unless it is too long. -/
theorem takeLine_wireLine (hs : '\n' ∉ s) (rest : Bytes) :
    takeLine max (wireLine s ++ rest) =
      (if max < (Str.asBytes s).length then .tooLong else .line (Str.asBytes s), rest) := by
  have hwire : wireLine s ++ rest = (Str.asBytes s ++ [CR]) ++ LF :: rest := by
    rw [wireLine_eq, List.append_assoc, List.singleton_append]
  rw [hwire, takeLine_complete (LF_notMem_wire hs), stripCr_append]

/-- **What of a body is in the buffer**: no complete line, the terminator, or the next line. -/
theorem takeLine_body {left : List Str} (hfits : BlockFits max left)
    (h : rbuf <+: Str.asBytes (frame.encodeBody left)) :
    takeLine max rbuf = (.need, rbuf) ∧ LF ∉ rbuf ∨
      left = [] ∧ takeLine max rbuf = (.line DOT, []) ∧ rbuf = wireLine frame.TERMINATOR ∨
      ∃ line rest lines, left = line :: lines ∧
        takeLine max rbuf = (.line (Str.asBytes (frame.stuffLine line)), rest) ∧
        rbuf = wireLine (frame.stuffLine line) ++ rest ∧
        rest <+: Str.asBytes (frame.encodeBody lines) := by
  -- A line that fits is never too long, however much of it is there.
  have hneed : ∀ s : Str, LineFits max s → LF ∉ rbuf → rbuf <+: Str.asBytes s ++ [CR] →
      takeLine max rbuf = (.need, rbuf) ∧ LF ∉ rbuf := by
    intro s hs hnone hpart
    have hlen := hpart.length_le
    have hbound : (Str.asBytes s).length + 1 ≤ max := hs.2
    rw [List.length_append, List.length_singleton] at hlen
    exact ⟨takeLine_eq_need_iff.mpr ⟨rfl, hnone, by omega⟩, hnone⟩
  have hline : ∀ (s : Str) (rest : Bytes), LineFits max s →
      takeLine max (wireLine s ++ rest) = (.line (Str.asBytes s), rest) := by
    intro s rest hs
    have hbound : (Str.asBytes s).length + 1 ≤ max := hs.2
    rw [takeLine_wireLine hs.1, if_neg (by omega)]
  rw [asBytes_encodeBody] at h
  cases left with
  | nil =>
    rw [← List.append_nil (wireLine frame.TERMINATOR)] at h
    rcases prefix_wireLine hfits.2.1 h with ⟨hnone, hpart⟩ | ⟨rest, rfl, hrest⟩
    · exact Or.inl (hneed _ hfits.2 hnone hpart)
    · obtain rfl := List.prefix_nil.mp hrest
      exact Or.inr (Or.inl ⟨rfl, hline _ [] hfits.2, List.append_nil _⟩)
  | cons line lines =>
    have hfit := hfits.1 line List.mem_cons_self
    rw [asBytes_encodeLines_cons, List.append_assoc, ← asBytes_encodeBody] at h
    rcases prefix_wireLine hfit.1 h with ⟨hnone, hpart⟩ | ⟨rest, rfl, hrest⟩
    · exact Or.inl (hneed _ hfit hnone hpart)
    · exact Or.inr (Or.inr ⟨line, rest, lines, rfl, hline _ rest hfit, rfl, hrest⟩)

end Prefixes

section Steps

variable {limits : Limits} {fwd : Bool} {nowMs : ℕ} {wake : Conn.Wake} {c c' : Conn} {h h' : Hub}
  {request : Request} {sent output got : Bytes} {done more : List Effect} {pushes : List Push}
  {before : List Reply} {r : Reply}

/-- At the head of the loop the task is between two commands. -/
theorem Conn.idle_top (hphase : c.phase = .top) : c.Idle := by
  refine ⟨?_, ?_, ?_⟩ <;> rw [hphase]
  · rfl
  · simp [Phase.pushes]
  · simp

/-- A line as the client sends it. -/
theorem send_eq_wireLine (s : Str) : Client.send s = wireLine s := (asBytes_append s frame.CRLF).symm

/-- Pushes behind the reply. -/
theorem Request.Answered.append (h : request.Answered done before r) (hp : Pushed pushes more) :
    request.Answered (done ++ more) before r := by
  obtain ⟨⟨ahead, after, hahead, hafter, hout⟩, hends⟩ := h
  refine ⟨⟨ahead, after ++ pushes, hahead, ?_, ?_⟩, ?_⟩
  · exact List.forall_mem_append.mpr ⟨hafter, hp.framed⟩
  · rw [outputOf_append, hout, hp.output]
    simp
  · rw [calledOf_append, hp.called, List.append_nil]
    exact hends

/-- **The line that is taken** is that of the request. -/
theorem Request.Sends.line_taken {line rest : Bytes} (hsends : request.Sends sent output)
    (hline : '\n' ∉ request.line) (hgot : c.rbuf <+: sent)
    (htake : takeLine limits.maxCommandLineBytes c.rbuf = (.line line, rest)) :
    line = Str.asBytes request.line ∧ c.rbuf = Client.send request.line ++ rest := by
  obtain ⟨tail, hsent⟩ : ∃ tail, sent = wireLine request.line ++ tail := by
    rcases hsends.shape with hsent | ⟨_, hsent⟩
    · exact ⟨[], by rw [hsent, send_eq_wireLine, List.append_nil]⟩
    · exact ⟨_, by rw [hsent, send_eq_wireLine]⟩
  rw [hsent] at hgot
  rcases prefix_wireLine hline hgot with ⟨hnone, _⟩ | ⟨rest', hrbuf, _⟩
  · obtain ⟨raw, hraw, _⟩ := takeLine_eq_line_iff.mp htake
    rw [hraw] at hnone
    exact absurd (by simp) hnone
  · rw [hrbuf, takeLine_wireLine hline] at htake
    obtain ⟨htaken, rfl⟩ := Prod.mk.inj htake
    split at htaken
    · cases htaken
    · exact ⟨(LineTake.line.inj htaken).symm, by rw [hrbuf, send_eq_wireLine]⟩

/-- **The line is taken and answered**, or its body is invited. -/
theorem Request.Stage.command {line rest : Bytes} (hpushed : Pushed pushes done)
    (hsend : request.Sendable limits) (hsends : request.Sends sent output)
    (hhub : h.Framed c.id) (hgot : c.rbuf <+: sent)
    (htake : takeLine limits.maxCommandLineBytes c.rbuf = (.line line, rest))
    (hout : outputOf (done ++ .command line ::
      (Conn.handleCommand limits fwd nowMs { c with rbuf := rest } h line).2.2) <+: output) :
    request.Stage limits sent
      (Conn.handleCommand limits fwd nowMs { c with rbuf := rest } h line).1
      (done ++ .command line ::
        (Conn.handleCommand limits fwd nowMs { c with rbuf := rest } h line).2.2) c.rbuf := by
  obtain ⟨rfl, hrbuf⟩ := hsends.line_taken hsend.line hgot htake
  have hreacts : request.Reacts
      (Conn.handleCommand limits fwd nowMs { c with rbuf := rest } h (Str.asBytes request.line)).1
      (Conn.handleCommand limits fwd nowMs { c with rbuf := rest } h
        (Str.asBytes request.line)).2.2 := handleCommand_reacts hhub.types
  have hleft : (Conn.handleCommand limits fwd nowMs { c with rbuf := rest } h
      (Str.asBytes request.line)).1.rbuf = rest :=
    (Conn.handleCommand_conn limits fwd nowMs { c with rbuf := rest } h _).2.1
  have hnone := takenOf_notTaking
    (handleCommand_notTaking limits fwd nowMs { c with rbuf := rest } h (Str.asBytes request.line))
  generalize Conn.handleCommand limits fwd nowMs { c with rbuf := rest } h
    (Str.asBytes request.line) = result at *
  obtain ⟨c', h', more⟩ := result
  dsimp only at *
  have htaken : takenOf (done ++ .command (Str.asBytes request.line) :: more) =
      [request.lineTaken] := by
    rw [takenOf_append, hpushed.taken, takenOf_cons rfl, hnone]
    rfl
  have hcalled : calledOf (done ++ .command (Str.asBytes request.line) :: more) =
      calledOf more := by
    rw [calledOf_append, hpushed.called]
    rfl
  have hwritten : outputOf (done ++ .command (Str.asBytes request.line) :: more) =
      outStream (pushes.map .push) ++ outputOf more := by
    rw [outputOf_append, hpushed.output]
    rfl
  cases hreacts with
  | replied r hends haccepted houtput hphase =>
    have hanswered : request.Answered (done ++ .command (Str.asBytes request.line) :: more) [] r :=
      ⟨⟨pushes, [], hpushed.framed, by simp, by rw [hwritten, houtput]; simp⟩, hcalled ▸ hends⟩
    obtain ⟨after, hafter⟩ := hout
    have hsent : sent = Client.send request.line := by
      refine hsends.alone pushes r after hpushed.framed hends.final hends.framed haccepted ?_
      rw [← hafter, hwritten, houtput, List.append_assoc]
      simp [OutUnit.serialize]
    have hrest : rest = [] := by
      have hlen := hgot.length_le
      rw [hrbuf, hsent, List.length_append] at hlen
      exact List.length_eq_zero_iff.mp (by omega)
    refine .answered hanswered haccepted htaken hsent ?_ ?_
    · rw [hrbuf, hrest, List.append_nil, hsent]
    · rcases hphase with ⟨hphase, _⟩ | hphase
      · exact Or.inl ⟨Conn.idle_top hphase, hleft.trans hrest⟩
      · exact Or.inr (by rw [hphase]; rfl)
  | invited typeName key hparse houtput hcall hphase =>
    refine .invited hpushed.framed hparse ?_ (hcalled.trans hcall)
      (show _ = request.lineTaken :: ([] : List Str).map bodyLineTaken from htaken) rfl ?_ rfl
      (Or.inl hphase)
    · rw [hwritten, houtput]
      simp
    · rw [hrbuf, hleft]
      simp

/-- A body as it is sent, behind some of its lines. -/
theorem asBytes_encodeBody_append (lines left : List Str) :
    Str.asBytes (frame.encodeBody (lines ++ left)) =
      Str.asBytes (frame.encodeLines lines) ++ Str.asBytes (frame.encodeBody left) := by
  rw [← asBytes_append]
  simp [frame.encodeBody, frame.encodeLines]

/-- Lines as they are sent, and one more. -/
theorem asBytes_encodeLines_append_singleton (lines : List Str) (line : Str) :
    Str.asBytes (frame.encodeLines (lines ++ [line])) =
      Str.asBytes (frame.encodeLines lines) ++ wireLine (frame.stuffLine line) := by
  rw [wireLine, ← asBytes_append]
  simp [frame.encodeLines]

/-- The lines taken of a body are some of all that is taken. -/
theorem Request.taken_prefix {lines left : List Str} (hbody : request.body = lines ++ left) :
    request.lineTaken :: lines.map bodyLineTaken <+: request.allTaken := by
  unfold Request.allTaken
  rw [hbody, List.map_append, List.append_assoc]
  exact List.prefix_cons_inj _ |>.mpr (List.prefix_append _ _)

/-- **What is buffered of a body** is the rest of it, as far as it was sent. -/
theorem Request.Sends.body_buffered {lines left : List Str} (hsends : request.Sends sent output)
    (hbody : request.body = lines ++ left)
    (hgot : Client.send request.line ++ Str.asBytes (frame.encodeLines lines) ++ c.rbuf <+: sent) :
    c.rbuf <+: Str.asBytes (frame.encodeBody left) := by
  rcases hsends.shape with hsent | ⟨_, hsent⟩
  · have hlen := hgot.length_le
    rw [hsent, List.length_append, List.length_append] at hlen
    obtain hnil : c.rbuf = [] := List.length_eq_zero_iff.mp (by omega)
    rw [hnil]
    exact List.nil_prefix
  · rw [hsent, Request.bodyOctets, hbody, asBytes_encodeBody_append, ← List.append_assoc,
      List.prefix_append_right_inj] at hgot
    exact hgot

/-- **A line of the body is taken**, or its end, and the body is answered. -/
theorem Request.Stage.bodyLine {typeName key : Str} {lines left : List Str}
    (hpushes : ∀ p ∈ pushes, p.Framed)
    (hparse : command.parse request.line = .ok (.publish typeName key))
    (houtput : outputOf done = outStream (pushes.map .push ++ [.reply invitation]))
    (hcalled : calledOf done = [.publishPrecheck typeName key])
    (htaken : takenOf done = request.lineTaken :: lines.map bodyLineTaken)
    (hbody : request.body = lines ++ left)
    (hphase : c.phase =
      .body typeName key ((lines.map frame.stuffLine).foldl (BodyAcc.push limits) {}))
    (hsend : request.Sendable limits) (hsends : request.Sends sent output)
    (hgot : Client.send request.line ++ Str.asBytes (frame.encodeLines lines) ++ c.rbuf <+: sent)
    (hgo : Conn.go limits fwd nowMs c h = some (c', h', more)) :
    request.Stage limits sent c' (done ++ more)
        (Client.send request.line ++ Str.asBytes (frame.encodeLines lines) ++ c.rbuf) ∧
      (more.any Conn.isWrite = true → takenOf (done ++ more) = request.allTaken) := by
  have hpublishes := Request.publishes_of_parse hparse
  have hfits : BlockFits limits.maxBodyLineBytes left := by
    have hall := hsend.body hpublishes
    rw [hbody] at hall
    exact ⟨fun line hl => hall.1 line (List.mem_append_right _ hl), hall.2⟩
  rw [Conn.go_body hphase] at hgo
  rcases takeLine_body hfits (hsends.body_buffered hbody hgot) with
    ⟨htake, hnone⟩ | ⟨rfl, htake, hrbuf⟩ | ⟨line, rest, left, rfl, htake, hrbuf, _⟩
  · -- No line is complete.
    rw [htake] at hgo
    obtain ⟨rfl, rfl, rfl⟩ := by simpa only [Option.some.injEq, Prod.mk.injEq] using hgo
    refine ⟨?_, fun hwrite => by cases hwrite⟩
    rw [List.append_nil]
    exact .invited hpushes hparse houtput hcalled htaken hbody rfl rfl (Or.inr ⟨rfl, hnone⟩)
  · -- The body ends.
    have hdot : fromUtf8Lossy DOT = frame.TERMINATOR :=
      (fromUtf8Lossy_eq_terminator_iff DOT).mpr rfl
    rw [htake] at hgo
    dsimp only at hgo
    rw [if_pos hdot] at hgo
    obtain ⟨rfl, rfl, rfl⟩ := by simpa only [Option.some.injEq, Prod.mk.injEq] using hgo
    rw [List.append_nil] at hbody
    set result := ((lines.map frame.stuffLine).foldl (BodyAcc.push limits) {}).result with hresult
    have hlines : ∀ body, result = some body → body = request.body := by
      intro body hsome
      rw [hresult, BodyAcc.result_stuffed] at hsome
      split at hsome
      · cases hsome
      · rw [hbody, Option.some.inj hsome]
    have hbefore : calledOf (done ++ [.bodyLine DOT]) = [.publishPrecheck typeName key] := by
      rw [calledOf_append, hcalled]
      rfl
    obtain ⟨r, hends, hreply⟩ : ∃ r, request.Ends (calledOf (done ++ [.bodyLine DOT] ++
        (Conn.finishPublish fwd { c with rbuf := [] } h typeName key result).2.2)) r ∧
        outputOf (Conn.finishPublish fwd { c with rbuf := [] } h typeName key result).2.2 =
          outStream [.reply r] := finishPublish_answers hparse hlines hbefore
    rw [List.append_assoc] at hends
    have htaken' : takenOf (done ++ .bodyLine DOT :: (Conn.finishPublish fwd { c with rbuf := [] } h
        typeName key result).2.2) = request.allTaken := by
      rw [takenOf_append, htaken, takenOf_cons rfl,
        takenOf_notTaking (Conn.finishPublish_notTaking fwd _ h typeName key result)]
      unfold Request.allTaken
      rw [hbody]
      rfl
    have hall : request.bodyOctets = Str.asBytes (frame.encodeLines lines) ++ c.rbuf := by
      rw [Request.bodyOctets, hbody, asBytes_encodeBody, hrbuf]
    have hsent : sent = Client.send request.line ++ request.bodyOctets := by
      rcases hsends.shape with hsent | ⟨_, hsent⟩
      · have hlen := hgot.length_le
        have hpos : 0 < (wireLine frame.TERMINATOR).length := by decide
        rw [hsent, hrbuf, List.length_append, List.length_append] at hlen
        omega
      · exact hsent
    refine ⟨.finished hparse ⟨⟨pushes, [], hpushes, by simp, ?_⟩, hends⟩ htaken' hsent ?_ ?_,
      fun _ => htaken'⟩
    · rw [outputOf_append, houtput]
      change _ ++ outputOf (Conn.finishPublish fwd _ h typeName key result).2.2 = _
      rw [hreply]
      simp
    · rw [hsent, hall, List.append_assoc]
    · rw [Conn.finishPublish_fst]
      exact Or.inl ⟨Conn.idle_top rfl, rfl⟩
  · -- A line of the body.
    have hdot : fromUtf8Lossy (Str.asBytes (frame.stuffLine line)) ≠ frame.TERMINATOR := by
      rw [fromUtf8Lossy_asBytes]
      exact frame.stuffLine_ne_terminator line
    rw [htake] at hgo
    dsimp only at hgo
    rw [if_neg hdot] at hgo
    obtain ⟨rfl, rfl, rfl⟩ := by simpa only [Option.some.injEq, Prod.mk.injEq] using hgo
    refine ⟨.invited hpushes hparse ?_ ?_ ?_ (hbody.trans (List.append_cons lines line left)) ?_ rfl
      (Or.inl ?_), fun hwrite => by cases hwrite⟩
    · rw [outputOf_append, houtput]
      exact List.append_nil _
    · rw [calledOf_append, hcalled]
      rfl
    · rw [takenOf_append, htaken, List.map_append]
      rfl
    · rw [asBytes_encodeLines_append_singleton, hrbuf]
      simp only [List.append_assoc]
    · rw [List.map_append, List.foldl_append, fromUtf8Lossy_asBytes]
      rfl

/-- Where a write fails before the reply, the connection is lost. -/
theorem Request.Stage.cut (hpushes : ∀ p ∈ pushes, p.Framed)
    (hbefore : before = [] ∨ before = [invitation] ∧ request.Publishes)
    (houtput : outputOf done = outStream (pushes.map .push ++ before.map .reply))
    (htaken : takenOf (done ++ more) <+: request.allTaken) (hphase : c'.phase = .ended .io) :
    request.Stage limits sent c' (done ++ more.takeWhile fun e => !Conn.isWrite e) got := by
  refine .lost hpushes hbefore ?_ ?_ (by rw [hphase]; rfl)
  · rw [outputOf_append, outputOf_cut, List.append_nil, houtput]
  · refine List.IsPrefix.trans ?_ htaken
    rw [takenOf_append, takenOf_append, List.prefix_append_right_inj]
    exact (List.takeWhile_prefix _).filter _

/-- **While it waits**, a task pushes and reads, or it has the line. -/
theorem Request.Stage.step_waiting (hpushed : Pushed pushes done) (hidle : c.Idle)
    (hsend : request.Sendable limits) (hsends : request.Sends sent output) (hhub : h.Framed c.id)
    (hstep : Conn.step limits fwd nowMs wake c h = some (c', h', more))
    (hgot : c.rbuf ++ (Conn.reads wake.received).flatten <+: sent)
    (hout : outputOf (done ++ more) <+: output) :
    request.Stage limits sent c' (done ++ more)
      (c.rbuf ++ (Conn.reads wake.received).flatten) := by
  rcases hidle.step hhub hstep with ⟨after, hafter, hnext⟩ | ⟨hphase, hfound⟩
  · have hall := hpushed.append hafter
    rcases hnext with ⟨hidle', hrbuf⟩ | ⟨hover, _⟩
    · exact .waiting hall hidle' hrbuf.symm
    · refine .lost hall.framed (Or.inl rfl) ?_ ?_ hover
      · rw [hall.output, List.map_nil, List.append_nil]
      · rw [hall.taken]
        exact List.nil_prefix
  · -- A line is found, which is that of the request or too long.
    have hgot' : c.rbuf <+: sent := (List.prefix_append _ _).trans hgot
    cases Conn.step_steps hstep with
    | go hgo =>
      rw [show (Conn.reads Conn.Wake.go.received).flatten = [] from rfl, List.append_nil]
      cases Conn.go_goes hgo with
      | command _ htake => exact .command hpushed hsend hsends hhub hgot' htake hout
      | commandTooLong _ htake =>
        refine .refused hpushed.framed ?_ ?_ rfl
        · rw [outputOf_append, hpushed.output, outputOf_writeLine]
          simp [refusal]
        · rw [takenOf_append, hpushed.taken]
          rfl
      | commandNeed _ htake =>
        rw [htake] at hfound
        exact absurd rfl hfound
      | greet hother | noDrops hother | drain hother | flushed hother | notice hother
      | deliver hother | terminator hother | bodyLine hother | bodyTooLong hother
      | bodyNeed hother | remove hother => exact absurd (hphase.symm.trans hother) (by simp)
    | writeErr hgo hwrite =>
      have houtput : outputOf done = outStream (pushes.map .push ++ ([] : List Reply).map .reply) := by
        rw [hpushed.output, List.map_nil, List.append_nil]
      refine .cut hpushed.framed (Or.inl rfl) houtput ?_ rfl
      cases Conn.go_goes hgo with
      | @command line rest _ htake =>
        obtain ⟨rfl, _⟩ := hsends.line_taken hsend.line hgot' htake
        rw [takenOf_append, hpushed.taken, takenOf_cons rfl, takenOf_notTaking
          (handleCommand_notTaking limits fwd nowMs { c with rbuf := rest } h _)]
        exact (List.prefix_append _ _ : [request.lineTaken] <+: _)
      | commandTooLong =>
        rw [takenOf_append, hpushed.taken]
        exact List.nil_prefix
      | commandNeed => cases hwrite
      | greet hother | noDrops hother | drain hother | flushed hother | notice hother
      | deliver hother | terminator hother | bodyLine hother | bodyTooLong hother
      | bodyNeed hother | remove hother => exact absurd (hphase.symm.trans hother) (by simp)
    | read hother | readBody hother | closed hother | closedBody hother | recv hother
    | notified hother => exact absurd (hphase.symm.trans hother) (by simp)

/-- **While it reads a body**, a task takes its lines, or the connection is lost. -/
theorem Request.Stage.step_invited {typeName key : Str} {lines left : List Str} {acc : BodyAcc}
    (hpushes : ∀ p ∈ pushes, p.Framed)
    (hparse : command.parse request.line = .ok (.publish typeName key))
    (houtput : outputOf done = outStream (pushes.map .push ++ [.reply invitation]))
    (hcalled : calledOf done = [.publishPrecheck typeName key])
    (htaken : takenOf done = request.lineTaken :: lines.map bodyLineTaken)
    (hbody : request.body = lines ++ left)
    (hacc : acc = (lines.map frame.stuffLine).foldl (BodyAcc.push limits) {})
    (hphase : c.phase = .body typeName key acc ∨ c.phase = .bodyRead typeName key acc ∧ LF ∉ c.rbuf)
    (hsend : request.Sendable limits) (hsends : request.Sends sent output)
    (hstep : Conn.step limits fwd nowMs wake c h = some (c', h', more))
    (hgot : Client.send request.line ++ Str.asBytes (frame.encodeLines lines) ++ c.rbuf ++
      (Conn.reads wake.received).flatten <+: sent) :
    request.Stage limits sent c' (done ++ more)
      (Client.send request.line ++ Str.asBytes (frame.encodeLines lines) ++ c.rbuf ++
        (Conn.reads wake.received).flatten) := by
  have hpublishes := Request.publishes_of_parse hparse
  have hgot' := (List.prefix_append _ _).trans hgot
  have hlost : c'.phase = .ended .midBody → more = [] → request.Stage limits sent c' (done ++ more)
      (Client.send request.line ++ Str.asBytes (frame.encodeLines lines) ++ c.rbuf ++
        (Conn.reads wake.received).flatten) := by
    rintro hend rfl
    refine .lost hpushes (Or.inr ⟨rfl, hpublishes⟩) ?_ ?_ (by rw [hend]; rfl)
    · rw [List.append_nil, houtput]
      rfl
    · rw [List.append_nil, htaken]
      exact Request.taken_prefix hbody
  rcases hphase with hphase | ⟨hphase, _⟩
  · rw [hacc] at hphase
    cases Conn.step_steps hstep with
    | go hgo =>
      rw [show (Conn.reads Conn.Wake.go.received).flatten = [] from rfl, List.append_nil]
      exact (Request.Stage.bodyLine hpushes hparse houtput hcalled htaken hbody hphase hsend hsends
        hgot' hgo).1
    | writeErr hgo hwrite =>
      have hall := (Request.Stage.bodyLine hpushes hparse houtput hcalled htaken hbody hphase hsend
        hsends hgot' hgo).2 hwrite
      exact .cut hpushes (Or.inr ⟨rfl, hpublishes⟩) houtput (hall ▸ List.prefix_refl _) rfl
    | read hother | readBody hother | closed hother | closedBody hother | recv hother
    | notified hother => exact absurd (hphase.symm.trans hother) (by simp)
  · cases Conn.step_steps hstep with
    | readBody hother =>
      obtain ⟨rfl, rfl, rfl⟩ := Phase.bodyRead.inj (hphase.symm.trans hother)
      rw [List.append_nil]
      refine .invited hpushes hparse houtput hcalled htaken hbody ?_ hacc (Or.inl rfl)
      simp [Conn.reads, Conn.Wake.received]
    | closedBody => exact hlost rfl rfl
    | go hgo | writeErr hgo => simp [Conn.go, hphase] at hgo
    | read hother | closed hother | recv hother | notified hother =>
      exact absurd (hphase.symm.trans hother) (by simp)

/-- **Every step** leaves the task in a stage of the request. -/
theorem Request.Stage.step (hstage : request.Stage limits sent c done got)
    (hsend : request.Sendable limits) (hsends : request.Sends sent output) (hhub : h.Framed c.id)
    (hstep : Conn.step limits fwd nowMs wake c h = some (c', h', more))
    (hgot : got ++ (Conn.reads wake.received).flatten <+: sent)
    (hout : outputOf (done ++ more) <+: output) :
    request.Stage limits sent c' (done ++ more) (got ++ (Conn.reads wake.received).flatten) := by
  -- Nothing is read behind all that is sent.
  have hnone : got = sent → (Conn.reads wake.received).flatten = [] := by
    rintro rfl
    have hlen := hgot.length_le
    rw [List.length_append] at hlen
    exact List.length_eq_zero_iff.mp (by omega)
  cases hstage with
  | waiting hpushed hidle hrbuf =>
    rw [hrbuf] at hgot ⊢
    exact Request.Stage.step_waiting hpushed hidle hsend hsends hhub hstep hgot hout
  | refused hpushes houtput htaken hover =>
    obtain ⟨hpushed, hover', hread⟩ := Conn.over_step hover hstep
    refine .refused hpushes ?_ ?_ hover'
    · rw [outputOf_append, hpushed.output, houtput]
      exact List.append_nil _
    · rw [takenOf_append, hpushed.taken, htaken]
      rfl
  | lost hpushes hbefore houtput htaken hover =>
    obtain ⟨hpushed, hover', hread⟩ := Conn.over_step hover hstep
    refine .lost hpushes hbefore ?_ ?_ hover'
    · rw [outputOf_append, hpushed.output, houtput]
      exact List.append_nil _
    · rw [takenOf_append, hpushed.taken, List.append_nil]
      exact htaken
  | answered hanswered haccepted htaken hsent hall hsettled =>
    obtain ⟨after, hpushed, hsettled'⟩ := hsettled.step hhub hstep (hnone hall)
    refine .answered (hanswered.append hpushed) haccepted ?_ hsent ?_ hsettled'
    · rw [takenOf_append, hpushed.taken, List.append_nil, htaken]
    · rw [hnone hall, List.append_nil, hall]
  | invited hpushes hparse houtput hcalled htaken hbody hrbuf hacc hphase =>
    rw [hrbuf] at hgot ⊢
    exact Request.Stage.step_invited hpushes hparse houtput hcalled htaken hbody hacc hphase hsend
      hsends hstep hgot
  | finished hparse hanswered htaken hsent hall hsettled =>
    obtain ⟨after, hpushed, hsettled'⟩ := hsettled.step hhub hstep (hnone hall)
    refine .finished hparse (hanswered.append hpushed) ?_ hsent ?_ hsettled'
    · rw [takenOf_append, hpushed.taken, List.append_nil, htaken]
    · rw [hnone hall, List.append_nil, hall]

/-- The hub holds nothing that the connection could not write as lines. -/
def framedHub (c : Conn) (_ : List Conn.Io) (a : Hub × ℕ × Conn.Wake) : Prop := a.1.Framed c.id

/-- **A run of the task** that begins between two commands, and reads what is sent for one
request, ends in a stage of the request. -/
theorem Request.Stage.run {c₀ : Conn} {io : List Conn.Io} (hsettled : c₀.Settled)
    (hsend : request.Sendable limits) (hsends : request.Sends sent output)
    (hrun : Transition.Run (Conn.task limits fwd) framedHub c₀ c io)
    (hgot : (Conn.reads io).flatten <+: sent) (hout : outputOf (Conn.effects io) <+: output) :
    request.Stage limits sent c (Conn.effects io) (Conn.reads io).flatten := by
  have hinit : request.Stage limits sent c₀ (Conn.effects []) (Conn.reads []).flatten := by
    rcases hsettled with ⟨hidle, hnil⟩ | hover
    · exact .waiting .nil hidle hnil.symm
    · exact .lost (show ∀ p ∈ ([] : List Push), p.Framed by simp) (Or.inl rfl) rfl List.nil_prefix
        hover
  refine hrun.invariant_of_history
    (H := fun io => (Conn.reads io).flatten <+: sent ∧ outputOf (Conn.effects io) <+: output)
    (I := fun c io => request.Stage limits sent c (Conn.effects io) (Conn.reads io).flatten)
    ?_ hinit ?_ ⟨hgot, hout⟩
  · intro past es hpast
    rw [Conn.reads_append, Conn.effects_append, outputOf_append, List.flatten_append] at hpast
    exact ⟨(List.prefix_append _ _).trans hpast.1, (List.prefix_append _ _).trans hpast.2⟩
  · rintro c past ⟨h, nowMs, wake⟩ c' es hstage hhub hs hpast
    obtain ⟨⟨c₁, h₁, more⟩, hstep, hres⟩ := Option.map_eq_some_iff.mp hs
    obtain ⟨rfl, rfl⟩ := Prod.mk.inj hres
    have hquiet : Conn.effects wake.received = [] := by cases wake <;> rfl
    simp only [Conn.reads_append, Conn.effects_append, Conn.reads_did, Conn.effects_did,
      List.append_nil, hquiet, List.nil_append, List.flatten_append] at hpast ⊢
    exact hstage.step hsend hsends hhub hstep hpast.1 hpast.2

end Steps

end MacroBus
