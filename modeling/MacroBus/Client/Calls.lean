import MacroBus.Client.Reading
import MacroBus.Proto.Requests

/-!
# The calls of a client

Every method that sends a command is one call: it sends a line, skips the pushes in front of
the reply, and makes its result of the reply. Only a publish goes on behind an invitation.
A client that meets a line it cannot read has no reply, whatever the cause.
-/

namespace MacroBus

/-- The lines of the push hold no line end. -/
def Push.Framed : Push → Prop
  | .message msg => '\n' ∉ (Push.message msg).text ∧ ∀ line ∈ msg.body, '\n' ∉ line
  | .drop typeName count => '\n' ∉ (Push.drop typeName count).text
  | .note text => '\n' ∉ text

instance : DecidablePred Push.Framed
  | .message msg => inferInstanceAs
      (Decidable ('\n' ∉ (Push.message msg).text ∧ ∀ line ∈ msg.body, '\n' ∉ line))
  | .drop typeName count => inferInstanceAs (Decidable ('\n' ∉ (Push.drop typeName count).text))
  | .note text => inferInstanceAs (Decidable ('\n' ∉ text))

/-- The lines of the reply hold no line end, and it has a block exactly where its code
announces one. -/
structure Reply.Framed (r : Reply) : Prop where
  /-- It is no push. -/
  range : 200 ≤ r.code ∧ r.code < 1000
  /-- The first line. -/
  text : '\n' ∉ r.text
  /-- The lines of the block. -/
  lines : ∀ lines, r.block = some lines → ∀ line ∈ lines, '\n' ∉ line
  /-- The block. -/
  block : r.block.isSome ↔ r.code = status.TYPE_LIST ∨ r.code = status.INFO_FOLLOWS

/-- The code of the reply with which a client takes the command for done. -/
def Command.expected : Command → Code
  | .register .. => status.REGISTERED
  | .subscribe _ => status.SUBSCRIBED
  | .unsubscribe _ => status.UNSUBSCRIBED
  | .publish .. => status.ACCEPTED
  | .listTypes => status.TYPE_LIST
  | .capabilities | .help => status.INFO_FOLLOWS
  | .quit => status.CLOSING

/-- A call of a client: the command it stands for, and the body it would publish. -/
structure Request where
  /-- The command. -/
  command : Command
  /-- The lines of the body. -/
  body : List Str := []

namespace Request

/-- The line that is sent. -/
def line (r : Request) : Str := r.command.render

/-- The octets of the body, as they are sent. -/
def bodyOctets (r : Request) : Bytes := Str.asBytes (frame.encodeBody r.body)

/-- What the call returns with its last reply. -/
def verdict (r : Request) (reply : Reply) : Except Client.Error Unit :=
  if reply.code = r.command.expected then .ok () else .error (.server reply.code reply.text)

/-- Whether the call publishes. -/
def Publishes (r : Request) : Prop := ∃ typeName key, r.command = .publish typeName key

end Request

namespace Client

/-- The error is a reply of the server. -/
def Error.isReply : Error → Bool
  | .server .. => true
  | _ => false

/-- The result of a call was made of a reply. -/
def BearsReply (result : Except Error Unit) : Prop := ∀ e, result = .error e → e.isReply = true

/-- The method of a call, without the value it returns. -/
def perform (k : Client) (r : Request) : Outcome Unit × Client :=
  match r.command with
  | .register typeName key => k.register typeName key
  | .subscribe typeName => k.subscribe typeName
  | .unsubscribe typeName => k.unsubscribe typeName
  | .publish typeName key => k.publish typeName key r.body
  | .listTypes => (k.listTypes.1.map fun _ => (), k.listTypes.2)
  | .capabilities => (k.capabilities.1.map fun _ => (), k.capabilities.2)
  | .help => (k.help.1.map fun _ => (), k.help.2)
  | .quit => k.quit

section Reading

variable {c : Client} {rest : Bytes}

/-- No reply was read. -/
def NoReply (c : Client) : Prop := ∃ e c', c.readResponse = (.error e, c') ∧ e.isReply = false

/-- **A line that is sent** is read back, or is too long. -/
theorem readLine_wire {s : Str} (h : c.io.remaining = wireLine s ++ rest) (hs : '\n' ∉ s) :
    (∃ io, c.readLine = (.ok s, { c with io := io }) ∧ io.remaining = rest ∧
      s.len + 1 ≤ c.maxLine) ∨
      ∃ c', c.readLine = (.error (.protocol "line too long".toList []), c') := by
  by_cases hlen : s.len + 1 ≤ c.maxLine
  · obtain ⟨io, hread, hrest⟩ := readLine_fits h ⟨hs, hlen⟩
    exact Or.inl ⟨io, hread, hrest, hlen⟩
  · have hread := readLine_tooLong h hs (by omega)
    exact Or.inr ⟨c.readLine.2, Prod.ext hread rfl⟩

/-- **A block that is sent** is read back, or a line of it is too long. -/
theorem readBlock_wire {lines : List Str} (htwo : 2 ≤ c.maxLine)
    (h : c.io.remaining = Str.asBytes (frame.encodeBody lines) ++ rest)
    (hlines : ∀ line ∈ lines, '\n' ∉ line) :
    (∃ io, c.readBlock = (.ok lines, { c with io := io }) ∧ io.remaining = rest) ∨
      ∃ c', c.readBlock = (.error (.protocol "line too long".toList []), c') := by
  have hstuffed : ∀ line ∈ lines, '\n' ∉ frame.stuffLine line :=
    fun line hl => newline_notMem_stuffLine (hlines line hl)
  by_cases hfits : ∀ line ∈ lines, (frame.stuffLine line).len + 1 ≤ c.maxLine
  · exact Or.inl (readBlock_encodeBody h
      ⟨fun line hl => ⟨hstuffed line hl, hfits line hl⟩, by decide, htwo⟩)
  · push Not at hfits
    have hread := readBlockFrom_tooLong [] h hlines hfits
    exact Or.inr ⟨c.readBlock.2, Prod.ext hread rfl⟩

/-- A line with a code leaves room for the line of a dot. -/
theorem two_le_of_line {maxLine code : ℕ} {text : Str} (hlow : 100 ≤ code) (hhigh : code < 1000)
    (h : (decimal code ++ ' ' :: text).len + 1 ≤ maxLine) : 2 ≤ maxLine := by
  rw [Str.len_append, len_decimal_code hlow hhigh] at h
  omega

/-- Behind the first line of a push, the rest of it is read, or there is an error. -/
theorem readPush_framed {p : Push} (hp : p.Framed) (htwo : 2 ≤ c.maxLine)
    (h : c.io.remaining = Str.asBytes p.block ++ rest) :
    (∃ ev io, c.readPush p.code p.text = (.ok ev, { c with io := io }) ∧ io.remaining = rest) ∨
      ∃ e c', c.readPush p.code p.text = (.error e, c') ∧ e.isReply = false := by
  cases p with
  | message msg =>
    rcases readBlock_wire htwo h hp.2 with ⟨io, hblock, hrest⟩ | ⟨c', hblock⟩
    · unfold readPush
      simp only [Push.code, if_true]
      split
      · exact Or.inr ⟨_, _, rfl, rfl⟩
      · split
        · exact Or.inr ⟨_, _, rfl, rfl⟩
        · rw [hblock]
          exact Or.inl ⟨_, io, rfl, hrest⟩
    · unfold readPush
      simp only [Push.code, if_true]
      split
      · exact Or.inr ⟨_, _, rfl, rfl⟩
      · split
        · exact Or.inr ⟨_, _, rfl, rfl⟩
        · rw [hblock]
          exact Or.inr ⟨_, c', rfl, rfl⟩
  | drop typeName count =>
    have hrest : c.io.remaining = rest := by simpa [Push.block] using h
    have hcode : ¬(Push.drop typeName count).code = status.MSG :=
      show ¬status.DROP = status.MSG by decide
    have hdrop : (Push.drop typeName count).code = status.DROP := rfl
    unfold readPush
    simp only [if_neg hcode, if_pos hdrop]
    split
    · exact Or.inr ⟨_, _, rfl, rfl⟩
    · split
      · exact Or.inr ⟨_, _, rfl, rfl⟩
      · exact Or.inl ⟨_, c.io, rfl, hrest⟩
  | note text =>
    have hrest : c.io.remaining = rest := by simpa [Push.block] using h
    have hmsg : ¬(Push.note text).code = status.MSG := show ¬status.NOTE = status.MSG by decide
    have hdrop : ¬(Push.note text).code = status.DROP := show ¬status.NOTE = status.DROP by decide
    have hnote : (Push.note text).code = status.NOTE := rfl
    unfold readPush
    simp only [if_neg hmsg, if_neg hdrop, if_pos hnote]
    exact Or.inl ⟨_, c.io, rfl, hrest⟩

/-- A push whose lines hold no line end has no line end in its first line. -/
theorem newline_notMem_pushLine {p : Push} (hp : p.Framed) :
    '\n' ∉ decimal p.code ++ ' ' :: p.text := by
  have htext : '\n' ∉ p.text := by
    cases p with
    | message msg => exact hp.1
    | drop typeName count => exact hp
    | note text => exact hp
  simp [htext, notMem_decimal (show '\n'.isDigit = false by decide)]

/-- **Pushes in front of a reply** are skipped, or there is no reply. -/
theorem readResponse_pushes {pushes : List Push} (hpushes : ∀ p ∈ pushes, p.Framed)
    (h : c.io.remaining = outStream (pushes.map .push) ++ rest) :
    c.NoReply ∨ ∃ io pending, c.readResponse =
      readResponse { c with io := io, pending := pending } ∧ io.remaining = rest := by
  induction pushes generalizing c with
  | nil => exact Or.inr ⟨c.io, c.pending, rfl, h⟩
  | cons p pushes ih =>
    have hp := hpushes p List.mem_cons_self
    obtain ⟨hlow, hhigh⟩ := code_range p
    rw [List.map_cons, outStream_cons, List.append_assoc] at h
    change c.io.remaining = Str.asBytes p.serialize ++ _ at h
    rw [asBytes_push, List.append_assoc] at h
    rcases readLine_wire h (newline_notMem_pushLine hp) with ⟨io, hline, hrest, hlen⟩ | ⟨c', hline⟩
    · have hsplit := splitStatus_statusLine hlow (lt_trans hhigh (by decide)) p.text
      have hasync : status.isAsync p.code = true := (status.isAsync_iff _).mpr ⟨hlow, hhigh⟩
      have htwo : 2 ≤ ({ c with io := io } : Client).maxLine :=
        two_le_of_line hlow (lt_trans hhigh (by decide)) hlen
      rcases readPush_framed hp htwo hrest with ⟨ev, io', hpush, hrest'⟩ | ⟨e, c', hpush, he⟩
      · rw [readResponse_of_push hline hsplit hasync hpush]
        rcases ih (c := { c with io := io', pending := c.pending ++ [ev] })
          (fun q hq => hpushes q (.tail p hq)) hrest' with ⟨e, c', hread, he⟩ | hmore
        · refine Or.inl ⟨e, c', ?_, he⟩
          rw [readResponse_of_push hline hsplit hasync hpush, hread]
        · exact Or.inr hmore
      · refine Or.inl ⟨e, c', ?_, he⟩
        rw [readResponse_ok hline, hsplit]
        dsimp only
        rw [if_pos hasync, hpush]
    · exact Or.inl ⟨_, c', readResponse_error hline, rfl⟩

/-- **A reply** is read with its block, or there is none. -/
theorem readResponse_reply_framed {r : Reply} (hr : r.Framed)
    (h : c.io.remaining = Str.asBytes r.serialize ++ rest) :
    c.NoReply ∨ ∃ io, c.readResponse = (.ok r, { c with io := io }) ∧ io.remaining = rest := by
  obtain ⟨code, text, block⟩ := r
  obtain ⟨⟨hlow, hhigh⟩, htext, hlines, hblock⟩ := hr
  dsimp only at hlow hhigh htext hlines hblock
  have hfirst : '\n' ∉ decimal code ++ ' ' :: text := by
    simp [htext, notMem_decimal (show '\n'.isDigit = false by decide)]
  rw [asBytes_reply, List.append_assoc] at h
  rcases readLine_wire h hfirst with ⟨io, hline, hrest, hlen⟩ | ⟨c', hline⟩
  · have hsplit := splitStatus_statusLine (le_trans (by decide) hlow) hhigh text
    have hasync : status.isAsync code = false := by
      rw [← Bool.not_eq_true, status.isAsync_iff]
      exact fun h => absurd h.2 (not_lt.mpr hlow)
    have htwo : 2 ≤ ({ c with io := io } : Client).maxLine :=
      two_le_of_line (le_trans (by decide) hlow) hhigh
        (show (decimal code ++ ' ' :: text).len + 1 ≤ c.maxLine from hlen)
    have hread := readResponse_of_reply hline hsplit hasync
    cases block with
    | none =>
      rw [if_neg (hblock.not.mp (by simp))] at hread
      exact Or.inr ⟨io, hread, hrest⟩
    | some lines =>
      rw [if_pos (hblock.mp rfl)] at hread
      rcases readBlock_wire htwo hrest (hlines lines rfl) with ⟨io', hmore, hrest'⟩ | ⟨c', hmore⟩
      · rw [hmore] at hread
        exact Or.inr ⟨io', hread, hrest'⟩
      · rw [hmore] at hread
        exact Or.inl ⟨_, c', hread, rfl⟩
  · exact Or.inl ⟨_, c', readResponse_error hline, rfl⟩

/-- At the end of the stream there is no reply. -/
theorem noReply_eof (h : c.io.remaining = []) : c.NoReply := by
  have hline : c.readLine = (.error .closed, c) := by
    unfold readLine
    rw [readLineFrom_none (BufReader.readByte_nil h)]
  exact ⟨.closed, c, readResponse_error hline, rfl⟩

/-- What a client hears of pushes and the end of the stream. -/
theorem noReply_of_pushes {pushes : List Push} (hpushes : ∀ p ∈ pushes, p.Framed)
    (h : c.io.remaining = outStream (pushes.map .push)) : c.NoReply := by
  rcases readResponse_pushes hpushes (h.trans (List.append_nil _).symm) with
    hnone | ⟨io, pending, heq, hrest⟩
  · exact hnone
  · obtain ⟨e, c', hread, he⟩ := noReply_eof (c := { c with io := io, pending := pending }) hrest
    exact ⟨e, c', heq.trans hread, he⟩

/-- **What a client hears of pushes and a reply**: the reply, if any. -/
theorem readResponse_heard {pushes : List Push} {r : Reply} (hpushes : ∀ p ∈ pushes, p.Framed)
    (hr : r.Framed)
    (h : c.io.remaining = outStream (pushes.map .push) ++ (Str.asBytes r.serialize ++ rest)) :
    c.NoReply ∨ ∃ c', c.readResponse = (.ok r, c') ∧ c'.io.remaining = rest := by
  rcases readResponse_pushes hpushes h with hnone | ⟨io, pending, heq, hrest⟩
  · exact Or.inl hnone
  · rcases readResponse_reply_framed (c := { c with io := io, pending := pending }) hr hrest with
      ⟨e, c', hread, he⟩ | ⟨io', hread, hrest'⟩
    · exact Or.inl ⟨e, c', heq.trans hread, he⟩
    · exact Or.inr ⟨_, heq.trans hread, hrest'⟩

end Reading

section Performing

variable {k : Client} {request : Request} {pushes : List Push} {r : Reply} {rest : Bytes}

/-- No reply, and none is expected in vain. -/
theorem expect_noReply (h : k.NoReply) (expected : Code) :
    ∃ e k', k.expect expected = (.error e, k') ∧ e.isReply = false := by
  obtain ⟨e, k', hread, he⟩ := h
  refine ⟨e, k', ?_, he⟩
  unfold expect
  rw [hread]

/-- A reply is the expected one, or an error. -/
theorem expect_reply {k' : Client} (h : k.readResponse = (.ok r, k')) (expected : Code) :
    k.expect expected =
      (if r.code = expected then .ok r else .error (.server r.code r.text), k') := by
  unfold expect
  rw [h]
  dsimp only
  split <;> rfl

/-- An error that is no reply. -/
theorem not_bearsReply {e : Error} (he : e.isReply = false) : ¬BearsReply (.error e) := by
  intro h
  rw [h e rfl] at he
  cases he

/-- A request without the value it returns. -/
theorem request_forget {α : Type} (k : Client) (line : Str) (expected : Code)
    (value : Response → α) :
    ((k.request line expected value).1.map fun _ => (), (k.request line expected value).2) =
      k.request line expected fun _ => () := by
  unfold Client.request Outcome.map
  rcases k.expect expected with ⟨e | resp, k'⟩ <;> rfl

/-- **Every call but a publish** is one request. -/
theorem perform_request (k : Client) (hpublishes : ¬request.Publishes) :
    k.perform request =
      k.request request.line request.command.expected fun _ => () := by
  obtain ⟨command, body⟩ := request
  cases command with
  | publish typeName key => exact absurd ⟨typeName, key, rfl⟩ hpublishes
  | listTypes => exact request_forget k _ _ _
  | capabilities => exact request_forget k _ _ _
  | help => exact request_forget k _ _ _
  | register typeName key =>
    have hline : "REGISTER ".toList ++ typeName ++ ' ' :: key =
        Command.render (.register typeName key) := by simp [Command.render, Command.tokens]
    unfold perform register
    dsimp only
    rw [hline]
    rfl
  | subscribe typeName =>
    have hline : "SUBSCRIBE ".toList ++ typeName = Command.render (.subscribe typeName) := by
      simp [Command.render, Command.tokens]
    unfold perform subscribe
    dsimp only
    rw [hline]
    rfl
  | unsubscribe typeName =>
    have hline : "UNSUBSCRIBE ".toList ++ typeName = Command.render (.unsubscribe typeName) := by
      simp [Command.render, Command.tokens]
    unfold perform unsubscribe
    dsimp only
    rw [hline]
    rfl
  | quit => rfl

/-- **A publish** reads a reply, and another one behind an invitation. -/
theorem perform_publish (k : Client) (hpublishes : request.Publishes) :
    k.perform request =
      match k.readResponse with
      | (.error e, k') => (⟨send request.line, .error e⟩, k')
      | (.ok resp, k') =>
        if resp.code ≠ status.START_BODY then
          (⟨send request.line, .error (.server resp.code resp.text)⟩, k')
        else
          (⟨send request.line ++ request.bodyOctets,
            (k'.expect status.ACCEPTED).1.map fun _ => ()⟩, (k'.expect status.ACCEPTED).2) := by
  obtain ⟨command, body⟩ := request
  obtain ⟨typeName, key, rfl⟩ := hpublishes
  have hline : "PUBLISH ".toList ++ typeName ++ ' ' :: key =
      Command.render (.publish typeName key) := by simp [Command.render, Command.tokens]
  unfold perform publish
  dsimp only
  rw [hline]
  rcases k.readResponse with ⟨e | resp, k'⟩
  · rfl
  · rfl

/-- The client has no reply: it sends nothing behind its line. -/
theorem perform_noReply (h : k.NoReply) :
    (k.perform request).1.sent = send request.line ∧
      ¬BearsReply (k.perform request).1.result := by
  by_cases hpublishes : request.Publishes
  · obtain ⟨e, k', hread, he⟩ := h
    rw [perform_publish k hpublishes, hread]
    exact ⟨rfl, not_bearsReply he⟩
  · obtain ⟨e, k', hexpect, he⟩ := expect_noReply h request.command.expected
    rw [perform_request k hpublishes]
    unfold Client.request
    rw [hexpect]
    exact ⟨rfl, not_bearsReply he⟩

/-- What is sent is the line, or the line of a publish and its body. -/
theorem perform_sent (k : Client) (request : Request) :
    (k.perform request).1.sent = send request.line ∨ request.Publishes ∧
      (k.perform request).1.sent = send request.line ++ request.bodyOctets := by
  by_cases hpublishes : request.Publishes
  · rw [perform_publish k hpublishes]
    split
    · exact Or.inl rfl
    · split
      · exact Or.inl rfl
      · exact Or.inr ⟨hpublishes, rfl⟩
  · rw [perform_request k hpublishes]
    exact Or.inl rfl

/-- **One reply**, where it does not invite a body: the result is made of it, if the client can
read it. -/
theorem perform_reply (hpushes : ∀ p ∈ pushes, p.Framed) (hr : r.Framed)
    (hinvites : r.code ≠ status.START_BODY)
    (haccepted : request.Publishes → r.code ≠ status.ACCEPTED)
    (h : k.io.remaining = outStream (pushes.map .push) ++ (Str.asBytes r.serialize ++ rest)) :
    (k.perform request).1.sent = send request.line ∧
      (BearsReply (k.perform request).1.result →
        (k.perform request).1.result = request.verdict r ∧
          (k.perform request).2.io.remaining = rest) := by
  rcases readResponse_heard hpushes hr h with hnone | ⟨k', hread, hrest⟩
  · have hno : (k.perform request).1.sent = send request.line ∧
        ¬BearsReply (k.perform request).1.result := perform_noReply hnone
    exact ⟨hno.1, fun h => absurd h hno.2⟩
  · unfold Request.verdict
    by_cases hpublishes : request.Publishes
    · have hexpected : request.command.expected = status.ACCEPTED := by
        obtain ⟨typeName, key, heq⟩ := hpublishes
        rw [heq]
        rfl
      rw [perform_publish k hpublishes, hread, hexpected, if_neg (haccepted hpublishes)]
      dsimp only
      rw [if_pos hinvites]
      exact ⟨rfl, fun _ => ⟨rfl, hrest⟩⟩
    · rw [perform_request k hpublishes]
      unfold Client.request
      rw [expect_reply hread]
      refine ⟨rfl, fun _ => ⟨?_, hrest⟩⟩
      dsimp only
      split <;> rfl

/-- **An invitation** and nothing behind it: there is no result. -/
theorem perform_invited (hpublishes : request.Publishes) (hpushes : ∀ p ∈ pushes, p.Framed)
    (hr : r.Framed) (h : k.io.remaining = outStream (pushes.map .push) ++ Str.asBytes r.serialize)
    (hinvites : r.code = status.START_BODY) : ¬BearsReply (k.perform request).1.result := by
  rw [← List.append_nil (Str.asBytes r.serialize)] at h
  rcases readResponse_heard hpushes hr h with hnone | ⟨k', hread, hrest⟩
  · exact (perform_noReply hnone).2
  · obtain ⟨e, k'', hexpect, he⟩ := expect_noReply (noReply_eof hrest) status.ACCEPTED
    rw [perform_publish k hpublishes, hread]
    dsimp only
    rw [if_neg (not_not.mpr hinvites), hexpect]
    exact not_bearsReply he

/-- **A reply behind an invitation**: the result is made of it, if the client can read both. -/
theorem perform_answered {invited : Reply} (hpublishes : request.Publishes)
    (hpushes : ∀ p ∈ pushes, p.Framed) (hinvited : invited.Framed) (hr : r.Framed)
    (hinvites : invited.code = status.START_BODY)
    (h : k.io.remaining = outStream (pushes.map .push) ++
      (Str.asBytes invited.serialize ++ (Str.asBytes r.serialize ++ rest)))
    (hbears : BearsReply (k.perform request).1.result) :
    (k.perform request).1.result = request.verdict r ∧
      (k.perform request).2.io.remaining = rest := by
  have hexpected : request.command.expected = status.ACCEPTED := by
    obtain ⟨typeName, key, heq⟩ := hpublishes
    rw [heq]
    rfl
  rcases readResponse_heard hpushes hinvited h with hnone | ⟨k', hread, hmore⟩
  · exact absurd hbears (perform_noReply hnone).2
  · rw [perform_publish k hpublishes, hread] at hbears ⊢
    dsimp only at hbears ⊢
    rw [if_neg (not_not.mpr hinvites)] at hbears ⊢
    rcases readResponse_reply_framed hr hmore with hnone | ⟨io, hreply, hrest⟩
    · obtain ⟨e, k'', hexpect, he⟩ := expect_noReply hnone status.ACCEPTED
      rw [hexpect] at hbears
      exact absurd hbears (not_bearsReply he)
    · unfold Request.verdict
      rw [expect_reply hreply, hexpected]
      refine ⟨?_, hrest⟩
      dsimp only
      split <;> rfl

end Performing

end Client

end MacroBus
