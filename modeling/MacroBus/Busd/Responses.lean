import MacroBus.Busd.Accounting

/-!
# The response discipline of a connection

What a daemon writes to a connection are lines, each with its terminator. Behind the greeting they
are laid out in complete units: pushes, and the exchanges that answer the command lines. Only the
exchange of a `PUBLISH` takes more than one step, and nothing else is written until it is complete.
-/

namespace MacroBus

/-- Lines as they stand on the wire: behind each a carriage return and a line feed. -/
def onWire (lines : List Str) : Bytes :=
  lines.flatMap fun line => Str.asBytes (line ++ ['\r', '\n'])

/-- A line that begins with the three digits of a code. -/
def codeLine (code : Code) (text : Str) : Str :=
  Nat.digitChar (code / 100) :: Nat.digitChar (code / 10 % 10) :: Nat.digitChar (code % 10) ::
    ' ' :: text

/-- A block: lines that begin with a dot have one more, and a lone dot ends it. -/
def blockLines (lines : List Str) : List Str :=
  (lines.map fun line => if line.head? = some '.' then '.' :: line else line) ++ [['.']]

/-- The lines of a push. -/
def Push.lines : Push → List Str
  | .message msg =>
    codeLine 101 ("MSG ".toList ++ msg.typeName ++ ' ' :: (msg.msgId ++ ' ' :: msg.origin)) ::
      blockLines msg.body
  | .drop typeName count => [codeLine 102 ("DROP ".toList ++ typeName ++ ' ' :: decimal count)]
  | .note text => [codeLine 190 text]

/-- The lines of a reply. -/
def Reply.lines (r : Reply) : List Str :=
  codeLine r.code r.text :: (r.block.map blockLines).getD []

/-- A complete unit of what is written behind the greeting. -/
inductive Written
  /-- A push. -/
  | push (p : Push)
  /-- The exchange with this command line. -/
  | exchange (line : Bytes) (replies : List Reply)
  /-- The answer to an over-long command line, which is not consumed. -/
  | overlong

namespace Written

/-- The lines of the unit. -/
def lines : Written → List Str
  | .push p => p.lines
  | .exchange _ replies => replies.flatMap Reply.lines
  | .overlong => [codeLine 500 "command line too long".toList]

/-- The command line that is answered. -/
def line : Written → Option Bytes
  | .exchange line _ => some line
  | _ => none

/-- The item of the queue that is pushed. -/
def item : Written → Option Outbound
  | .push (.message msg) => some (.deliver msg)
  | .push (.note text) => some (.note text)
  | _ => none

/-- A push is whole, and an exchange has its final reply. -/
def Complete : Written → Prop
  | .exchange line replies => Answers line replies
  | _ => True

/-- Each line of the unit is one line; where an item of the queue is pushed, as far as its texts
are. -/
def OneLine (u : Written) : Prop :=
  (∀ out ∈ u.item, out.push.Framed) → ∀ line ∈ u.lines, '\n' ∉ line

/-- The unit announces the end of the connection: a `221`, or the answer to an over-long
line. -/
def Closes : Written → Prop
  | .push _ => False
  | .exchange _ replies => ∃ r ∈ replies, r.code = status.CLOSING
  | .overlong => True

end Written

/-- Whether a `PUBLISH` was invited to send its body and has no reply yet. -/
def Phase.Awaits : Phase → Prop
  | .body .. => True
  | .bodyRead .. => True
  | .ended .midBody => True
  | _ => False

/-- What was done is laid out in these units, and in the invitation of a `PUBLISH` on the
line `waiting`. -/
structure Layout (daemonId : Str) (done : List Effect) (us : List Written)
    (waiting : Option Bytes) : Prop where
  /-- The octets are the lines of the greeting and the units, and of the invitation if there is
  one. -/
  output : outputOf done = onWire (codeLine 200 (daemonId ++ " macro-bus MBP/1.0 ready".toList) ::
    (us.flatMap Written.lines ++ waiting.toList.map fun _ =>
      codeLine 354 "enter message body; end with <CRLF>.<CRLF>".toList))
  /-- The exchanges answer the command lines one for one and in order. -/
  commands : commandsOf done = us.filterMap Written.line ++ waiting.toList
  /-- The units are complete. -/
  complete : ∀ u ∈ us, u.Complete
  /-- And made of lines. -/
  oneLine : ∀ u ∈ us, u.OneLine
  /-- Only a `PUBLISH` is invited. -/
  invited : ∀ line, waiting = some line → ∃ typeName key,
    command.parse (fromUtf8Lossy line) = .ok (.publish typeName key)

/-- **The response discipline**: the greeting, then complete units, and nothing behind one
that announces the end. The items that were taken from the queue are pushed, in order. -/
def Disciplined (daemonId : Str) (phase : Phase) (done : List Effect) (took : List Outbound) : Prop :=
  ∃ us waiting, Layout daemonId done us waiting ∧
    took = us.filterMap Written.item ++ phase.inHand ∧
    (phase ≠ .gone → (waiting.isSome ↔ phase.Awaits)) ∧
    ∀ before u after, us = before ++ u :: after → u.Closes → after = [] ∧ waiting = none

section Octets

variable {code : ℕ}

@[simp] theorem onWire_nil : onWire [] = [] := rfl

@[simp] theorem onWire_cons (line : Str) (lines : List Str) :
    onWire (line :: lines) = wireLine line ++ onWire lines := rfl

@[simp] theorem onWire_append (lines more : List Str) :
    onWire (lines ++ more) = onWire lines ++ onWire more := List.flatMap_append

/-- A code in digits. -/
theorem codeLine_eq (hlow : 100 ≤ code) (hhigh : code < 1000) (text : Str) :
    decimal code ++ ' ' :: text = codeLine code text := by
  have hdigits : decimal code = [Nat.digitChar (code / 100), Nat.digitChar (code / 10 % 10),
      Nat.digitChar (code % 10)] := by
    have hten : ¬code < 10 := by omega
    have hhundred : ¬code / 10 < 10 := by omega
    have hfirst : code / 10 / 10 < 10 := by omega
    unfold decimal
    rw [Nat.toDigits_eq_if (by decide), if_neg hten, Nat.toDigits_eq_if (by decide),
      if_neg hhundred, Nat.toDigits_eq_if (by decide), if_pos hfirst, Nat.div_div_eq_div_mul]
    rfl
  rw [hdigits]
  rfl

/-- A block on the wire. -/
theorem asBytes_block (lines : List Str) :
    Str.asBytes (frame.encodeBody lines) = onWire (blockLines lines) := by
  have hstuff : ∀ line : Str, frame.stuffLine line =
      if line.head? = some '.' then '.' :: line else line := by
    intro line
    cases line with
    | nil => rfl
    | cons c line =>
      by_cases hdot : c = '.'
      · subst hdot
        rfl
      · rw [if_neg (by simpa using hdot)]
        unfold frame.stuffLine
        split
        · next heq => exact absurd (List.cons.inj heq).1 hdot
        · rfl
  have hlines : Str.asBytes (frame.encodeLines lines) = onWire (lines.map frame.stuffLine) := by
    induction lines with
    | nil => rfl
    | cons line lines ih =>
      rw [frame.encodeLines_cons, asBytes_append, ih]
      rfl
  have hsame : lines.map frame.stuffLine =
      lines.map fun line => if line.head? = some '.' then '.' :: line else line :=
    List.map_congr_left fun line _ => hstuff line
  unfold frame.encodeBody blockLines
  rw [List.append_assoc, asBytes_append, hlines, onWire_append, hsame]
  exact congrArg _ (List.append_nil _).symm

/-- **A push on the wire.** -/
theorem asBytes_push_lines (p : Push) : Str.asBytes p.serialize = onWire p.lines := by
  cases p with
  | message msg =>
    have hheader : msg.msgHeader = codeLine 101
        ("MSG ".toList ++ msg.typeName ++ ' ' :: (msg.msgId ++ ' ' :: msg.origin)) := by
      rw [← codeLine_eq (by decide) (by decide), Message.msgHeader]
      simp [status.MSG]
    change Str.asBytes (msg.msgHeader ++ frame.CRLF ++ frame.encodeBody msg.body) = _
    rw [asBytes_append, asBytes_block, hheader]
    rfl
  | drop typeName count =>
    rw [Push.lines, ← codeLine_eq (by decide) (by decide)]
    exact (List.append_nil _).symm
  | note text =>
    rw [Push.lines, ← codeLine_eq (by decide) (by decide)]
    exact (List.append_nil _).symm

/-- **A reply on the wire.** -/
theorem asBytes_reply_lines {r : Reply} (hr : r.Framed) :
    Str.asBytes r.serialize = onWire r.lines := by
  have hlow : 100 ≤ r.code := le_trans (by decide) hr.range.1
  rw [asBytes_reply, codeLine_eq hlow hr.range.2, Reply.lines, onWire_cons]
  cases r.block with
  | none => rfl
  | some lines => exact congrArg _ (asBytes_block lines)

/-- The invitation on the wire. -/
theorem invitation_lines : outStream [.reply invitation] =
    onWire [codeLine 354 "enter message body; end with <CRLF>.<CRLF>".toList] := by
  rw [outStream_cons, outStream_nil, List.append_nil]
  exact asBytes_reply_lines framed_invitation

end Octets

section Lines

variable {text : Str} {code : ℕ}

/-- A line with a code in front is one line. -/
theorem newline_notMem_codeLine (hhigh : code < 1000) (htext : '\n' ∉ text) :
    '\n' ∉ codeLine code text := by
  have hdigit : ∀ d < 10, Nat.digitChar d ≠ '\n' := by decide
  have hfirst := hdigit (code / 100) (by omega)
  have hsecond := hdigit (code / 10 % 10) (by omega)
  have hthird := hdigit (code % 10) (by omega)
  simp [codeLine, htext, hfirst.symm, hsecond.symm, hthird.symm]

/-- A block is made of lines. -/
theorem newline_notMem_blockLines {lines : List Str} (hlines : ∀ line ∈ lines, '\n' ∉ line) :
    ∀ line ∈ blockLines lines, '\n' ∉ line := by
  intro line hmem
  rcases List.mem_append.mp hmem with hmem | hmem
  · obtain ⟨line', hline', rfl⟩ := List.mem_map.mp hmem
    have hnot := hlines line' hline'
    split
    · simpa using hnot
    · exact hnot
  · rw [List.mem_singleton.mp hmem]
    decide

/-- A push whose texts are lines is made of lines. -/
theorem newline_notMem_push {p : Push} (hp : p.Framed) : ∀ line ∈ p.lines, '\n' ∉ line := by
  cases p with
  | message msg =>
    obtain ⟨htext, hbody⟩ := hp
    intro line hmem
    rcases List.mem_cons.mp hmem with rfl | hmem
    · refine newline_notMem_codeLine (by decide) ?_
      simpa [Push.text] using htext
    · exact newline_notMem_blockLines hbody line hmem
  | drop typeName count =>
    intro line hmem
    rw [List.mem_singleton.mp hmem]
    refine newline_notMem_codeLine (by decide) ?_
    have htext : '\n' ∉ (Push.drop typeName count).text := hp
    simpa [Push.text] using htext
  | note text =>
    intro line hmem
    rw [List.mem_singleton.mp hmem]
    exact newline_notMem_codeLine (by decide) hp

/-- A reply whose texts are lines is made of lines. -/
theorem newline_notMem_reply {r : Reply} (hr : r.Framed) : ∀ line ∈ r.lines, '\n' ∉ line := by
  intro line hmem
  rcases List.mem_cons.mp hmem with rfl | hmem
  · exact newline_notMem_codeLine hr.range.2 hr.text
  · cases hblock : r.block with
    | none =>
      rw [hblock] at hmem
      cases hmem
    | some lines =>
      rw [hblock] at hmem
      exact newline_notMem_blockLines (hr.lines lines hblock) line hmem

/-- An exchange is made of lines where its replies are. -/
theorem oneLine_exchange {line : Bytes} {replies : List Reply} (hr : ∀ r ∈ replies, r.Framed) :
    (Written.exchange line replies).OneLine := by
  intro _ l hl
  obtain ⟨r, hmem, hl⟩ := List.mem_flatMap.mp hl
  exact newline_notMem_reply (hr r hmem) l hl

/-- The octets of replies. -/
theorem outStream_replies {replies : List Reply} (hr : ∀ r ∈ replies, r.Framed) :
    outStream (replies.map .reply) = onWire (replies.flatMap Reply.lines) := by
  induction replies with
  | nil => rfl
  | cons r replies ih =>
    rw [List.map_cons, outStream_cons, List.flatMap_cons, onWire_append,
      ih fun r' hr' => hr r' (List.mem_cons_of_mem _ hr')]
    exact congrArg (· ++ _) (asBytes_reply_lines (hr r List.mem_cons_self))

end Lines

section Layouts

variable {daemonId : Str} {done more : List Effect} {us : List Written} {line : Bytes} {r : Reply}

/-- A step that writes nothing and consumes no command line changes no layout. -/
theorem Layout.silent {waiting : Option Bytes} (h : Layout daemonId done us waiting)
    (houtput : outputOf more = []) (hcommands : commandsOf more = []) :
    Layout daemonId (done ++ more) us waiting := by
  refine ⟨?_, ?_, h.complete, h.oneLine, h.invited⟩
  · rw [outputOf_append, houtput, List.append_nil, h.output]
  · rw [commandsOf_append, hcommands, List.append_nil, h.commands]

/-- One more unit is written. -/
theorem Layout.unit {u : Written} (h : Layout daemonId done us none)
    (houtput : outputOf more = onWire u.lines) (hcommands : commandsOf more = u.line.toList)
    (hcomplete : u.Complete) (hline : u.OneLine) :
    Layout daemonId (done ++ more) (us ++ [u]) none := by
  refine ⟨?_, ?_, ?_, ?_, by simp⟩
  · rw [outputOf_append, houtput, h.output]
    simp
  · rw [commandsOf_append, hcommands, h.commands]
    cases hline : u.line <;> simp [hline]
  · intro v hv
    rcases List.mem_append.mp hv with hv | hv
    · exact h.complete v hv
    · rw [List.mem_singleton.mp hv]
      exact hcomplete
  · intro v hv
    rcases List.mem_append.mp hv with hv | hv
    · exact h.oneLine v hv
    · rw [List.mem_singleton.mp hv]
      exact hline

/-- One push is written. -/
theorem Layout.push {p : Push} (h : Layout daemonId done us none)
    (houtput : outputOf more = outStream [.push p]) (hcommands : commandsOf more = [])
    (hline : (Written.push p).OneLine) :
    Layout daemonId (done ++ more) (us ++ [.push p]) none := by
  refine h.unit ?_ hcommands trivial hline
  rw [houtput, outStream_cons, outStream_nil, List.append_nil]
  exact asBytes_push_lines p

/-- One reply is written. -/
theorem Layout.replied (h : Layout daemonId done us none) (hfinal : r.Final) (hr : r.Framed)
    (houtput : outputOf more = outStream [.reply r]) (hcommands : commandsOf more = [line]) :
    Layout daemonId (done ++ more) (us ++ [.exchange line [r]]) none := by
  have hall : ∀ r' ∈ [r], r'.Framed := fun r' hr' => List.mem_singleton.mp hr' ▸ hr
  exact h.unit (houtput.trans (outStream_replies hall)) hcommands (Answers.once hfinal)
    (oneLine_exchange hall)

/-- The body of a `PUBLISH` is invited. -/
theorem Layout.invite (h : Layout daemonId done us none)
    (houtput : outputOf more = outStream [.reply invitation])
    (hcommands : commandsOf more = [line])
    (hparse : ∃ typeName key, command.parse (fromUtf8Lossy line) = .ok (.publish typeName key)) :
    Layout daemonId (done ++ more) us (some line) := by
  refine ⟨?_, ?_, h.complete, h.oneLine, ?_⟩
  · rw [outputOf_append, houtput, h.output, invitation_lines]
    simp
  · rw [commandsOf_append, hcommands, h.commands]
    simp
  · rintro _ ⟨rfl⟩
    exact hparse

/-- The invited body has its reply. -/
theorem Layout.reply (h : Layout daemonId done us (some line)) (hfinal : r.Final) (hr : r.Framed)
    (houtput : outputOf more = outStream [.reply r]) (hcommands : commandsOf more = []) :
    Layout daemonId (done ++ more) (us ++ [.exchange line [invitation, r]]) none := by
  obtain ⟨typeName, key, hparse⟩ := h.invited line rfl
  have hall : ∀ r' ∈ [invitation, r], r'.Framed := by
    intro r' hr'
    rcases List.mem_pair.mp hr' with rfl | rfl
    · exact framed_invitation
    · exact hr
  refine ⟨?_, ?_, ?_, ?_, by simp⟩
  · have hreplies := outStream_replies hall
    rw [List.map_cons, outStream_cons, List.map_singleton] at hreplies
    have hinvited := invitation_lines
    rw [outStream_cons, outStream_nil, List.append_nil] at hinvited
    rw [outputOf_append, houtput, h.output]
    simp only [List.flatMap_append, List.flatMap_singleton, Written.lines, onWire_cons,
      onWire_append, ← hreplies, hinvited]
    simp
  · rw [commandsOf_append, hcommands, h.commands]
    simp [Written.line]
  · intro v hv
    rcases List.mem_append.mp hv with hv | hv
    · exact h.complete v hv
    · rw [List.mem_singleton.mp hv]
      exact Answers.invited hparse hfinal
  · intro v hv
    rcases List.mem_append.mp hv with hv | hv
    · exact h.oneLine v hv
    · rw [List.mem_singleton.mp hv]
      exact oneLine_exchange hall

/-- Units none of which announces the end. -/
theorem not_closes_concat {u : Written} (hus : ∀ v ∈ us, ¬v.Closes) (hu : ¬u.Closes) :
    ∀ v ∈ us ++ [u], ¬v.Closes := by
  intro v hv
  rcases List.mem_append.mp hv with hv | hv
  · exact hus v hv
  · rw [List.mem_singleton.mp hv]
    exact hu

/-- An exchange with this reply does not announce the end. -/
theorem not_closes_exchange (before : List Reply) (hbefore : ∀ r ∈ before, r.code ≠ status.CLOSING)
    (hr : r.code ≠ status.CLOSING) : ¬(Written.exchange line (before ++ [r])).Closes := by
  rintro ⟨r', hr', hcode⟩
  rcases List.mem_append.mp hr' with hr' | hr'
  · exact hbefore r' hr' hcode
  · rw [List.mem_singleton.mp hr'] at hcode
    exact hr hcode

end Layouts

section Runs

variable {limits : Limits} {fwd : Bool} {nowMs : ℕ} {c c' : Conn} {h h' : Hub} {daemonId : Str}
  {done more : List Effect} {took : List Outbound} {us : List Written} {line : Bytes}
  {waiting : Option Bytes} {wake : Conn.Wake}

/-- The units so far go on: the items taken are pushed or in hand, and none announces the end. -/
structure Going (daemonId : Str) (done : List Effect) (took : List Outbound) (hand : List Outbound)
    (us : List Written) (waiting : Option Bytes) : Prop where
  /-- They are laid out. -/
  layout : Layout daemonId done us waiting
  /-- The items. -/
  items : took = us.filterMap Written.item ++ hand
  /-- No unit announces the end. -/
  goes : ∀ u ∈ us, ¬u.Closes

/-- What a task in this phase has done so far. -/
def Kept (daemonId : Str) (phase : Phase) (done : List Effect) (took : List Outbound) : Prop :=
  match phase with
  | .start => done = [] ∧ took = []
  | .body typeName key _ => ∃ us line, Going daemonId done took [] us (some line) ∧
      command.parse (fromUtf8Lossy line) = .ok (.publish typeName key)
  | .bodyRead typeName key _ => ∃ us line, Going daemonId done took [] us (some line) ∧
      command.parse (fromUtf8Lossy line) = .ok (.publish typeName key)
  | .ended _ => Disciplined daemonId phase done took
  | .gone => Disciplined daemonId phase done took
  | _ => ∃ us, Going daemonId done took phase.inHand us none

/-- A step that does nothing the client sees. -/
theorem Going.silent {hand : List Outbound} (hg : Going daemonId done took hand us waiting)
    (houtput : outputOf more = []) (hcommands : commandsOf more = []) :
    Going daemonId (done ++ more) took hand us waiting :=
  ⟨hg.layout.silent houtput hcommands, hg.items, hg.goes⟩

/-- A unit that pushes no item. -/
theorem Going.unit {u : Written} (hg : Going daemonId done took [] us waiting)
    (hlayout : Layout daemonId (done ++ more) (us ++ [u]) none) (hitem : u.item = none)
    (hopen : ¬u.Closes) : Going daemonId (done ++ more) took [] (us ++ [u]) none := by
  refine ⟨hlayout, ?_, not_closes_concat hg.goes hopen⟩
  rw [hg.items, List.filterMap_append, List.filterMap_cons_none hitem, List.filterMap_nil,
    List.append_nil, List.append_nil]

/-- Where no unit announces the end, nothing stands behind one that does. -/
theorem Going.disciplined {phase : Phase} (hg : Going daemonId done took phase.inHand us waiting)
    (hwaiting : phase ≠ .gone → (waiting.isSome ↔ phase.Awaits)) :
    Disciplined daemonId phase done took := by
  refine ⟨us, waiting, hg.layout, hg.items, hwaiting, ?_⟩
  rintro before u after rfl hu
  exact absurd hu (hg.goes u (by simp))

/-- The last unit may announce the end. -/
theorem Going.closed {u : Written} (hg : Going daemonId done took [] us none)
    (hlayout : Layout daemonId (done ++ more) (us ++ [u]) none) (hitem : u.item = none) :
    Disciplined daemonId (.ended .ok) (done ++ more) took := by
  refine ⟨us ++ [u], none, hlayout, ?_, fun _ => by simp [Phase.Awaits], ?_⟩
  · rw [hg.items, List.filterMap_append, List.filterMap_cons_none hitem, List.filterMap_nil,
      List.append_nil]
    exact (List.append_nil _).symm
  · intro before v after heq hv
    refine ⟨?_, rfl⟩
    -- The unit that closes is the one after `us`.
    rcases List.append_eq_append_iff.mp heq with ⟨mid, rfl, hmid⟩ | ⟨mid, rfl, hmid⟩
    · cases mid with
      | nil => exact (List.cons.inj hmid).2.symm
      | cons w mid => simp at hmid
    · cases mid with
      | nil => exact (List.cons.inj hmid).2
      | cons w mid =>
        obtain ⟨rfl, _⟩ := List.cons.inj hmid
        exact absurd hv (hg.goes v (by simp))

/-- What was kept is the discipline. -/
theorem Kept.disciplined {phase : Phase} (hkept : Kept daemonId phase done took)
    (hstart : phase ≠ .start) : Disciplined daemonId phase done took := by
  cases phase with
  | start => exact absurd rfl hstart
  | ended | gone => exact hkept
  | body | bodyRead =>
    obtain ⟨us, line, hg, _⟩ := hkept
    exact hg.disciplined fun _ => by simp [Phase.Awaits]
  | _ =>
    obtain ⟨us, hg⟩ := hkept
    exact hg.disciplined fun _ => by simp [Phase.Awaits]

/-- **A command line** keeps the layout. -/
theorem Kept.command (hg : Going daemonId done took [] us none)
    (htypes : ∀ typeName ∈ h.registry.types.keys, '\n' ∉ typeName) (line : Bytes) :
    Kept daemonId (Conn.handleCommand limits fwd nowMs c h line).1.phase
      (done ++ .command line :: (Conn.handleCommand limits fwd nowMs c h line).2.2) took := by
  have hcommands : commandsOf (.command line ::
      (Conn.handleCommand limits fwd nowMs c h line).2.2) = [line] := by
    have hnone := commandsOf_notTaking (handleCommand_notTaking limits fwd nowMs c h line)
    change line :: commandsOf _ = [line]
    rw [hnone]
  have hout : ∀ more, outputOf (.command line :: more) = outputOf more := fun _ => rfl
  rw [Conn.handleCommand_eq] at hcommands ⊢
  split
  · next cmd hparse =>
    rw [hparse] at hcommands
    -- The line stands for the request that has been sent with the same command.
    have hrequest : command.parse (Request.line ⟨cmd, []⟩) = .ok cmd :=
      command.parse_render (command.from_of_parse hparse)
    have hreacts : Request.Reacts ⟨cmd, []⟩ (Conn.execute limits fwd nowMs c h cmd).1
        (Conn.execute limits fwd nowMs c h cmd).2.2 := execute_reacts hrequest htypes
    cases hreacts with
    | replied r hends _ houtput hwhere =>
      have hlayout := hg.layout.replied hends.final hends.framed ((hout _).trans houtput) hcommands
      rcases hwhere with ⟨hphase, hopen⟩ | hphase
      · rw [hphase]
        exact ⟨_, hg.unit hlayout rfl (not_closes_exchange [] (by simp) hopen)⟩
      · rw [hphase]
        exact hg.closed hlayout rfl
    | invited typeName key hpublish houtput _ hphase =>
      rw [hphase]
      rw [hrequest] at hpublish
      obtain rfl := Except.ok.inj hpublish
      exact ⟨us, line, ⟨hg.layout.invite ((hout _).trans houtput) hcommands ⟨_, _, hparse⟩,
        hg.items, hg.goes⟩, hparse⟩
  · next e hparse =>
    rw [hparse] at hcommands
    have hplain := plain_permanent e.reason (command.permanent_parse _ e hparse)
    have hall : ∀ e ∈ command.errors, '\n' ∉ e.reason := by decide +kernel
    have hframed := hplain.1.framed (hall e (command.listed_parse _ e hparse)) fun _ hlines => by
      cases hlines
    exact ⟨_, hg.unit (hg.layout.replied hplain.1 hframed (outputOf_writeLine _ _) hcommands) rfl
      (not_closes_exchange [] (by simp) hplain.2)⟩

/-- **The end of a body** keeps the layout. -/
theorem Kept.finish {typeName key : Str} {body : Option (List Str)} {e : Effect}
    (hg : Going daemonId done took [] us (some line)) (htype : '\n' ∉ typeName)
    (houtput : outputOf [e] = []) (hcommands : commandsOf [e] = []) :
    Kept daemonId (Conn.finishPublish fwd c h typeName key body).1.phase
      (done ++ e :: (Conn.finishPublish fwd c h typeName key body).2.2) took := by
  obtain ⟨r, hplain, hframed, hreply⟩ := finishPublish_framed fwd c h htype key body
  have hnone := commandsOf_notTaking (Conn.finishPublish_notTaking fwd c h typeName key body)
  have hlayout := (hg.silent houtput hcommands).layout.reply hplain.1 hframed hreply hnone
  rw [Conn.finishPublish_fst, List.append_cons]
  exact ⟨_, (hg.silent houtput hcommands).unit hlayout rfl
    (not_closes_exchange [invitation] (by simp [invitation]; decide) hplain.2)⟩

/-- **An internal step** keeps the layout. -/
theorem Kept.go (hkept : Kept daemonId c.phase done took)
    (hpushes : ∀ typeName count, .drop typeName count ∈ c.phase.pushes → '\n' ∉ typeName)
    (htypes : ∀ typeName ∈ h.registry.types.keys, '\n' ∉ typeName)
    (hname : h.registry.daemonId = daemonId)
    (hgo : Conn.go limits fwd nowMs c h = some (c', h', more)) :
    Kept daemonId c'.phase (done ++ more) took := by
  cases Conn.go_goes hgo with
  | greet hphase =>
    rw [hphase] at hkept
    obtain ⟨rfl, rfl⟩ : done = [] ∧ took = [] := hkept
    refine ⟨[], ⟨?_, rfl, by simp, by simp, by simp⟩, rfl, by simp⟩
    have hgreeting : greeting h.registry.daemonId =
        codeLine 200 (daemonId ++ " macro-bus MBP/1.0 ready".toList) := by
      rw [← codeLine_eq (by decide) (by decide), hname, greeting, List.append_assoc,
        List.append_assoc]
      rfl
    have houtput : outputOf [.wrote (greeting h.registry.daemonId ++ frame.CRLF)] =
        wireLine (greeting h.registry.daemonId) := List.append_nil _
    rw [List.nil_append, houtput, hgreeting]
    exact (List.append_nil _).symm
  | noDrops hphase | drain hphase | flushed hphase | commandNeed hphase =>
    rw [hphase] at hkept
    rw [List.append_nil]
    exact hkept
  | @notice typeName count pending hphase =>
    rw [hphase] at hkept hpushes
    obtain ⟨us, hg⟩ := hkept
    have hframed := framed_drop (hpushes typeName count List.mem_cons_self) count
    exact ⟨_, hg.unit (hg.layout.push (pushed_notice hframed).output rfl
      fun _ => newline_notMem_push hframed) rfl
      id⟩
  | @command line rest hphase htake =>
    rw [hphase] at hkept
    obtain ⟨us, hg⟩ := hkept
    exact Kept.command hg htypes line
  | commandTooLong hphase =>
    rw [hphase] at hkept
    obtain ⟨us, hg⟩ := hkept
    have hline : Written.overlong.OneLine := fun _ line hmem => by
      rw [List.mem_singleton.mp hmem]
      decide
    refine hg.closed (hg.layout.unit (u := .overlong) ?_ rfl trivial hline) rfl
    have hall : ∀ r ∈ [refusal], r.Framed := fun r hr => List.mem_singleton.mp hr ▸ final_refusal.2
    rw [outputOf_writeLine]
    exact outStream_replies hall
  | @deliver out hphase =>
    rw [hphase] at hkept
    obtain ⟨us, hg⟩ := hkept
    have houtput : outputOf [writeOutbound out] = outStream [.push out.push] := by
      cases out <;> rfl
    have hitem : (Written.push out.push).item = some out := by cases out <;> rfl
    have hlayout := hg.layout.push houtput (by cases out <;> rfl) fun hout =>
      newline_notMem_push (hout out hitem)
    refine ⟨_, hlayout, ?_, not_closes_concat hg.goes id⟩
    rw [hg.items, List.filterMap_append, List.filterMap_cons_some hitem]
    simp [Phase.inHand]
  | terminator hphase =>
    rw [hphase] at hkept
    obtain ⟨us, line, hg, hparse⟩ := hkept
    exact Kept.finish hg (newline_notMem_of_parse hparse rfl) rfl rfl
  | bodyLine hphase =>
    rw [hphase] at hkept
    obtain ⟨us, line, hg, hparse⟩ := hkept
    exact ⟨us, line, hg.silent rfl rfl, hparse⟩
  | @bodyTooLong typeName key acc rest hphase =>
    rw [hphase] at hkept
    obtain ⟨us, line, hg, hparse⟩ := hkept
    have hfinish : Kept daemonId
        (Conn.finishPublish fwd { c with rbuf := rest } h typeName key none).1.phase
        (done ++ .giveUp (c.rbuf.take (c.rbuf.length - rest.length)) ::
          (Conn.finishPublish fwd { c with rbuf := rest } h typeName key none).2.2) took :=
      Kept.finish hg (newline_notMem_of_parse hparse rfl) rfl rfl
    exact hfinish
  | bodyNeed hphase =>
    rw [hphase] at hkept
    rw [List.append_nil]
    exact hkept
  | remove hphase =>
    rw [hphase] at hkept
    obtain ⟨us, waiting, hlayout, hitems, _, hend⟩ := hkept
    exact ⟨us, waiting, hlayout.silent rfl rfl, hitems, fun hne => absurd rfl hne, hend⟩

/-- **A step whose writes succeed** keeps the layout. -/
theorem Kept.step (hkept : Kept daemonId c.phase done took)
    (hpushes : ∀ typeName count, .drop typeName count ∈ c.phase.pushes → '\n' ∉ typeName)
    (htypes : ∀ typeName ∈ h.registry.types.keys, '\n' ∉ typeName)
    (hname : h.registry.daemonId = daemonId) (hwake : wake ≠ .writeErr)
    (hstep : Conn.step limits fwd nowMs wake c h = some (c', h', more)) :
    Kept daemonId c'.phase (done ++ more) (took ++ wake.items h c.id) := by
  cases Conn.step_steps hstep with
  | go hgo =>
    rw [items_eq_nil h c.id Conn.Wake.noConfusion, List.append_nil]
    exact hkept.go hpushes htypes hname hgo
  | writeErr => exact absurd rfl hwake
  | read hphase | readBody hphase | notified hphase =>
    rw [hphase] at hkept
    rw [items_eq_nil h c.id Conn.Wake.noConfusion, List.append_nil, List.append_nil]
    exact hkept
  | @recv out queue hphase hqueue =>
    rw [hphase] at hkept
    obtain ⟨us, hg⟩ := hkept
    have hitems : Conn.Wake.items h c.id .recv = [out] := by simp [Conn.Wake.items, hqueue]
    rw [hitems, List.append_nil]
    refine ⟨us, hg.layout, ?_, hg.goes⟩
    rw [hg.items]
    simp [Phase.inHand]
  | closed hphase hclosed =>
    rw [hphase] at hkept
    have hother : wake ≠ .recv := by
      rcases hclosed with ⟨rfl, _⟩ | ⟨rfl, _⟩ <;> exact Conn.Wake.noConfusion
    rw [items_eq_nil h c.id hother, List.append_nil, List.append_nil]
    obtain ⟨us, hg⟩ := hkept
    rcases hclosed with ⟨_, rfl⟩ | ⟨_, rfl⟩ <;>
    exact Going.disciplined hg fun _ => by simp [Phase.Awaits]
  | closedBody hphase hclosed =>
    rw [hphase] at hkept
    have hother : wake ≠ .recv := by
      rcases hclosed with rfl | rfl <;> exact Conn.Wake.noConfusion
    rw [items_eq_nil h c.id hother, List.append_nil, List.append_nil]
    obtain ⟨us, line, hg, _⟩ := hkept
    exact Going.disciplined hg fun _ => by simp [Phase.Awaits]

end Runs

section Types

variable {h : Hub} {limits : Limits} {nowMs : ℕ}

/-- A call by a connection registers types that are lines. -/
theorem types_execute {made : Call} (htypes : ∀ t ∈ h.registry.types.keys, '\n' ∉ t)
    (hmade : made.Checked limits nowMs) (id : ℕ) :
    ∀ t ∈ (h.execute id made).registry.types.keys, '\n' ∉ t := by
  cases made with
  | registerLocal typeName key now =>
    intro t ht
    simp only [Hub.execute] at ht
    rcases hlookup : h.registry.types.lookup typeName with _ | reg
    · rw [Registry.registerLocal_created_iff.mpr ⟨hlookup, rfl, rfl⟩] at ht
      rcases (AList.mem_insert _).mp (AList.mem_keys.mpr ht) with rfl | hold
      · exact (isField_of_isValidType hmade.1).2
      · exact htypes t (AList.mem_keys.mp hold)
    · rw [Registry.registerLocal_unchanged (by simp [hlookup])] at ht
      exact htypes t ht
  | publishLocal typeName key body =>
    simp only [Hub.execute]
    rcases hres : h.publishLocal typeName key body with ⟨e | msg, h'⟩
    · obtain rfl := Hub.publishLocal_error hres
      exact htypes
    · obtain ⟨_, _, rfl⟩ := Hub.publishLocal_eq_ok_iff.mp hres
      rw [Hub.fanoutLocked_registry]
      exact htypes
  | unsubscribe typeName =>
    simpa only [Hub.execute, (Cluster.sameTables_unsubscribe h.registry typeName id).types]
  | removeConn types =>
    simpa only [Hub.execute, (Cluster.sameTables_removeConn h.registry id types).types]
  | subscribe | listTypes | publishPrecheck => exact htypes

/-- A section of a peer link that hands over lines registers types that are lines. -/
theorem types_perform {made : Section} (htypes : ∀ t ∈ h.registry.types.keys, '\n' ∉ t)
    (hmade : made.Framed) : ∀ t ∈ (h.perform made).1.registry.types.keys, '\n' ∉ t := by
  cases made with
  | recordSeen msg => exact htypes
  | fanOut msg => simpa only [Hub.perform, Hub.fanoutLocked_registry]
  | applyRemoteRegistration typeName incoming =>
    intro t ht
    simp only [Hub.perform] at ht
    rcases hres : h.registry.applyRemoteRegistration typeName incoming with ⟨_ | effective, r⟩
    · rw [hres] at ht
      obtain ⟨_, rfl⟩ := Registry.applyRemoteRegistration_eq_none_iff.mp hres
      exact htypes t ht
    · rw [hres] at ht
      obtain ⟨_, _, rfl⟩ := Registry.applyRemoteRegistration_eq_some_iff.mp hres
      rcases (AList.mem_insert _).mp (AList.mem_keys.mpr ht) with rfl | hold
      · exact hmade
      · exact htypes t (AList.mem_keys.mp hold)

end Types

namespace Daemon

variable {limits : Limits} {fwd : Bool} {daemonId : Str} {d d' : Daemon} {past es : List Event}
  {a : Action} {id : ℕ} {c : Conn}

/-- **The registered types are lines**, in every run in which the peer links hand over lines. -/
theorem types_of_run
    (hrun : Transition.Run (Daemon.step limits fwd) framedLinks (start daemonId limits) d past) :
    ∀ t ∈ d.hub.registry.types.keys, '\n' ∉ t := by
  refine hrun.invariant_of_reached (I := fun d _ => ∀ t ∈ d.hub.registry.types.keys, '\n' ∉ t)
    (by simp [start, Registry.new]) ?_
  intro d past a d' es hbefore htypes ha hstep
  have hchecked := (checked_of_run (hbefore.weaken fun _ _ _ _ => trivial)).1
  cases a with
  | accept i =>
    obtain ⟨_, rfl, _⟩ := step_accept_eq_some_iff.mp hstep
    exact htypes
  | inbound made =>
    simp only [Daemon.step, Option.some.injEq, Prod.mk.injEq] at hstep
    obtain ⟨rfl, _⟩ := hstep
    exact types_perform htypes (ha made rfl)
  | task i nowMs wake =>
    obtain ⟨c, c', h', done, hconn, hconnStep, rfl, _⟩ := step_task_eq_some_iff.mp hstep
    obtain ⟨_, hcalls⟩ := (hchecked i c hconn).step hconnStep
    obtain ⟨_, huses⟩ := Conn.step_uses hconnStep
    cases huses with
    | alone | channel => exact htypes
    | call made _ hone =>
      exact types_execute htypes (hcalls made (hone ▸ List.mem_singleton_self made)) c.id

/-- No write to the connection has failed. -/
def Unfailing (past : List Event) (id : ℕ) : Prop :=
  ∀ nowMs, .act (.task id nowMs .writeErr) ∉ past

/-- What every connection has written, as long as its writes succeed. -/
structure Laid (daemonId : Str) (d : Daemon) (past : List Event) : Prop where
  /-- The connections. -/
  conn : ∀ id c, d.conn id = some c → Unfailing past id →
    Kept daemonId c.phase (effectsOf id past) (takenBy past id)
  /-- Nothing was written before a connection was accepted. -/
  fresh : ∀ id, d.conn id = none → takenBy past id = [] ∧ effectsOf id past = []

/-- **A step of the daemon** keeps what is laid out. -/
theorem Laid.step (hlaid : Laid daemonId d past)
    (hids : ∀ id c, d.conn id = some c → c.id = id)
    (hpushes : ∀ id c, d.conn id = some c → ∀ p ∈ c.phase.pushes, p.Counted)
    (htypes : ∀ t ∈ d.hub.registry.types.keys, '\n' ∉ t)
    (hname : d.hub.registry.daemonId = daemonId)
    (hstep : Daemon.step limits fwd d a = some (d', es)) : Laid daemonId d' (past ++ es) := by
  have hadd : ∀ id, takenBy (past ++ es) id = takenBy past id ++ takenBy es id ∧
      effectsOf id (past ++ es) = effectsOf id past ++ effectsOf id es :=
    fun id => ⟨List.filterMap_append, List.filterMap_append⟩
  have hbefore : ∀ id, Unfailing (past ++ es) id → Unfailing past id := fun id hwrites nowMs hmem =>
    hwrites nowMs (List.mem_append_left _ hmem)
  refine ⟨fun id c hc hwrites => ?_, fun id hc => ?_⟩
  · rw [(hadd id).1, (hadd id).2]
    cases a with
    | accept i =>
      obtain ⟨hnone, rfl, rfl⟩ := step_accept_eq_some_iff.mp hstep
      have hquiet : takenBy [.act (.accept i)] id = [] ∧ effectsOf id [.act (.accept i)] = [] :=
        ⟨rfl, rfl⟩
      rw [hquiet.1, hquiet.2, List.append_nil, List.append_nil]
      dsimp only at hc
      by_cases hi : id = i
      · subst hi
        rw [Function.update_self] at hc
        obtain rfl := Option.some.inj hc
        obtain ⟨htook, hnothing⟩ := hlaid.fresh id hnone
        exact ⟨hnothing, htook⟩
      · rw [Function.update_of_ne hi] at hc
        exact hlaid.conn id c hc (hbefore id hwrites)
    | inbound made =>
      simp only [Daemon.step, Option.some.injEq, Prod.mk.injEq] at hstep
      obtain ⟨rfl, rfl⟩ := hstep
      rw [takenBy_received, effectsOf_received, List.append_nil, List.append_nil]
      exact hlaid.conn id c hc (hbefore id hwrites)
    | task i nowMs wake =>
      obtain ⟨c₁, c', h', done, hconn, hconnStep, rfl, rfl⟩ := step_task_eq_some_iff.mp hstep
      rw [takenBy_task, effectsOf_task]
      dsimp only at hc
      by_cases hi : id = i
      · subst hi
        rw [Function.update_self] at hc
        obtain rfl := Option.some.inj hc
        rw [if_pos rfl, if_pos rfl]
        have hid := hids id c₁ hconn
        have hwake : wake ≠ .writeErr := by
          rintro rfl
          exact hwrites nowMs (List.mem_append_right _ List.mem_cons_self)
        have hnotices : ∀ t count, .drop t count ∈ c₁.phase.pushes → '\n' ∉ t := fun t count hmem =>
          (isField_of_isValidType (hpushes id c₁ hconn _ hmem).1).2
        have hnext := (hlaid.conn id c₁ hconn (hbefore id hwrites)).step hnotices htypes hname hwake
          hconnStep
        rwa [hid] at hnext
      · rw [Function.update_of_ne hi] at hc
        rw [if_neg (Ne.symm hi), if_neg (Ne.symm hi), List.append_nil, List.append_nil]
        exact hlaid.conn id c hc (hbefore id hwrites)
  · have hnone := conn_of_step hstep hc
    obtain ⟨htook, hnothing⟩ := quiet_stranger hstep hnone
    rw [(hadd id).1, (hadd id).2, htook, hnothing, List.append_nil, List.append_nil]
    exact hlaid.fresh id hnone

/-- **What every connection has written** is laid out, in every run in which the peer links hand
over lines. -/
theorem laid_of_run
    (hrun : Transition.Run (Daemon.step limits fwd) framedLinks (start daemonId limits) d past) :
    Laid daemonId d past := by
  refine hrun.invariant_of_reached (I := fun d past => Laid daemonId d past)
    ⟨fun _ _ hc => (by cases hc), fun _ _ => ⟨rfl, rfl⟩⟩ ?_
  intro d past a d' es hbefore hlaid _ hstep
  have hplain : Transition.Run (Daemon.step limits fwd) Transition.anyStep (start daemonId limits) d
      past := hbefore.weaken fun _ _ _ _ => trivial
  obtain ⟨ps, hacc⟩ := accounted_of_run hplain
  exact hlaid.step (subscriptionInvariant_of_run hplain).ids
    (fun id c hc => (hacc.conn id c hc).pushes) (types_of_run hbefore)
    (queueInvariant_of_run hplain).name hstep

/-- The items taken from the queues are lines where the id of the daemon is one. -/
theorem framedItems_of_run (hid : '\n' ∉ daemonId)
    (hrun : Transition.Run (Daemon.step limits fwd) framedLinks (start daemonId limits) d past)
    (id : ℕ) : ∀ out ∈ takenBy past id, out.push.Framed := by
  refine hrun.invariant_of_reached (I := fun _ past => ∀ out ∈ takenBy past id, out.push.Framed)
    (fun out hout => by cases hout) ?_
  intro d past a d' es hbefore htaken _ hstep out hout
  have hadd : takenBy (past ++ es) id = takenBy past id ++ takenBy es id := List.filterMap_append
  rw [hadd] at hout
  rcases List.mem_append.mp hout with hout | hout
  · exact htaken out hout
  · cases a with
    | accept i =>
      obtain ⟨_, _, rfl⟩ := step_accept_eq_some_iff.mp hstep
      cases hout
    | inbound made =>
      simp only [Daemon.step, Option.some.injEq, Prod.mk.injEq] at hstep
      obtain ⟨_, rfl⟩ := hstep
      rw [takenBy_received] at hout
      cases hout
    | task i nowMs wake =>
      obtain ⟨_, _, _, _, _, _, _, rfl⟩ := step_task_eq_some_iff.mp hstep
      rw [takenBy_task] at hout
      split at hout
      · unfold Conn.Wake.items at hout
        split at hout
        · have hmem := List.mem_of_mem_head? (Option.mem_toList.mp hout)
          exact ((framed_of_run hid hbefore).hub.chan i).queue out hmem
        · cases hout
      · cases hout

/-- **The response discipline of a connection.** Whatever the other connections and the peer links
of a daemon do, and however the octets of its client arrive: a connection whose writes succeed has
written nothing, or the greeting and then complete units, with nothing behind one that announces
the end. An exchange is incomplete only while the body of a `PUBLISH` is awaited, or where the
stream ended in it. What is pushed of the queue are the items taken from it, which are lines where
the id of the daemon is one. -/
theorem response_discipline
    (hrun : Transition.Run (Daemon.step limits fwd) framedLinks (start daemonId limits) d past)
    (hconn : d.conn id = some c) (hwrites : Unfailing past id) :
    (c.phase = .start ∧ effectsOf id past = [] ∨
        Disciplined daemonId c.phase (effectsOf id past) (takenBy past id)) ∧
      ('\n' ∉ daemonId → ∀ out ∈ takenBy past id, out.push.Framed) := by
  refine ⟨?_, fun hid => framedItems_of_run hid hrun id⟩
  have hkept := (laid_of_run hrun).conn id c hconn hwrites
  by_cases hstart : c.phase = .start
  · rw [hstart] at hkept
    exact Or.inl ⟨hstart, hkept.1⟩
  · exact Or.inr (hkept.disciplined hstart)

/-- A client registers a type and subscribes to it, sends a line that is no command, publishes a
message, has it pushed, and quits. -/
def sessionTrace : List Action :=
  arrival 1 ++ arrives 1 (Str.asBytes "REGISTER t k\r\nSUBSCRIBE t\r\nBOGUS\r\n".toList) 8 ++
    arrives 1 (Str.asBytes "PUBLISH t k\r\n..hi\r\n.\r\n".toList) 6 ++
    .task 1 0 .recv :: List.replicate 3 (.task 1 0 .go) ++
    arrives 1 (Str.asBytes "QUIT\r\n".toList) 2

/-- Whether a peer link takes the step. -/
def Action.isInbound : Action → Bool
  | .inbound _ => true
  | _ => false

/-- Whether a write has failed. -/
def Event.isWriteErr : Event → Bool
  | .act (.task _ _ .writeErr) => true
  | _ => false

/-- The octets of a whole session. -/
theorem response_discipline_session : ∃ d past c,
    Transition.Run (Daemon.step {} true) framedLinks (start "d1".toList {}) d past ∧
      d.conn 1 = some c ∧ c.phase = .ended .ok ∧ Unfailing past 1 ∧
      outputOf (effectsOf 1 past) = Str.asBytes ("200 d1 macro-bus MBP/1.0 ready\r\n" ++
        "210 t registered\r\n" ++ "211 subscribed t\r\n" ++ "500 command unrecognized\r\n" ++
        "354 enter message body; end with <CRLF>.<CRLF>\r\n" ++ "250 message accepted\r\n" ++
        "101 MSG t d1-1 d1\r\n..hi\r\n.\r\n" ++ "221 closing connection\r\n").toList ∧
      Disciplined "d1".toList (.ended .ok) (effectsOf 1 past) (takenBy past 1) := by
  obtain ⟨d, past, hrun, hphase, hwrites, houtput⟩ :=
    Transition.exists_run (Daemon.step {} true)
      (fun _ _ a => !a.isInbound) (start "d1".toList {}) sessionTrace
      (P := fun d past => (d.conn 1).map Conn.phase = some (.ended .ok) ∧
        (past.all fun e => !e.isWriteErr) = true ∧
        outputOf (effectsOf 1 past) = Str.asBytes ("200 d1 macro-bus MBP/1.0 ready\r\n" ++
          "210 t registered\r\n" ++ "211 subscribed t\r\n" ++ "500 command unrecognized\r\n" ++
          "354 enter message body; end with <CRLF>.<CRLF>\r\n" ++ "250 message accepted\r\n" ++
          "101 MSG t d1-1 d1\r\n..hi\r\n.\r\n" ++ "221 closing connection\r\n").toList)
      (by decide +kernel)
  obtain ⟨c, hconn, hended⟩ := Option.map_eq_some_iff.mp hphase
  have hlinks : Transition.Run (Daemon.step {} true) framedLinks (start "d1".toList {}) d past := by
    refine hrun.weaken ?_
    rintro _ _ a ha made rfl
    cases ha
  have hunfailing : Unfailing past 1 := by
    intro nowMs hmem
    have hnot := List.all_eq_true.mp hwrites _ hmem
    cases hnot
  refine ⟨d, past, c, hlinks, hconn, hended, hunfailing, houtput, ?_⟩
  rcases (response_discipline hlinks hconn hunfailing).1 with ⟨hstart, _⟩ | hdisciplined
  · rw [hended] at hstart
    cases hstart
  · rwa [hended] at hdisciplined

end Daemon

end MacroBus
