import MacroBus.Busd.Commands

/-!
# The replies of a connection

A command line is answered by one final reply, behind an invitation where it is a `PUBLISH` that
is let through. Whatever a client sends, the errors it is answered with are permanent ones.
-/

namespace MacroBus

/-- A final reply: neither a push nor an invitation, and with a block exactly where its code
announces one. -/
structure Reply.Final (r : Reply) : Prop where
  /-- The class of the code. -/
  code : status.classOf r.code = .positive ∨ status.classOf r.code = .transient ∨
    status.classOf r.code = .permanent
  /-- The block. -/
  block : r.block.isSome ↔ r.code = status.TYPE_LIST ∨ r.code = status.INFO_FOLLOWS

/-- The invitation to send a body. -/
def invitation : Reply :=
  { code := status.START_BODY, text := "enter message body; end with <CRLF>.<CRLF>".toList }

/-- The answer to an over-long command line. -/
def refusal : Reply := { code := status.SYNTAX, text := "command line too long".toList }

/-- The replies that answer a command line: one final reply, behind an invitation where a
`PUBLISH` is let through. -/
inductive Answers (line : Bytes) : List Reply → Prop
  /-- One reply. -/
  | once {r : Reply} : r.Final → Answers line [r]
  /-- An invitation and a reply. -/
  | invited {typeName key : Str} {r : Reply} :
      command.parse (fromUtf8Lossy line) = .ok (.publish typeName key) → r.Final →
      Answers line [invitation, r]

/-- The octets written. -/
def outputOf (done : List Effect) : Bytes :=
  done.flatMap fun
    | .wrote text => Str.asBytes text
    | _ => []

/-- The command lines consumed. -/
def commandsOf (done : List Effect) : List Bytes :=
  done.filterMap fun
    | .command line => some line
    | _ => none

section Lists

variable (done more : List Effect)

@[simp] theorem outputOf_append : outputOf (done ++ more) = outputOf done ++ outputOf more := by
  simp [outputOf]

@[simp] theorem commandsOf_append :
    commandsOf (done ++ more) = commandsOf done ++ commandsOf more := by
  simp [commandsOf]

/-- A status line is a reply without a block. -/
theorem outputOf_writeLine (code : Code) (text : Str) :
    outputOf [writeLine code text] = outStream [.reply { code := code, text := text }] := by
  simp [outputOf, writeLine, OutUnit.serialize, Reply.serialize]

end Lists

namespace command

section Errors

/-- The errors of the parser. -/
def errors : List ParseError :=
  [⟨status.SYNTAX_PARAMS, "command takes no arguments".toList⟩,
    ⟨status.SYNTAX_PARAMS, "missing argument".toList⟩,
    ⟨status.SYNTAX_PARAMS, "too many arguments".toList⟩,
    ⟨status.SYNTAX_PARAMS, "missing arguments".toList⟩,
    ⟨status.SYNTAX_PARAMS, "missing second argument".toList⟩,
    ⟨status.INVALID_TYPE, "invalid message type name".toList⟩,
    ⟨status.SYNTAX_PARAMS, "invalid authorization key".toList⟩,
    ⟨status.SYNTAX_PARAMS, "LIST requires a sub-command (TYPES)".toList⟩,
    ⟨status.NOT_IMPLEMENTED, "only LIST TYPES is supported".toList⟩,
    ⟨status.SYNTAX, "empty command".toList⟩,
    ⟨status.SYNTAX, "command unrecognized".toList⟩]

/-- Every error is one of those of the parser. -/
def Listed {α : Type} (x : Except ParseError α) : Prop := ∀ e, x = .error e → e ∈ errors

/-- Every error is a permanent one. -/
def Permanent {α : Type} (x : Except ParseError α) : Prop :=
  ∀ e, x = .error e → status.classOf e.code = .permanent

variable {α β : Type} {rest : Str}

/-- A value is no error. -/
theorem listed_ok (a : α) : Listed (.ok a : Except ParseError α) := fun _ h => by cases h

/-- An error of the parser. -/
theorem listed_error {e : ParseError} (h : e ∈ errors) :
    Listed (.error e : Except ParseError α) := by
  rintro e' ⟨rfl⟩
  exact h

/-- One check after another. -/
theorem Listed.bind {x : Except ParseError α} {f : α → Except ParseError β} (hx : Listed x)
    (hf : ∀ a, Listed (f a)) : Listed (x >>= f) := by
  cases x with
  | error e => exact listed_error (hx e rfl)
  | ok a => exact hf a

/-- The check of a type. -/
theorem listed_checkType (t : Str) : Listed (checkType t) := by
  unfold checkType
  split
  · exact listed_ok ()
  · exact listed_error (by decide)

/-- The check of a key. -/
theorem listed_checkKey (k : Str) : Listed (checkKey k) := by
  unfold checkKey
  split
  · exact listed_ok ()
  · exact listed_error (by decide)

/-- No arguments. -/
theorem listed_expectNoArgs (cmd : Command) : Listed (expectNoArgs rest cmd) := by
  unfold expectNoArgs
  split
  · exact listed_ok cmd
  · exact listed_error (by decide)

/-- One argument. -/
theorem listed_typeOnly (cmd : Str → Command) : Listed (typeOnly rest cmd) := by
  have harg : Listed (oneArg rest) := by
    unfold oneArg
    dsimp only
    split
    · exact listed_error (by decide)
    split
    · exact listed_error (by decide)
    · exact listed_ok _
  exact harg.bind fun t => (listed_checkType t).bind fun _ => listed_ok _

/-- Two arguments. -/
theorem listed_typeAndKey (cmd : Str → Str → Command) : Listed (typeAndKey rest cmd) := by
  have hargs : Listed (twoArgs rest) := by
    unfold twoArgs
    split
    · exact listed_error (by decide)
    · exact listed_error (by decide)
    · exact listed_ok _
    · exact listed_error (by decide)
  exact hargs.bind fun p => (listed_checkType p.1).bind fun _ =>
    (listed_checkKey p.2).bind fun _ => listed_ok _

/-- **A line that is not parsed** has one of a few errors. -/
theorem listed_parse (line : Str) : Listed (parse line) := by
  have hlist : ∀ rest, Listed (listArgs rest) := by
    intro rest
    unfold listArgs
    split
    · exact listed_ok _
    split
    · exact listed_error (by decide)
    · exact listed_error (by decide)
  unfold parse
  dsimp only
  split
  · exact listed_error (by decide)
  split
  · exact listed_expectNoArgs _
  split
  · exact listed_expectNoArgs _
  split
  · exact listed_expectNoArgs _
  split
  · exact listed_typeAndKey _
  split
  · exact listed_typeAndKey _
  split
  · exact listed_typeOnly _
  split
  · exact listed_typeOnly _
  split
  · exact hlist _
  · exact listed_error (by decide)

/-- A line that is not parsed is answered with a permanent error. -/
theorem permanent_parse (line : Str) : Permanent (parse line) := by
  have hall : ∀ e ∈ errors, status.classOf e.code = .permanent := by decide
  exact fun e he => hall e (listed_parse line e he)

end Errors

end command

section Replies

variable {limits : Limits} {fwd : Bool} {nowMs : ℕ} {c : Conn} {h : Hub} {line : Bytes}

/-- The reply is final and does not announce the end of the connection. -/
def Reply.Plain (r : Reply) : Prop := r.Final ∧ r.code ≠ status.CLOSING

/-- A status line with a code of one of these classes, where it announces no block. -/
theorem plain_statusLine {code : Code} (text : Str)
    (hcode : status.classOf code = .positive ∨ status.classOf code = .transient ∨
      status.classOf code = .permanent)
    (hother : code ≠ status.TYPE_LIST ∧ code ≠ status.INFO_FOLLOWS ∧ code ≠ status.CLOSING) :
    Reply.Plain { code := code, text := text } :=
  ⟨⟨hcode, by simp [hother.1, hother.2.1]⟩, hother.2.2⟩

/-- A status line with a block, where it announces one. -/
theorem plain_block {code : Code} (text : Str) (lines : List Str)
    (hcode : code = status.TYPE_LIST ∨ code = status.INFO_FOLLOWS) :
    Reply.Plain { code := code, text := text, block := some lines } := by
  have hclass : status.classOf code = .positive := by rcases hcode with rfl | rfl <;> rfl
  have hclosing : code ≠ status.CLOSING := by rcases hcode with rfl | rfl <;> decide
  exact ⟨⟨Or.inl hclass, by simp [hcode]⟩, hclosing⟩

/-- A permanent error. -/
theorem plain_permanent {code : Code} (text : Str) (hcode : status.classOf code = .permanent) :
    Reply.Plain { code := code, text := text } := by
  refine plain_statusLine text (Or.inr (Or.inr hcode)) ⟨?_, ?_, ?_⟩ <;>
  · rintro rfl
    exact absurd hcode (by decide)

/-- A refused `PUBLISH` is replied to. -/
theorem plain_publishError {e : PublishError}
    (he : e.code = status.UNKNOWN_TYPE ∨ e.code = status.KEY_MISMATCH) :
    Reply.Plain { code := e.code, text := e.reason } := by
  rcases he with he | he <;> rw [he]
  · exact plain_statusLine _ (Or.inr (Or.inl rfl)) (by decide)
  · exact plain_statusLine _ (Or.inr (Or.inl rfl)) (by decide)

/-- No further command line is consumed for an answer. -/
theorem commandsOf_notTaking {done : List Effect} (h : ∀ e ∈ done, e.isTaking = false) :
    commandsOf done = [] := by
  unfold commandsOf
  rw [List.filterMap_eq_nil_iff]
  intro e he
  have htaking := h e he
  cases e with
  | command line => cases htaking
  | _ => rfl

end Replies

end MacroBus
