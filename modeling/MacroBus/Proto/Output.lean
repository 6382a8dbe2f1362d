import MacroBus.Proto.Wire

/-!
# What a daemon writes to a client

Everything behind the greeting is a sequence of units: a push, or a reply. A client can
tell them apart by the first digit of their first line, and knows from the code whether a
block follows.
-/

namespace MacroBus

/-- A status line as it is written. -/
def statusLine (code : Code) (text : Str) : Str := decimal code ++ ' ' :: text ++ frame.CRLF

/-- An asynchronous, server-initiated push. -/
inductive Push
  /-- A delivered message. -/
  | message (msg : Message)
  /-- A slow-consumer notice. -/
  | drop (typeName : Str) (count : ℕ)
  /-- A note. -/
  | note (text : Str)
  deriving DecidableEq

/-- The status code of a push. -/
def Push.code : Push → Code
  | .message _ => status.MSG
  | .drop .. => status.DROP
  | .note _ => status.NOTE

/-- The text behind the code of a push. -/
def Push.text : Push → Str
  | .message msg =>
    "MSG".toList ++ ' ' :: (msg.typeName ++ ' ' :: (msg.msgId ++ ' ' :: msg.origin))
  | .drop typeName count => "DROP".toList ++ ' ' :: (typeName ++ ' ' :: decimal count)
  | .note text => text

/-- The block behind the first line of a push. -/
def Push.block : Push → Str
  | .message msg => frame.encodeBody msg.body
  | _ => []

/-- A push as it is written. -/
def Push.serialize : Push → Str
  | .message msg => msg.encodeDelivery
  | .drop typeName count =>
    statusLine status.DROP ("DROP ".toList ++ typeName ++ ' ' :: decimal count)
  | .note text => statusLine status.NOTE text

/-- A reply, or the invitation to send a body: a status line, and a block for the codes that
announce one. -/
structure Reply where
  /-- The status code. -/
  code : Code
  /-- The text behind it. -/
  text : Str
  /-- The lines of the block. -/
  block : Option (List Str) := none
  deriving DecidableEq

/-- A reply as it is written. -/
def Reply.serialize (r : Reply) : Str :=
  statusLine r.code r.text ++ (r.block.map frame.encodeBody).getD []

/-- A unit of output. -/
inductive OutUnit
  | push (p : Push)
  | reply (r : Reply)
  deriving DecidableEq

/-- A unit as it is written. -/
def OutUnit.serialize : OutUnit → Str
  | .push p => p.serialize
  | .reply r => r.serialize

/-- Units as they are written one after another. -/
def outStream (units : List OutUnit) : Bytes := units.flatMap fun u => Str.asBytes u.serialize

@[simp] theorem outStream_nil : outStream [] = [] := rfl

@[simp] theorem outStream_cons (u : OutUnit) (units : List OutUnit) :
    outStream (u :: units) = Str.asBytes u.serialize ++ outStream units := by
  simp [outStream]

@[simp] theorem outStream_append (units more : List OutUnit) :
    outStream (units ++ more) = outStream units ++ outStream more := by
  simp [outStream]

/-- A line that a client with this cap on its lines receives: its octets and one more, for
the carriage return, are within the cap, and it is one line. -/
def LineFits (maxLine : ℕ) (line : Str) : Prop := '\n' ∉ line ∧ line.len + 1 ≤ maxLine

/-- A block that a client with this cap receives. -/
def BlockFits (maxLine : ℕ) (lines : List Str) : Prop :=
  (∀ line ∈ lines, LineFits maxLine (frame.stuffLine line)) ∧ LineFits maxLine frame.TERMINATOR

/-- A push that a client with this cap receives: its lines fit, and the fields of a header are
words. -/
def Push.Fits (maxLine : ℕ) : Push → Prop
  | .message msg => (∀ field ∈ [msg.typeName, msg.msgId, msg.origin], field ≠ [] ∧ ' ' ∉ field) ∧
      LineFits maxLine msg.msgHeader ∧ BlockFits maxLine msg.body
  | .drop typeName count => ' ' ∉ typeName ∧ count < u64Values ∧
      LineFits maxLine (decimal status.DROP ++ ' ' :: ("DROP ".toList ++ typeName ++
        ' ' :: decimal count))
  | .note text => LineFits maxLine (decimal status.NOTE ++ ' ' :: text)

/-- A reply that a client with this cap receives: it is no push, its lines fit, and it has a
block exactly where its code announces one. -/
def Reply.Fits (maxLine : ℕ) (r : Reply) : Prop :=
  (200 ≤ r.code ∧ r.code < 1000) ∧ LineFits maxLine (decimal r.code ++ ' ' :: r.text) ∧
    match r.block with
    | none => r.code ≠ status.TYPE_LIST ∧ r.code ≠ status.INFO_FOLLOWS
    | some lines =>
      (r.code = status.TYPE_LIST ∨ r.code = status.INFO_FOLLOWS) ∧ BlockFits maxLine lines

/-- A unit that a client with this cap receives. -/
def OutUnit.Fits (maxLine : ℕ) : OutUnit → Prop
  | .push p => p.Fits maxLine
  | .reply r => r.Fits maxLine

instance (maxLine : ℕ) : DecidablePred (LineFits maxLine) := fun line =>
  inferInstanceAs (Decidable ('\n' ∉ line ∧ line.len + 1 ≤ maxLine))

instance (maxLine : ℕ) : DecidablePred (BlockFits maxLine) := fun lines =>
  inferInstanceAs (Decidable ((∀ line ∈ lines, LineFits maxLine (frame.stuffLine line)) ∧
    LineFits maxLine frame.TERMINATOR))

instance (maxLine : ℕ) : DecidablePred (Push.Fits maxLine)
  | .message msg => inferInstanceAs (Decidable ((∀ field ∈ [msg.typeName, msg.msgId, msg.origin],
      field ≠ [] ∧ ' ' ∉ field) ∧ LineFits maxLine msg.msgHeader ∧ BlockFits maxLine msg.body))
  | .drop typeName count => inferInstanceAs (Decidable (' ' ∉ typeName ∧ count < u64Values ∧
      LineFits maxLine (decimal status.DROP ++ ' ' :: ("DROP ".toList ++ typeName ++
        ' ' :: decimal count))))
  | .note text => inferInstanceAs (Decidable (LineFits maxLine (decimal status.NOTE ++ ' ' :: text)))

instance (maxLine : ℕ) : DecidablePred (Reply.Fits maxLine)
  | ⟨code, text, none⟩ => inferInstanceAs (Decidable ((200 ≤ code ∧ code < 1000) ∧
      LineFits maxLine (decimal code ++ ' ' :: text) ∧
        (code ≠ status.TYPE_LIST ∧ code ≠ status.INFO_FOLLOWS)))
  | ⟨code, text, some lines⟩ => inferInstanceAs (Decidable ((200 ≤ code ∧ code < 1000) ∧
      LineFits maxLine (decimal code ++ ' ' :: text) ∧
        ((code = status.TYPE_LIST ∨ code = status.INFO_FOLLOWS) ∧ BlockFits maxLine lines)))

instance (maxLine : ℕ) : DecidablePred (OutUnit.Fits maxLine)
  | .push p => inferInstanceAs (Decidable (p.Fits maxLine))
  | .reply r => inferInstanceAs (Decidable (r.Fits maxLine))

section Octets

/-- A status line in octets. -/
theorem asBytes_statusLine (code : Code) (text : Str) :
    Str.asBytes (statusLine code text) = wireLine (decimal code ++ ' ' :: text) := rfl

/-- The header of a delivery is a status line. -/
theorem msgHeader_eq (msg : Message) :
    msg.msgHeader = decimal status.MSG ++ ' ' :: (Push.message msg).text := by
  have hverb : " MSG ".toList = ' ' :: ("MSG".toList ++ [' ']) := by decide
  unfold Message.msgHeader Push.text
  rw [hverb]
  simp only [List.append_assoc, List.cons_append, List.nil_append]

/-- **A push in octets**: a status line, and its block. -/
theorem asBytes_push (p : Push) :
    Str.asBytes p.serialize = wireLine (decimal p.code ++ ' ' :: p.text) ++ Str.asBytes p.block := by
  cases p with
  | message msg =>
    have hsplit : Str.asBytes (Push.message msg).serialize =
        wireLine msg.msgHeader ++ Str.asBytes (frame.encodeBody msg.body) :=
      asBytes_append (msg.msgHeader ++ frame.CRLF) _
    rw [hsplit, msgHeader_eq]
    rfl
  | drop typeName count =>
    have hverb : "DROP ".toList = "DROP".toList ++ [' '] := by decide
    have htext : "DROP ".toList ++ typeName ++ ' ' :: decimal count =
        (Push.drop typeName count).text := by
      rw [hverb, Push.text]
      simp only [List.append_assoc, List.cons_append, List.nil_append]
    unfold Push.serialize
    dsimp only
    rw [htext, asBytes_statusLine]
    exact (List.append_nil _).symm
  | note text => exact (List.append_nil _).symm

/-- **A reply in octets**: a status line, and its block. -/
theorem asBytes_reply (r : Reply) :
    Str.asBytes r.serialize = wireLine (decimal r.code ++ ' ' :: r.text) ++
      ((r.block.map fun lines => Str.asBytes (frame.encodeBody lines)).getD []) := by
  unfold Reply.serialize
  rw [asBytes_append, asBytes_statusLine]
  cases r.block with
  | none => rfl
  | some lines => rfl

end Octets

end MacroBus
