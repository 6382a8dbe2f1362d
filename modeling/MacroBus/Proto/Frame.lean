import MacroBus.Proto.Status
import MacroBus.Proto.Text

/-!
# Body framing and messages

A body is a sequence of lines, sent dot-stuffed and ended by a line that is a lone
dot. Deliveries to subscribers and FEED frames between daemons share this framing.
-/

namespace MacroBus

namespace frame

/-- The line that terminates a body. -/
def TERMINATOR : Str := ['.']

/-- The line terminator used on the wire. -/
def CRLF : Str := ['\r', '\n']

/-- Dot-stuff a single outgoing body line. -/
def stuffLine (line : Str) : Str :=
  match line with
  | '.' :: _ => '.' :: line
  | _ => line

/-- Reverse `stuffLine` for an incoming body line: strip one leading dot. -/
def unstuffLine (line : Str) : Str :=
  match line with
  | '.' :: rest => rest
  | _ => line

/-- Lines as they are sent inside a block: stuffed, each with its terminator. -/
def encodeLines (lines : List Str) : Str := lines.flatMap fun line => stuffLine line ++ CRLF

/-- A body as a complete block, including the terminating line. -/
def encodeBody (lines : List Str) : Str := encodeLines lines ++ TERMINATOR ++ CRLF

@[simp] theorem encodeLines_nil : encodeLines [] = [] := rfl

@[simp] theorem encodeLines_cons (line : Str) (lines : List Str) :
    encodeLines (line :: lines) = stuffLine line ++ CRLF ++ encodeLines lines := by
  simp [encodeLines]

/-- Unstuffing inverts stuffing. -/
@[simp] theorem unstuffLine_stuffLine (line : Str) : unstuffLine (stuffLine line) = line := by
  unfold stuffLine
  split
  · rfl
  · next h =>
    unfold unstuffLine
    split
    · next rest => exact absurd rfl (h rest)
    · rfl

/-- A stuffed line is never the terminator. -/
theorem stuffLine_ne_terminator (line : Str) : stuffLine line ≠ TERMINATOR := by
  unfold stuffLine TERMINATOR
  split
  · simp
  · next h =>
    rintro rfl
    exact h [] rfl

/-- Stuffing adds no character but a dot. -/
theorem mem_stuffLine {c : Char} {line : Str} (h : c ∈ stuffLine line) : c = '.' ∨ c ∈ line := by
  unfold stuffLine at h
  split at h
  · simpa using h
  · exact Or.inr h

end frame

/-- A published message as it travels through the bus. -/
structure Message where
  /-- The message type this was published to. -/
  typeName : Str
  /-- The identifier used for loop prevention. -/
  msgId : Str
  /-- The id of the daemon on which the message was first published. -/
  origin : Str
  /-- The body lines, un-stuffed. -/
  body : List Str
  deriving DecidableEq

/-- The `101 MSG` header line that precedes the body of a delivery. -/
def Message.msgHeader (m : Message) : Str :=
  decimal status.MSG ++ " MSG ".toList ++ m.typeName ++ ' ' :: m.msgId ++ ' ' :: m.origin

/-- The full `101 MSG` delivery block. -/
def Message.encodeDelivery (m : Message) : Str :=
  m.msgHeader ++ frame.CRLF ++ frame.encodeBody m.body

/-- The `FEED` header line used to forward a message to a peer. -/
def Message.feedHeader (m : Message) : Str :=
  "FEED ".toList ++ m.typeName ++ ' ' :: m.msgId ++ ' ' :: m.origin

/-- What a body counts towards the size limit: its lines, one octet of terminator
each. -/
def bodySize (lines : List Str) : ℕ := (lines.map fun line => line.len + 1).sum

/-- Protocol identifier used in greetings and capabilities. -/
def PROTOCOL_ID : Str := "MBP/1.0".toList

/-- The client-facing greeting line of a daemon. -/
def greeting (daemonId : Str) : Str :=
  decimal status.SERVICE_READY ++ ' ' :: daemonId ++ " macro-bus ".toList ++ PROTOCOL_ID ++
    " ready".toList

end MacroBus
