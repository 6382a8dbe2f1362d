import Mathlib.Data.Nat.Notation

/-!
# Status codes

The three-digit codes of the protocol and their classes. A client tells a push
from a reply by the leading digit alone.
-/

namespace MacroBus

/-- A three-digit status code, a `u16` in the source. -/
abbrev Code := ℕ

namespace status

/-- Message delivery to a subscriber. -/
def MSG : Code := 101
/-- Slow-consumer tail-drop notice. -/
def DROP : Code := 102
/-- Free-form informational note. -/
def NOTE : Code := 190
/-- Service ready, the connection greeting. -/
def SERVICE_READY : Code := 200
/-- Message type registered. -/
def REGISTERED : Code := 210
/-- Subscribed to a type. -/
def SUBSCRIBED : Code := 211
/-- Unsubscribed from a type. -/
def UNSUBSCRIBED : Code := 212
/-- Type list follows. -/
def TYPE_LIST : Code := 215
/-- Closing connection. -/
def CLOSING : Code := 221
/-- Capabilities or help follow. -/
def INFO_FOLLOWS : Code := 231
/-- Message accepted. -/
def ACCEPTED : Code := 250
/-- Start message body. -/
def START_BODY : Code := 354
/-- Unknown message type. -/
def UNKNOWN_TYPE : Code := 430
/-- Type already registered. -/
def ALREADY_REGISTERED : Code := 433
/-- Authorization key mismatch. -/
def KEY_MISMATCH : Code := 441
/-- Message too large. -/
def TOO_LARGE : Code := 452
/-- Syntax error, command unrecognized. -/
def SYNTAX : Code := 500
/-- Syntax error in parameters or arguments. -/
def SYNTAX_PARAMS : Code := 501
/-- Command not implemented. -/
def NOT_IMPLEMENTED : Code := 502
/-- Invalid message type name. -/
def INVALID_TYPE : Code := 521

/-- Classification of a status code by its leading digit. -/
inductive Class
  | async
  | positive
  | intermediate
  | transient
  | permanent
  | other
  deriving DecidableEq

/-- Classify a status code by its leading digit. -/
def classOf (code : Code) : Class :=
  match code / 100 with
  | 1 => .async
  | 2 => .positive
  | 3 => .intermediate
  | 4 => .transient
  | 5 => .permanent
  | _ => .other

/-- Whether a code announces an asynchronous push. -/
def isAsync (code : Code) : Bool := classOf code = .async

/-- The pushes are exactly the codes with leading digit one. -/
theorem isAsync_iff (code : Code) : isAsync code = true ↔ 100 ≤ code ∧ code < 200 := by
  have h : classOf code = .async ↔ code / 100 = 1 := by
    unfold classOf
    split <;> simp_all
  have hdiv : ∀ n : ℕ, n / 100 = 1 ↔ 100 ≤ n ∧ n < 200 := fun n => by omega
  rw [isAsync, decide_eq_true_eq, h]
  exact hdiv code

end status

end MacroBus
