import MacroBus.Lib.Lines
import MacroBus.Proto.Frame

/-!
# Lines on the wire

Text is sent line by line, each line followed by a carriage return and a newline. A
reader splits its octets at the newlines, drops one carriage return, and decodes what
is left.
-/

namespace MacroBus

/-- Drop one trailing carriage return. -/
def stripCr (raw : Bytes) : Bytes := if raw.getLast? = some CR then raw.dropLast else raw

/-- The octets of the terminating line. -/
def DOT : Bytes := [46]

/-- A line reads as the terminator exactly when it is a single dot. -/
theorem fromUtf8Lossy_eq_terminator_iff (line : Bytes) :
    fromUtf8Lossy line = frame.TERMINATOR ↔ line = DOT :=
  Utf8.decodeLossy_eq_singleton_iff (by decide) line

/-- The octets of a text that goes on. -/
theorem asBytes_append (s t : Str) : Str.asBytes (s ++ t) = Str.asBytes s ++ Str.asBytes t :=
  Utf8.encode_append s t

/-- A line as it is sent, with its terminator. -/
def wireLine (s : Str) : Bytes := Str.asBytes (s ++ frame.CRLF)

/-- A sent line in octets. -/
theorem wireLine_eq (s : Str) : wireLine s = Str.asBytes s ++ [CR] ++ LF :: [] := by
  simp [wireLine, Str.asBytes, frame.CRLF, CR, LF]
  decide

/-- One carriage return is dropped, others stay. -/
@[simp] theorem stripCr_append (raw : Bytes) : stripCr (raw ++ [CR]) = raw := by
  simp [stripCr]

/-- Nothing is added by dropping a carriage return. -/
theorem stripCr_sublist (raw : Bytes) : (stripCr raw).Sublist raw := by
  unfold stripCr
  split
  · exact List.dropLast_sublist raw
  · exact List.Sublist.refl raw

/-- An ASCII character that is not in a text is not in its octets. -/
theorem notMem_asBytes {c : Char} (hc : c.toNat < 0x80) {s : Str} (h : c ∉ s) :
    UInt8.ofNat c.toNat ∉ Str.asBytes s := by
  have hval : (UInt8.ofNat c.toNat).toNat = c.toNat := Utf8.toNat_octet (by omega)
  intro hmem
  obtain ⟨d, hd, hoctet⟩ := List.mem_flatMap.mp hmem
  obtain ⟨_, hd'⟩ := Utf8.mem_encodeChar_ascii (by rwa [hval]) hoctet
  rw [hval] at hd'
  have hsame : d = c := Char.ext (UInt32.toNat_inj.mp hd')
  exact h (hsame ▸ hd)

/-- Text without newlines is sent without newlines. -/
theorem LF_notMem_asBytes {s : Str} (h : '\n' ∉ s) : LF ∉ Str.asBytes s :=
  notMem_asBytes (c := '\n') (by decide) h

/-- What of a sent line stands before its newline. -/
theorem LF_notMem_wire {s : Str} (h : '\n' ∉ s) : LF ∉ Str.asBytes s ++ [CR] := by
  rw [List.mem_append, not_or]
  exact ⟨LF_notMem_asBytes h, by decide⟩

/-- Reading text back. -/
@[simp] theorem fromUtf8Lossy_asBytes (s : Str) : fromUtf8Lossy (Str.asBytes s) = s :=
  Utf8.decodeLossy_encode s

/-- A decoded line has no newline where its octets have none. -/
theorem newline_notMem_fromUtf8Lossy {raw : Bytes} (h : LF ∉ raw) : '\n' ∉ fromUtf8Lossy raw := by
  have hcount := Utf8.count_decodeLossy (show '\n'.toNat < 0x80 by decide) raw
  rw [List.count_eq_zero_of_not_mem (show UInt8.ofNat '\n'.toNat ∉ raw by exact h)] at hcount
  exact List.count_eq_zero.mp hcount

/-- Stuffing adds no newline. -/
theorem newline_notMem_stuffLine {line : Str} (h : '\n' ∉ line) :
    '\n' ∉ frame.stuffLine line := by
  intro hmem
  rcases frame.mem_stuffLine hmem with hdot | hmem
  · simp at hdot
  · exact h hmem

/-- The lines of a body as they are sent. -/
theorem asBytes_encodeLines_cons (line : Str) (lines : List Str) :
    Str.asBytes (frame.encodeLines (line :: lines)) =
      wireLine (frame.stuffLine line) ++ Str.asBytes (frame.encodeLines lines) := by
  rw [frame.encodeLines_cons, wireLine, Str.asBytes, Utf8.encode_append]

/-- A body as it is sent. -/
theorem asBytes_encodeBody (lines : List Str) :
    Str.asBytes (frame.encodeBody lines) =
      Str.asBytes (frame.encodeLines lines) ++ wireLine frame.TERMINATOR := by
  rw [frame.encodeBody, List.append_assoc, wireLine, Str.asBytes, Utf8.encode_append]

end MacroBus
