import Mathlib.Algebra.Order.BigOperators.Group.List
import Mathlib.Algebra.Order.Group.Nat
import MacroBus.Busd.BodyPath

/-!
# What the readers strip

A receiver is to strip one leading dot from any body line that begins with two. The three
readers of bodies share a helper that strips a dot from any line that begins with one. Whoever
sends the lines, the readers return what they should exactly if no line begins with one dot
and not with two.
-/

namespace MacroBus

/-- A line as a reader decodes it. -/
def lineText (raw : Bytes) : Str := fromUtf8Lossy (stripCr raw)

/-- A body line without its stuffing: one dot less if it begins with two. -/
def unstuffed (line : Str) : Str :=
  match line with
  | '.' :: '.' :: rest => '.' :: rest
  | _ => line

/-- Whether a line begins with one dot and not with two. -/
def beginsWithOneDot (line : Str) : Bool :=
  match line with
  | '.' :: '.' :: _ => false
  | '.' :: _ => true
  | _ => false

/-- The body that these lines stand for. -/
def bodyOf (raws : List Bytes) : List Str := raws.map fun raw => unstuffed (lineText raw)

/-- What the readers make of these lines. -/
def bodyRead (raws : List Bytes) : List Str := raws.map fun raw => frame.unstuffLine (lineText raw)

section Lines

variable {line : Str} {raws : List Bytes}

/-- The helper strips a dot that is not stuffed from a line that begins with one dot. -/
theorem unstuffLine_eq_iff : frame.unstuffLine line = unstuffed line ↔
    beginsWithOneDot line = false := by
  cases line with
  | nil => simp [frame.unstuffLine, unstuffed, beginsWithOneDot]
  | cons c rest =>
    by_cases hc : c = '.'
    · subst hc
      cases rest with
      | nil => simp [frame.unstuffLine, unstuffed, beginsWithOneDot]
      | cons d rest =>
        by_cases hd : d = '.'
        · subst hd
          simp [frame.unstuffLine, unstuffed, beginsWithOneDot]
        · have hlen : d :: rest ≠ '.' :: d :: rest := fun heq => by
            simpa using congrArg List.length heq
          simp [frame.unstuffLine, unstuffed, beginsWithOneDot, hd]
    · simp [frame.unstuffLine, unstuffed, beginsWithOneDot, hc]

/-- The helper leaves no more than there should be. -/
theorem len_unstuffLine_le (line : Str) : (frame.unstuffLine line).len ≤ (unstuffed line).len := by
  unfold frame.unstuffLine
  split
  · next rest =>
    cases rest with
    | nil => simp [Str.len]
    | cons d rest =>
      by_cases hd : d = '.'
      · subst hd
        exact le_rfl
      · simp [unstuffed, hd, Str.len_cons]
  · next hdot =>
    unfold unstuffed
    split
    · next rest => exact absurd rfl (hdot _)
    · exact le_rfl

/-- The readers return the body exactly if no line begins with one dot. -/
theorem bodyRead_eq_iff : bodyRead raws = bodyOf raws ↔
    ∀ raw ∈ raws, beginsWithOneDot (lineText raw) = false := by
  unfold bodyRead bodyOf
  rw [List.map_inj_left]
  exact forall₂_congr fun raw _ => unstuffLine_eq_iff

/-- The readers return no more than they should. -/
theorem bodySize_bodyRead_le (raws : List Bytes) : bodySize (bodyRead raws) ≤ bodySize (bodyOf raws) := by
  unfold bodySize bodyRead bodyOf
  rw [List.map_map, List.map_map]
  refine List.sum_le_sum fun raw _ => ?_
  have hlen := len_unstuffLine_le (lineText raw)
  simpa using hlen

end Lines

section Readers

variable {raws : List Bytes} {term rest : Bytes} {limits : Limits}

/-- The lines of a body through `Conn::read_body`, however they arrive. -/
theorem Conn.readBodyFrom_raws {br : BufReader UInt8} (acc : BodyAcc)
    (hat : BodyAt br.remaining raws term rest)
    (hlen : ∀ raw ∈ raws ++ [term], raw.length ≤ limits.maxBodyLineBytes) :
    ∃ br', Conn.readBodyFrom limits acc br =
        (some ((raws.map lineText).foldl (BodyAcc.push limits) acc).result, br') ∧
      br'.remaining = rest := by
  induction raws generalizing acc br with
  | nil =>
    obtain ⟨hsplit, hterm, hdot⟩ := hat.terminator
    obtain ⟨br', hread, hrest⟩ := Conn.readLineBlocking_raw _ hsplit hterm (hlen term (by simp))
    exact ⟨br', by rw [Conn.readBodyFrom_line hread, if_pos hdot]; rfl, hrest⟩
  | cons raw raws ih =>
    obtain ⟨more, hsplit, hraw, hdot, hmore⟩ := hat.first
    obtain ⟨br₁, hread, hrest⟩ := Conn.readLineBlocking_raw _ hsplit hraw (hlen raw (by simp))
    obtain ⟨br', hbody, hrest'⟩ := ih (acc.push limits (lineText raw)) (hrest.symm ▸ hmore)
      fun r hr => hlen r (List.mem_cons_of_mem _ hr)
    refine ⟨br', ?_, hrest'⟩
    rw [Conn.readBodyFrom_line hread, if_neg hdot, List.map_cons, List.foldl_cons]
    exact hbody

/-- The lines of a body through the `read_body` of a peer link. -/
theorem federation.readBodyFrom_raws {br : BufReader UInt8} (acc : BodyAcc)
    (hat : BodyAt br.remaining raws term rest) :
    ∃ br', federation.readBodyFrom limits acc br =
        (some ((raws.map lineText).foldl (BodyAcc.push limits) acc).result, br') ∧
      br'.remaining = rest := by
  induction raws generalizing acc br with
  | nil =>
    obtain ⟨hsplit, hterm, hdot⟩ := hat.terminator
    obtain ⟨br', hread, hrest⟩ := federation.readLine_line hsplit hterm
    exact ⟨br', by rw [federation.readBodyFrom_some hread, if_pos hdot]; rfl, hrest⟩
  | cons raw raws ih =>
    obtain ⟨more, hsplit, hraw, hdot, hmore⟩ := hat.first
    obtain ⟨br₁, hread, hrest⟩ := federation.readLine_line hsplit hraw
    obtain ⟨br', hbody, hrest'⟩ := ih (acc.push limits (lineText raw)) (hrest.symm ▸ hmore)
    refine ⟨br', ?_, hrest'⟩
    rw [federation.readBodyFrom_some hread, if_neg hdot, List.map_cons, List.foldl_cons]
    exact hbody

/-- The lines of a block through `Client::read_block`. -/
theorem Client.readBlockFrom_raws {c : Client} (out : List Str)
    (hat : BodyAt c.io.remaining raws term rest)
    (hlen : ∀ raw ∈ raws ++ [term], raw.length ≤ c.maxLine) :
    ∃ io, Client.readBlockFrom out c = (.ok (out ++ bodyRead raws), { c with io := io }) ∧
      io.remaining = rest := by
  induction raws generalizing out c with
  | nil =>
    obtain ⟨hsplit, hterm, hdot⟩ := hat.terminator
    obtain ⟨io, hread, hrest⟩ := Client.readLine_raw hsplit hterm (hlen term (by simp))
    exact ⟨io, by rw [Client.readBlockFrom_ok hread, if_pos hdot]; simp [bodyRead], hrest⟩
  | cons raw raws ih =>
    obtain ⟨more, hsplit, hraw, hdot, hmore⟩ := hat.first
    obtain ⟨io₁, hread, hrest⟩ := Client.readLine_raw hsplit hraw (hlen raw (by simp))
    obtain ⟨io, hblock, hrest'⟩ := ih (c := { c with io := io₁ })
      (out ++ [frame.unstuffLine (lineText raw)]) (hrest.symm ▸ hmore)
      fun r hr => hlen r (List.mem_cons_of_mem _ hr)
    refine ⟨io, ?_, hrest'⟩
    rw [Client.readBlockFrom_ok hread, if_neg hdot]
    refine hblock.trans ?_
    rw [List.append_assoc]
    rfl

/-- What `Conn::read_body` returns. -/
theorem Conn.readBody_raws {br : BufReader UInt8} (hat : BodyAt br.remaining raws term rest)
    (hlen : ∀ raw ∈ raws ++ [term], raw.length ≤ limits.maxBodyLineBytes)
    (hsize : bodySize (bodyOf raws) ≤ limits.maxMessageBytes) :
    ∃ br', Conn.readBody limits br = (some (some (bodyRead raws)), br') ∧ br'.remaining = rest := by
  obtain ⟨br', hread, hrest⟩ := Conn.readBodyFrom_raws {} hat hlen
  have hbody : (raws.map lineText).map frame.unstuffLine = bodyRead raws := List.map_map ..
  rw [BodyAcc.result_received, hbody,
    if_neg (not_lt.mpr ((bodySize_bodyRead_le raws).trans hsize))] at hread
  exact ⟨br', hread, hrest⟩

/-- What the `read_body` of a peer link returns. -/
theorem federation.readBody_raws {br : BufReader UInt8} (hat : BodyAt br.remaining raws term rest)
    (hsize : bodySize (bodyOf raws) ≤ limits.maxMessageBytes) :
    ∃ br', federation.readBody limits br = (some (some (bodyRead raws)), br') ∧
      br'.remaining = rest := by
  obtain ⟨br', hread, hrest⟩ := federation.readBodyFrom_raws {} hat
  have hbody : (raws.map lineText).map frame.unstuffLine = bodyRead raws := List.map_map ..
  rw [BodyAcc.result_received, hbody,
    if_neg (not_lt.mpr ((bodySize_bodyRead_le raws).trans hsize))] at hread
  exact ⟨br', hread, hrest⟩

/-- **The readers unstuff what they should exactly if no line begins with one dot.** A stream
begins with a body whose lines and whose size are within the limits. Then the daemon's reader of
a `PUBLISH`, its reader of a peer link and the client's reader of a block each stop behind the
terminator, and return the lines with one dot less where they begin with two, exactly if no line
begins with one dot and not with two. -/
theorem bodies_unstuffed_iff (raws : List Bytes) (term rest : Bytes) (limits : Limits)
    (hsize : bodySize (bodyOf raws) ≤ limits.maxMessageBytes) :
    (∀ br : BufReader UInt8, BodyAt br.remaining raws term rest →
      (∀ raw ∈ raws ++ [term], raw.length ≤ limits.maxBodyLineBytes) →
      ((∃ br', Conn.readBody limits br = (some (some (bodyOf raws)), br') ∧
          br'.remaining = rest) ↔
        ∀ raw ∈ raws, beginsWithOneDot (lineText raw) = false)) ∧
    (∀ br : BufReader UInt8, BodyAt br.remaining raws term rest →
      ((∃ br', federation.readBody limits br = (some (some (bodyOf raws)), br') ∧
          br'.remaining = rest) ↔
        ∀ raw ∈ raws, beginsWithOneDot (lineText raw) = false)) ∧
    ∀ c : Client, BodyAt c.io.remaining raws term rest →
      (∀ raw ∈ raws ++ [term], raw.length ≤ c.maxLine) →
      ((∃ io, c.readBlock = (.ok (bodyOf raws), { c with io := io }) ∧ io.remaining = rest) ↔
        ∀ raw ∈ raws, beginsWithOneDot (lineText raw) = false) := by
  refine ⟨fun br hat hlen => ?_, fun br hat => ?_, fun c hat hlen => ?_⟩
  · obtain ⟨br', hread, hrest⟩ := Conn.readBody_raws hat hlen hsize
    rw [hread, ← bodyRead_eq_iff]
    constructor
    · rintro ⟨_, heq, _⟩
      simpa using congrArg Prod.fst heq
    · intro heq
      exact ⟨br', by rw [heq], hrest⟩
  · obtain ⟨br', hread, hrest⟩ := federation.readBody_raws hat hsize
    rw [hread, ← bodyRead_eq_iff]
    constructor
    · rintro ⟨_, heq, _⟩
      simpa using congrArg Prod.fst heq
    · intro heq
      exact ⟨br', by rw [heq], hrest⟩
  · obtain ⟨io, hread, hrest⟩ := Client.readBlockFrom_raws [] hat hlen
    rw [List.nil_append] at hread
    rw [Client.readBlock, hread, ← bodyRead_eq_iff]
    constructor
    · rintro ⟨_, heq, _⟩
      simpa using congrArg Prod.fst heq
    · intro heq
      exact ⟨io, by rw [heq], hrest⟩

/-- A body of a stuffed line, an empty line and a line of dots, read in two parts, with and
without carriage returns. -/
theorem bodies_unstuffed_iff_dots :
    (∃ br', Conn.readBody {} ⟨Str.asBytes "..a\r\n\n...".toList,
          [Str.asBytes "\r\n.\nQUIT\n".toList], by decide⟩ =
        (some (some [".a".toList, [], "..".toList]), br') ∧
      br'.remaining = Str.asBytes "QUIT\n".toList) :=
  ((bodies_unstuffed_iff [Str.asBytes "..a\r".toList, [], Str.asBytes "...\r".toList]
    (Str.asBytes ".".toList) (Str.asBytes "QUIT\n".toList) {} (by decide)).1 _
    ⟨by decide, by decide, by decide, by decide⟩ (by decide)).mpr (by decide)

/-- **A line that begins with one dot loses it**: the client that sends it by hand did not stuff
it, and it does not begin with two. -/
theorem single_dot_is_stripped :
    BodyAt (Str.asBytes ".x\r\n.\r\n".toList) [Str.asBytes ".x\r".toList]
        (Str.asBytes ".\r".toList) [] ∧
      bodyOf [Str.asBytes ".x\r".toList] = [".x".toList] ∧
      (∃ br', Conn.readBody {} (.ofList (Str.asBytes ".x\r\n.\r\n".toList)) =
        (some (some ["x".toList]), br')) ∧
      (∃ br', federation.readBody {} (.ofList (Str.asBytes ".x\r\n.\r\n".toList)) =
        (some (some ["x".toList]), br')) ∧
      ∃ c', Client.readBlock { io := .ofList (Str.asBytes ".x\r\n.\r\n".toList) } =
        (.ok ["x".toList], c') := by
  have hat : BodyAt (Str.asBytes ".x\r\n.\r\n".toList) [Str.asBytes ".x\r".toList]
      (Str.asBytes ".\r".toList) [] := ⟨by decide, by decide, by decide, by decide⟩
  have hat' : BodyAt (BufReader.ofList (Str.asBytes ".x\r\n.\r\n".toList)).remaining
      [Str.asBytes ".x\r".toList] (Str.asBytes ".\r".toList) [] := by
    rw [BufReader.remaining_ofList]
    exact hat
  have hread : bodyRead [Str.asBytes ".x\r".toList] = ["x".toList] := by decide
  have hsize : bodySize (bodyOf [Str.asBytes ".x\r".toList]) ≤ Limits.maxMessageBytes {} := by
    decide
  refine ⟨hat, by decide, ?_, ?_, ?_⟩
  · obtain ⟨br', hbody, _⟩ := Conn.readBody_raws hat' (by decide) hsize
    exact ⟨br', hread ▸ hbody⟩
  · obtain ⟨br', hbody, _⟩ := federation.readBody_raws hat' hsize
    exact ⟨br', hread ▸ hbody⟩
  · obtain ⟨io, hblock, _⟩ := Client.readBlockFrom_raws
      (c := { io := .ofList (Str.asBytes ".x\r\n.\r\n".toList) }) [] hat' (by decide)
    rw [List.nil_append, hread] at hblock
    exact ⟨_, hblock⟩

end Readers

end MacroBus
