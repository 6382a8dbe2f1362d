import MacroBus.Lib.BufReader
import MacroBus.Proto.Wire
import MacroBus.Busd.Conn
import MacroBus.Busd.Federation

/-!
# Reading federation frames

A peer link is a stream of lines. A FEED header is followed by a body, an RREG is one
line; anything else is skipped. Which calls of the registry the loop makes depends on
the stream alone, so it is a function from what remains to be read to these calls.
-/

namespace MacroBus

/-- `OutFrame::serialize` -/
def OutFrame.serialize : OutFrame → Str
  | .feed msg => msg.feedHeader ++ frame.CRLF ++ frame.encodeBody msg.body
  | .rreg typeName reg =>
    "RREG ".toList ++ typeName ++ ' ' :: reg.key ++ ' ' :: reg.originDaemon ++
      ' ' :: decimal reg.ts ++ frame.CRLF

/-- A call of the registry that `read_loop` makes. -/
inductive Inbound
  /-- `Registry::ingest_remote` -/
  | ingestRemote (msg : Message)
  /-- `Registry::apply_remote_registration` -/
  | applyRemoteRegistration (typeName : Str) (incoming : TypeReg)
  deriving DecidableEq

/-- A critical section of such a call. `ingest_remote` has two: the lock of the seen-set is free
again when it locks the registry. -/
inductive Section
  /-- `ingest_remote` records a message. -/
  | recordSeen (msg : Message)
  /-- `ingest_remote` fans out a message that was new. -/
  | fanOut (msg : Message)
  /-- `Registry::apply_remote_registration` -/
  | applyRemoteRegistration (typeName : Str) (incoming : TypeReg)
  deriving DecidableEq

/-- The section with which a call begins. -/
def Inbound.first : Inbound → Section
  | .ingestRemote msg => .recordSeen msg
  | .applyRemoteRegistration typeName incoming => .applyRemoteRegistration typeName incoming

/-- What a section does to the hub, and the frame that is broadcast after it, if any. -/
def Hub.perform (h : Hub) : Section → Hub × Option OutFrame
  | .recordSeen msg => ((h.recordSeen msg).2, none)
  | .fanOut msg => (h.fanoutLocked msg, some (.feed msg))
  | .applyRemoteRegistration typeName incoming =>
    let r := h.registry.applyRemoteRegistration typeName incoming
    ({ h with registry := r.2 }, r.1.map (.rreg typeName))

/-- What a call does to the hub where no one else comes between its sections. -/
def Hub.complete (h : Hub) : Inbound → Hub
  | .ingestRemote msg => (h.ingestRemote msg).2
  | .applyRemoteRegistration typeName incoming =>
    { h with registry := (h.registry.applyRemoteRegistration typeName incoming).2 }

namespace federation

/-- The receiving half of a peer link. -/
abbrev Reader := BufReader UInt8

/-- Drop the newline a line ends with. -/
def stripLf (buf : Bytes) : Bytes := if buf.getLast? = some LF then buf.dropLast else buf

/-- `read_line`: one line without its terminator; `none` at the end of the stream. Octets
behind the last newline are a line of their own. -/
def readLine (br : Reader) : Option Str × Reader :=
  let (buf, br') := br.readUntil LF
  if buf = [] then (none, br') else (some (fromUtf8Lossy (stripCr (stripLf buf))), br')

section ReadLine

variable {br : Reader} {raw rest : Bytes}

/-- A complete line. -/
theorem readLine_line (h : br.remaining = raw ++ LF :: rest) (hraw : LF ∉ raw) :
    ∃ br', readLine br = (some (fromUtf8Lossy (stripCr raw)), br') ∧ br'.remaining = rest := by
  obtain ⟨hline, hrest⟩ := BufReader.readUntil_line h hraw
  have hstrip : stripLf (raw ++ [LF]) = raw := by simp [stripLf]
  unfold readLine
  rcases hread : br.readUntil LF with ⟨buf, br'⟩
  rw [hread] at hline hrest
  dsimp only at hline hrest
  subst hline
  refine ⟨br', ?_, hrest⟩
  dsimp only
  rw [if_neg (by simp), hstrip]

/-- What stands behind the last newline. -/
theorem readLine_last (hraw : LF ∉ br.remaining) (hne : br.remaining ≠ []) :
    ∃ br', readLine br = (some (fromUtf8Lossy (stripCr br.remaining)), br') ∧
      br'.remaining = [] := by
  obtain ⟨hline, hrest⟩ := BufReader.readUntil_eof hraw
  have hstrip : stripLf br.remaining = br.remaining := by
    unfold stripLf
    rw [if_neg]
    intro hlast
    exact hraw (List.mem_of_getLast? hlast)
  unfold readLine
  rcases hread : br.readUntil LF with ⟨buf, br'⟩
  rw [hread] at hline hrest
  dsimp only at hline hrest
  subst hline
  refine ⟨br', ?_, hrest⟩
  dsimp only
  rw [if_neg hne, hstrip]

/-- The end of the stream. -/
theorem readLine_eof (h : br.remaining = []) :
    ∃ br', readLine br = (none, br') ∧ br'.remaining = [] := by
  obtain ⟨hline, hrest⟩ := BufReader.readUntil_eof (show LF ∉ br.remaining by simp [h])
  unfold readLine
  rcases hread : br.readUntil LF with ⟨buf, br'⟩
  rw [hread, h] at hline
  rw [hread] at hrest
  dsimp only at hline hrest
  subst hline
  exact ⟨br', rfl, hrest⟩

/-- A line that is read leaves less than there was. -/
theorem readLine_lt {br' : Reader} {line : Str} (h : readLine br = (some line, br')) :
    br'.remaining.length < br.remaining.length := by
  cases hcut : Lines.cut LF br.remaining with
  | some p =>
    obtain ⟨hsplit, hraw⟩ := Lines.cut_eq_some_iff.mp hcut
    obtain ⟨br'', hread, hrest⟩ := readLine_line hsplit hraw
    obtain ⟨_, rfl⟩ := Prod.mk.inj (hread.symm.trans h)
    rw [hrest, hsplit, List.length_append, List.length_cons]
    omega
  | none =>
    have hraw := Lines.cut_eq_none_iff.mp hcut
    by_cases hne : br.remaining = []
    · obtain ⟨br'', hread, _⟩ := readLine_eof hne
      cases (Prod.mk.inj (hread.symm.trans h)).1
    · obtain ⟨br'', hread, hrest⟩ := readLine_last hraw hne
      obtain ⟨_, rfl⟩ := Prod.mk.inj (hread.symm.trans h)
      rw [hrest]
      exact List.length_pos_of_ne_nil hne

end ReadLine

/-- `read_body` once it has collected `acc`: the body, or `none` in place of it if it is too
large; no result at all where the stream ends inside the body. -/
def readBodyFrom (limits : Limits) (acc : BodyAcc) (br : Reader) :
    Option (Option (List Str)) × Reader :=
  match _hread : readLine br with
  | (none, br') => (none, br')
  | (some line, br') =>
    if line = frame.TERMINATOR then (some acc.result, br')
    else readBodyFrom limits (acc.push limits line) br'
termination_by br.remaining.length
decreasing_by exact readLine_lt _hread

/-- `read_body` -/
def readBody (limits : Limits) (br : Reader) : Option (Option (List Str)) × Reader :=
  readBodyFrom limits {} br

section ReadBody

variable {limits : Limits} {acc : BodyAcc} {br : Reader}

/-- One line of a body. -/
theorem readBodyFrom_some {br' : Reader} {line : Str} (h : readLine br = (some line, br')) :
    readBodyFrom limits acc br =
      if line = frame.TERMINATOR then (some acc.result, br')
      else readBodyFrom limits (acc.push limits line) br' := by
  rw [readBodyFrom]
  split
  · next heq => cases (Prod.mk.inj (heq.symm.trans h)).1
  · next heq =>
    obtain ⟨h1, rfl⟩ := Prod.mk.inj (heq.symm.trans h)
    rw [Option.some.inj h1]

/-- The end of the stream inside a body. -/
theorem readBodyFrom_none {br' : Reader} (h : readLine br = (none, br')) :
    readBodyFrom limits acc br = (none, br') := by
  rw [readBodyFrom]
  split
  · next heq =>
    obtain ⟨_, rfl⟩ := Prod.mk.inj (heq.symm.trans h)
    rfl
  · next heq => cases (Prod.mk.inj (heq.symm.trans h)).1

/-- A body leaves no more than there was. -/
theorem readBodyFrom_le (limits : Limits) (acc : BodyAcc) (br : Reader) :
    (readBodyFrom limits acc br).2.remaining.length ≤ br.remaining.length := by
  induction hn : br.remaining.length using Nat.strong_induction_on generalizing acc br with
  | _ n ih =>
    rcases hread : readLine br with ⟨_ | line, br'⟩
    · rw [readBodyFrom_none hread]
      by_cases hnil : br.remaining = []
      · obtain ⟨br'', hread', hrest⟩ := readLine_eof hnil
        obtain ⟨_, rfl⟩ := Prod.mk.inj (hread'.symm.trans hread)
        simp [hrest]
      · exfalso
        cases hcut : Lines.cut LF br.remaining with
        | some p =>
          obtain ⟨hsplit, hraw⟩ := Lines.cut_eq_some_iff.mp hcut
          obtain ⟨br'', hread', _⟩ := readLine_line hsplit hraw
          cases (Prod.mk.inj (hread'.symm.trans hread)).1
        | none =>
          obtain ⟨br'', hread', _⟩ := readLine_last (Lines.cut_eq_none_iff.mp hcut) hnil
          cases (Prod.mk.inj (hread'.symm.trans hread)).1
    · have hlt := readLine_lt hread
      rw [readBodyFrom_some hread]
      split
      · dsimp only
        omega
      · have := ih _ (hn ▸ hlt) (acc.push limits line) br' rfl
        omega

end ReadBody

/-- The call `handle_feed` makes for a header, given what `read_body` returned. -/
def feedCall (rest : Str) (body : Option (List Str)) : Option Inbound :=
  let fields := Str.split ' ' rest
  let typeName := (fields[0]?).getD []
  let msgId := (fields[1]?).getD []
  let origin := (fields[2]?).getD []
  if typeName = [] ∨ msgId = [] ∨ origin = [] then none
  else body.map fun lines => .ingestRemote ⟨typeName, msgId, origin, lines⟩

/-- The call `handle_rreg` makes. -/
def rregCall (rest : Str) : Option Inbound :=
  let fields := Str.split ' ' rest
  let typeName := (fields[0]?).getD []
  let key := (fields[1]?).getD []
  let origin := (fields[2]?).getD []
  match (fields[3]?).bind (parseUnsigned u64Values) with
  | none => none
  | some ts =>
    if typeName = [] ∨ key = [] ∨ origin = [] then none
    else some (.applyRemoteRegistration typeName ⟨key, origin, ts⟩)

/-- How `read_loop` ends. -/
inductive LoopEnd
  /-- At the end of the stream, between two lines. -/
  | ok
  /-- At the end of the stream, inside a body. -/
  | midBody
  deriving DecidableEq

/-- `Cluster::read_loop`: the calls it makes, in order, and how it ends. -/
def readLoop (limits : Limits) (br : Reader) : List Inbound × LoopEnd :=
  match _hread : readLine br with
  | (none, _) => ([], .ok)
  | (some line, br') =>
    if line = [] then readLoop limits br'
    else if Str.splitFirst ' ' line = "FEED".toList then
      match _hbody : readBody limits br' with
      | (none, _) => ([], .midBody)
      | (some body, br'') =>
        let (calls, exit) := readLoop limits br''
        ((feedCall (Str.splitSecond ' ' line) body).toList ++ calls, exit)
    else if Str.splitFirst ' ' line = "RREG".toList then
      let (calls, exit) := readLoop limits br'
      ((rregCall (Str.splitSecond ' ' line)).toList ++ calls, exit)
    else readLoop limits br'
termination_by br.remaining.length
decreasing_by
  · exact readLine_lt _hread
  · have hle := readBodyFrom_le limits {} br'
    rw [show readBodyFrom limits {} br' = _ from _hbody] at hle
    have hlt := readLine_lt _hread
    dsimp only at hle
    omega
  · exact readLine_lt _hread
  · exact readLine_lt _hread

section ReadLoop

variable {limits : Limits} {br br' br'' : Reader} {line rest : Str} {body : Option (List Str)}

/-- The end of the stream. -/
theorem readLoop_none (h : readLine br = (none, br')) : readLoop limits br = ([], .ok) := by
  rw [readLoop]
  split
  · rfl
  · next heq => cases (Prod.mk.inj (heq.symm.trans h)).1

/-- A line that starts no frame. -/
theorem readLoop_skip (h : readLine br = (some line, br'))
    (hfeed : Str.splitFirst ' ' line ≠ "FEED".toList)
    (hrreg : Str.splitFirst ' ' line ≠ "RREG".toList) :
    readLoop limits br = readLoop limits br' := by
  rw [readLoop]
  split
  · next heq => cases (Prod.mk.inj (heq.symm.trans h)).1
  · next heq =>
    obtain ⟨h1, rfl⟩ := Prod.mk.inj (heq.symm.trans h)
    obtain rfl := (Option.some.inj h1).symm
    rw [if_neg hfeed, if_neg hrreg, ite_self]

/-- A registration. -/
theorem readLoop_rreg (h : readLine br = (some line, br'))
    (hverb : Str.splitFirst ' ' line = "RREG".toList) :
    readLoop limits br = ((rregCall (Str.splitSecond ' ' line)).toList ++ (readLoop limits br').1,
      (readLoop limits br').2) := by
  rw [readLoop]
  split
  · next heq => cases (Prod.mk.inj (heq.symm.trans h)).1
  · next heq =>
    obtain ⟨h1, rfl⟩ := Prod.mk.inj (heq.symm.trans h)
    obtain rfl := (Option.some.inj h1).symm
    have hne : line ≠ [] := by
      rintro rfl
      cases hverb
    rw [if_neg hne, hverb, if_neg (by decide), if_pos rfl]

/-- A message whose body ends. -/
theorem readLoop_feed (h : readLine br = (some line, br'))
    (hverb : Str.splitFirst ' ' line = "FEED".toList)
    (hbody : readBody limits br' = (some body, br'')) :
    readLoop limits br = ((feedCall (Str.splitSecond ' ' line) body).toList ++
      (readLoop limits br'').1, (readLoop limits br'').2) := by
  rw [readLoop]
  split
  · next heq => cases (Prod.mk.inj (heq.symm.trans h)).1
  · next heq =>
    obtain ⟨h1, rfl⟩ := Prod.mk.inj (heq.symm.trans h)
    obtain rfl := (Option.some.inj h1).symm
    have hne : line ≠ [] := by
      rintro rfl
      cases hverb
    rw [if_neg hne, if_pos hverb]
    split
    · next heq' => cases (Prod.mk.inj (heq'.symm.trans hbody)).1
    · next heq' =>
      obtain ⟨h2, rfl⟩ := Prod.mk.inj (heq'.symm.trans hbody)
      rw [Option.some.inj h2]

/-- A message whose body does not end. -/
theorem readLoop_midBody (h : readLine br = (some line, br'))
    (hverb : Str.splitFirst ' ' line = "FEED".toList)
    (hbody : readBody limits br' = (none, br'')) : readLoop limits br = ([], .midBody) := by
  rw [readLoop]
  split
  · next heq => cases (Prod.mk.inj (heq.symm.trans h)).1
  · next heq =>
    obtain ⟨h1, rfl⟩ := Prod.mk.inj (heq.symm.trans h)
    obtain rfl := (Option.some.inj h1).symm
    have hne : line ≠ [] := by
      rintro rfl
      cases hverb
    rw [if_neg hne, if_pos hverb]
    split
    · rfl
    · next heq' => cases (Prod.mk.inj (heq'.symm.trans hbody)).1

end ReadLoop

end federation

end MacroBus
