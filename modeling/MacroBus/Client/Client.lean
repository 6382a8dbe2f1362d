import MacroBus.Lib.BufReader
import MacroBus.Proto.Output

/-!
# The client library

A client reads its connection octet by octet through a buffered reader. Pushes it meets
while it waits for a reply are kept for `next_event`. Each method is a function to what
it sends, what it returns, and the client after it.
-/

namespace MacroBus

/-- Default cap on a single received line. -/
def DEFAULT_MAX_LINE : ℕ := 128 * 1024

/-- An asynchronous, server-initiated event. -/
inductive Client.Event
  /-- A delivered message. -/
  | message (msg : Message)
  /-- A slow-consumer tail-drop notice. -/
  | drop (typeName : Str) (count : ℕ)
  /-- A free-form informational note. -/
  | note (text : Str)
  deriving DecidableEq

/-- Errors returned by the client. -/
inductive Client.Error
  /-- The connection has ended. -/
  | closed
  /-- The server answered a command with an error. -/
  | server (code : Code) (text : Str)
  /-- The server sent something that violates the protocol: what, and the text it shows. -/
  | protocol (reason shown : Str)
  /-- The octets of a code end inside a character, where the source panics. -/
  | panicked
  deriving DecidableEq

/-- What a client reads as the answer to a command. -/
abbrev Client.Response := Reply

/-- A client connection. -/
structure Client where
  /-- The stream from the daemon. -/
  io : BufReader UInt8
  /-- The pushes that were met while waiting for replies. -/
  pending : List Client.Event := []
  /-- The cap on a received line. -/
  maxLine : ℕ := DEFAULT_MAX_LINE
  /-- The daemon id of the greeting. -/
  daemonId : Str := []

namespace Client

/-- What a call sends and returns. -/
structure Outcome (α : Type) where
  /-- What is sent. -/
  sent : Bytes := []
  /-- What is returned. -/
  result : Except Error α

/-- Change what is returned. -/
def Outcome.map {α β : Type} (f : α → β) (o : Outcome α) : Outcome β := ⟨o.sent, o.result.map f⟩

/-- `split_status`: split `"<code> <text>"`. -/
def splitStatus (line : Str) : Except Error (Code × Str) :=
  if line.len < 3 then .error (.protocol "short response line: ".toList line)
  else
    match Str.splitAtOctet 3 line with
    | none => .error .panicked
    | some (digits, _) =>
      match parseUnsigned u16Values digits with
      | none => .error (.protocol "non-numeric status: ".toList line)
      | some code => .ok (code, ((Str.splitAtOctet 4 line).map Prod.snd).getD [])

/-- `read_line` behind the octets `buf`. The cap counts a carriage return. -/
def readLineFrom (maxLine : ℕ) (buf : Bytes) (io : BufReader UInt8) :
    Except Error Str × BufReader UInt8 :=
  match _hread : io.readByte with
  | none => (.error .closed, io)
  | some (byte, io') =>
    if byte = LF then (.ok (fromUtf8Lossy (stripCr buf)), io')
    else if (buf ++ [byte]).length > maxLine then
      (.error (.protocol "line too long".toList []), io')
    else readLineFrom maxLine (buf ++ [byte]) io'
termination_by io.remaining.length
decreasing_by exact BufReader.readByte_lt _hread

/-- `Client::read_line` -/
def readLine (c : Client) : Except Error Str × Client :=
  let (line, io) := readLineFrom c.maxLine [] c.io
  (line, { c with io := io })

section ReadLine

variable {maxLine : ℕ} {buf : Bytes} {io io' : BufReader UInt8}

/-- The end of the stream. -/
theorem readLineFrom_none (h : io.readByte = none) :
    readLineFrom maxLine buf io = (.error .closed, io) := by
  rw [readLineFrom]
  split
  · rfl
  · next heq => cases heq.symm.trans h

/-- One octet. -/
theorem readLineFrom_some {byte : UInt8} (h : io.readByte = some (byte, io')) :
    readLineFrom maxLine buf io =
      if byte = LF then (.ok (fromUtf8Lossy (stripCr buf)), io')
      else if (buf ++ [byte]).length > maxLine then
        (.error (.protocol "line too long".toList []), io')
      else readLineFrom maxLine (buf ++ [byte]) io' := by
  rw [readLineFrom]
  split
  · next heq => cases heq.symm.trans h
  · next heq =>
    obtain ⟨rfl, rfl⟩ := Prod.mk.inj (Option.some.inj (heq.symm.trans h))
    rfl

/-- Reading a line leaves no more than there was, and less where there was one. -/
theorem readLineFrom_le (maxLine : ℕ) (buf : Bytes) (io : BufReader UInt8) :
    (readLineFrom maxLine buf io).2.remaining.length ≤ io.remaining.length ∧
      ∀ line, (readLineFrom maxLine buf io).1 = .ok line →
        (readLineFrom maxLine buf io).2.remaining.length < io.remaining.length := by
  induction hn : io.remaining.length using Nat.strong_induction_on generalizing buf io with
  | _ n ih =>
    cases hread : io.readByte with
    | none =>
      rw [readLineFrom_none hread]
      exact ⟨hn.le, fun line hline => by cases hline⟩
    | some p =>
      obtain ⟨byte, io'⟩ := p
      have hlt := BufReader.readByte_lt hread
      rw [readLineFrom_some hread]
      split
      · exact ⟨by dsimp only; omega, fun _ _ => by dsimp only; omega⟩
      · split
        · exact ⟨by dsimp only; omega, fun _ _ => by dsimp only; omega⟩
        · have hrest := ih _ (hn ▸ hlt) (buf ++ [byte]) io' rfl
          exact ⟨by omega, fun line hline => lt_trans (hrest.2 line hline) (hn ▸ hlt)⟩

/-- A line that is read leaves less than there was. -/
theorem readLine_lt {c c' : Client} {line : Str} (h : c.readLine = (.ok line, c')) :
    c'.io.remaining.length < c.io.remaining.length := by
  obtain ⟨hline, rfl⟩ := Prod.mk.inj h
  exact (readLineFrom_le _ _ _).2 line hline

/-- Nothing comes back. -/
theorem readLine_le (c : Client) : c.readLine.2.io.remaining.length ≤ c.io.remaining.length :=
  (readLineFrom_le c.maxLine [] c.io).1

end ReadLine

/-- `read_block` behind the lines `out`. -/
def readBlockFrom (out : List Str) (c : Client) : Except Error (List Str) × Client :=
  match _hread : c.readLine with
  | (.error e, c') => (.error e, c')
  | (.ok line, c') =>
    if line = frame.TERMINATOR then (.ok out, c')
    else readBlockFrom (out ++ [frame.unstuffLine line]) c'
termination_by c.io.remaining.length
decreasing_by exact readLine_lt _hread

/-- `Client::read_block` -/
def readBlock (c : Client) : Except Error (List Str) × Client := readBlockFrom [] c

section ReadBlock

variable {c c' : Client} {out : List Str}

/-- A line that cannot be read. -/
theorem readBlockFrom_error {e : Error} (h : c.readLine = (.error e, c')) :
    readBlockFrom out c = (.error e, c') := by
  rw [readBlockFrom]
  split
  · next heq =>
    obtain ⟨he, rfl⟩ := Prod.mk.inj (heq.symm.trans h)
    cases he
    rfl
  · next heq => cases (Prod.mk.inj (heq.symm.trans h)).1

/-- One line of a block. -/
theorem readBlockFrom_ok {line : Str} (h : c.readLine = (.ok line, c')) :
    readBlockFrom out c = if line = frame.TERMINATOR then (.ok out, c')
      else readBlockFrom (out ++ [frame.unstuffLine line]) c' := by
  rw [readBlockFrom]
  split
  · next heq => cases (Prod.mk.inj (heq.symm.trans h)).1
  · next heq =>
    obtain ⟨he, rfl⟩ := Prod.mk.inj (heq.symm.trans h)
    cases he
    rfl

/-- A block leaves no more than there was. -/
theorem readBlockFrom_le (out : List Str) (c : Client) :
    (readBlockFrom out c).2.io.remaining.length ≤ c.io.remaining.length := by
  induction hn : c.io.remaining.length using Nat.strong_induction_on generalizing out c with
  | _ n ih =>
    have hle := readLine_le c
    rcases hread : c.readLine with ⟨e | line, c'⟩
    · rw [hread] at hle
      rw [readBlockFrom_error hread, ← hn]
      exact hle
    · have hlt := readLine_lt hread
      rw [readBlockFrom_ok hread]
      split
      · dsimp only
        omega
      · have := ih _ (hn ▸ hlt) (out ++ [frame.unstuffLine line]) c' rfl
        omega

end ReadBlock

/-- `Client::read_push`: the push whose first line has this code and goes on with `rest`. -/
def readPush (c : Client) (code : Code) (rest : Str) : Except Error Event × Client :=
  let fields := Str.split ' ' rest
  let kw := (fields[0]?).getD []
  if code = status.MSG then
    let typeName := (fields[1]?).getD []
    let msgId := (fields[2]?).getD []
    let origin := (fields[3]?).getD []
    if kw ≠ "MSG".toList then (.error (.protocol "bad 101 header: ".toList rest), c)
    else if typeName = [] ∨ msgId = [] ∨ origin = [] then
      (.error (.protocol "incomplete 101 header: ".toList rest), c)
    else
      match c.readBlock with
      | (.error e, c') => (.error e, c')
      | (.ok body, c') => (.ok (.message ⟨typeName, msgId, origin, body⟩), c')
  else if code = status.DROP then
    if kw ≠ "DROP".toList then (.error (.protocol "bad 102 header: ".toList rest), c)
    else
      match (fields[2]?).bind (parseUnsigned u64Values) with
      | none => (.error (.protocol "bad 102 count: ".toList rest), c)
      | some count => (.ok (.drop ((fields[1]?).getD []) count), c)
  else if code = status.NOTE then
    (.ok (.note ((Str.stripPrefix "NOTE ".toList rest).getD rest)), c)
  else (.error (.protocol "unknown 1xx code ".toList (decimal code)), c)

/-- A push leaves no more than there was. -/
theorem readPush_le (c : Client) (code : Code) (rest : Str) :
    (c.readPush code rest).2.io.remaining.length ≤ c.io.remaining.length := by
  have hblock := readBlockFrom_le [] c
  unfold readPush
  dsimp only
  split
  · split
    · exact le_rfl
    · split
      · exact le_rfl
      · split
        · next heq =>
          rw [show readBlockFrom [] c = _ from heq] at hblock
          exact hblock
        · next heq =>
          rw [show readBlockFrom [] c = _ from heq] at hblock
          exact hblock
  · split
    · split
      · exact le_rfl
      · split <;> exact le_rfl
    · split <;> exact le_rfl

/-- `Client::read_response`: the next reply. Pushes in front of it are kept. -/
def readResponse (c : Client) : Except Error Response × Client :=
  match _hread : c.readLine with
  | (.error e, c') => (.error e, c')
  | (.ok line, c') =>
    match splitStatus line with
    | .error e => (.error e, c')
    | .ok (code, rest) =>
      if status.isAsync code then
        match _hpush : c'.readPush code rest with
        | (.error e, c'') => (.error e, c'')
        | (.ok ev, c'') => readResponse { c'' with pending := c''.pending ++ [ev] }
      else if code = status.TYPE_LIST ∨ code = status.INFO_FOLLOWS then
        match c'.readBlock with
        | (.error e, c'') => (.error e, c'')
        | (.ok block, c'') => (.ok ⟨code, rest, some block⟩, c'')
      else (.ok ⟨code, rest, none⟩, c')
termination_by c.io.remaining.length
decreasing_by
  have hlt := readLine_lt _hread
  have hle := readPush_le c' code rest
  rw [_hpush] at hle
  dsimp only at hle ⊢
  omega

section ReadResponse

variable {c c' c'' : Client} {line rest : Str} {code : Code}

/-- No line. -/
theorem readResponse_error {e : Error} (h : c.readLine = (.error e, c')) :
    c.readResponse = (.error e, c') := by
  rw [readResponse]
  split
  · next heq =>
    obtain ⟨h1, rfl⟩ := Prod.mk.inj (heq.symm.trans h)
    cases h1
    rfl
  · next heq => cases (Prod.mk.inj (heq.symm.trans h)).1

/-- What becomes of a line. -/
theorem readResponse_ok (h : c.readLine = (.ok line, c')) :
    c.readResponse = match splitStatus line with
      | .error e => (.error e, c')
      | .ok (code, rest) =>
        if status.isAsync code then
          match c'.readPush code rest with
          | (.error e, c'') => (.error e, c'')
          | (.ok ev, c'') => readResponse { c'' with pending := c''.pending ++ [ev] }
        else if code = status.TYPE_LIST ∨ code = status.INFO_FOLLOWS then
          match c'.readBlock with
          | (.error e, c'') => (.error e, c'')
          | (.ok block, c'') => (.ok ⟨code, rest, some block⟩, c'')
        else (.ok ⟨code, rest, none⟩, c') := by
  rw [readResponse]
  split
  · next heq => cases (Prod.mk.inj (heq.symm.trans h)).1
  · next heq =>
    obtain ⟨h1, rfl⟩ := Prod.mk.inj (heq.symm.trans h)
    cases h1
    split
    · rfl
    · next code rest _ =>
      by_cases hasync : status.isAsync code = true
      · rw [if_pos hasync, if_pos hasync]
        split
        · next hpush => rw [hpush]
        · next hpush => rw [hpush]
      · rw [if_neg hasync, if_neg hasync]

/-- A push in front of the reply. -/
theorem readResponse_of_push {ev : Event} (hline : c.readLine = (.ok line, c'))
    (hsplit : splitStatus line = .ok (code, rest)) (hasync : status.isAsync code = true)
    (hpush : c'.readPush code rest = (.ok ev, c'')) :
    c.readResponse = readResponse { c'' with pending := c''.pending ++ [ev] } := by
  rw [readResponse_ok hline, hsplit]
  dsimp only
  rw [if_pos hasync, hpush]

/-- The reply. -/
theorem readResponse_of_reply (hline : c.readLine = (.ok line, c'))
    (hsplit : splitStatus line = .ok (code, rest)) (hasync : status.isAsync code = false) :
    c.readResponse = if code = status.TYPE_LIST ∨ code = status.INFO_FOLLOWS then
        match c'.readBlock with
        | (.error e, c'') => (.error e, c'')
        | (.ok block, c'') => (.ok ⟨code, rest, some block⟩, c'')
      else (.ok ⟨code, rest, none⟩, c') := by
  rw [readResponse_ok hline, hsplit]
  dsimp only
  rw [hasync, if_neg Bool.false_ne_true]

end ReadResponse

/-- `Client::expect`: a reply with any other code is an error. -/
def expect (c : Client) (expected : Code) : Except Error Response × Client :=
  match c.readResponse with
  | (.error e, c') => (.error e, c')
  | (.ok resp, c') =>
    if resp.code = expected then (.ok resp, c') else (.error (.server resp.code resp.text), c')

/-- `Client::send`: a line as it is sent. -/
def send (line : Str) : Bytes := Str.asBytes line ++ Str.asBytes frame.CRLF

/-- Send a command and expect this code; what is returned is taken from the reply. -/
def request {α : Type} (c : Client) (line : Str) (expected : Code) (value : Response → α) :
    Outcome α × Client :=
  let (resp, c') := c.expect expected
  (⟨send line, resp.map value⟩, c')

/-- `Client::register` -/
def register (c : Client) (typeName key : Str) : Outcome Unit × Client :=
  c.request ("REGISTER ".toList ++ typeName ++ ' ' :: key) status.REGISTERED fun _ => ()

/-- `Client::subscribe` -/
def subscribe (c : Client) (typeName : Str) : Outcome Unit × Client :=
  c.request ("SUBSCRIBE ".toList ++ typeName) status.SUBSCRIBED fun _ => ()

/-- `Client::unsubscribe` -/
def unsubscribe (c : Client) (typeName : Str) : Outcome Unit × Client :=
  c.request ("UNSUBSCRIBE ".toList ++ typeName) status.UNSUBSCRIBED fun _ => ()

/-- `Client::publish`: the body is sent only after the invitation. -/
def publish (c : Client) (typeName key : Str) (body : List Str) : Outcome Unit × Client :=
  let line := send ("PUBLISH ".toList ++ typeName ++ ' ' :: key)
  match c.readResponse with
  | (.error e, c') => (⟨line, .error e⟩, c')
  | (.ok resp, c') =>
    if resp.code ≠ status.START_BODY then (⟨line, .error (.server resp.code resp.text)⟩, c')
    else
      let (resp, c'') := c'.expect status.ACCEPTED
      (⟨line ++ Str.asBytes (frame.encodeBody body), resp.map fun _ => ()⟩, c'')

/-- `Client::list_types` -/
def listTypes (c : Client) : Outcome (List Str) × Client :=
  c.request "LIST TYPES".toList status.TYPE_LIST fun resp => resp.block.getD []

/-- `Client::capabilities` -/
def capabilities (c : Client) : Outcome (List Str) × Client :=
  c.request "CAPABILITIES".toList status.INFO_FOLLOWS fun resp => resp.block.getD []

/-- `Client::help` -/
def help (c : Client) : Outcome (List Str) × Client :=
  c.request "HELP".toList status.INFO_FOLLOWS fun resp => resp.block.getD []

/-- `Client::quit` -/
def quit (c : Client) : Outcome Unit × Client :=
  c.request "QUIT".toList status.CLOSING fun _ => ()

/-- `Client::next_event`: a kept push, or the next one. -/
def nextEvent (c : Client) : Except Error Event × Client :=
  match c.pending with
  | ev :: pending => (.ok ev, { c with pending := pending })
  | [] =>
    match c.readLine with
    | (.error e, c') => (.error e, c')
    | (.ok line, c') =>
      match splitStatus line with
      | .error e => (.error e, c')
      | .ok (code, rest) =>
        if status.isAsync code then c'.readPush code rest
        else
          (.error (.protocol "unexpected non-1xx line while awaiting a push: ".toList line), c')

/-- `Client::from_stream`: a client behind the greeting. -/
def fromStream (io : BufReader UInt8) : Except Error Client :=
  match readLine { io := io } with
  | (.error e, _) => .error e
  | (.ok greeting, c) =>
    match splitStatus greeting with
    | .error e => .error e
    | .ok (code, text) =>
      if code ≠ status.SERVICE_READY then .error (.server code text)
      else .ok { c with daemonId := Str.splitFirst ' ' text }

end Client

end MacroBus
