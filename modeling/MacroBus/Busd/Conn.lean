import MacroBus.Proto.Command
import MacroBus.Proto.Output
import MacroBus.Busd.Config
import MacroBus.Busd.Registry

/-!
# One client connection

The task of a connection as a machine that stops wherever the source awaits. A step
is either internal or resolves the await the task stands at: a socket read, an item
from the outbound queue, or the drop notification. Between two steps anything else
may happen to the shared hub. A command other than `PUBLISH` never touches the
outbound queue and waits for nothing but its own writes, so it is one step; a
`PUBLISH` waits for its body.
-/

namespace MacroBus

/-- The size of the stack buffer a socket read fills. -/
def READ_SIZE : ℕ := 8192

/-- Result of trying to extract a line from the read buffer. -/
inductive LineTake
  | line (line : Bytes)
  | need
  | tooLong
  deriving DecidableEq

/-- `Conn::take_line`: extract a complete line from the read buffer, if one is there.
An over-long complete line is removed from the buffer, an over-long unfinished one
stays in it. -/
def takeLine (max : ℕ) (rbuf : Bytes) : LineTake × Bytes :=
  match Lines.cut LF rbuf with
  | some (raw, rest) =>
    if (stripCr raw).length > max then (.tooLong, rest) else (.line (stripCr raw), rest)
  | none => if rbuf.length > max then (.tooLong, rbuf) else (.need, rbuf)

/-- What `read_body` has collected so far. -/
structure BodyAcc where
  /-- The unstuffed lines. -/
  lines : List Str := []
  /-- Their size against the limit. -/
  total : ℕ := 0
  /-- Whether the limit was exceeded; lines are no longer kept then. -/
  tooLarge : Bool := false
  deriving DecidableEq

/-- One body line of `read_body`. -/
def BodyAcc.push (limits : Limits) (acc : BodyAcc) (s : Str) : BodyAcc :=
  let unstuffed := frame.unstuffLine s
  let total := acc.total + (unstuffed.len + 1)
  let tooLarge := acc.tooLarge || decide (total > limits.maxMessageBytes)
  { lines := if tooLarge then acc.lines else acc.lines ++ [unstuffed]
    total := total
    tooLarge := tooLarge }

/-- The result of a body that reached its terminator. -/
def BodyAcc.result (acc : BodyAcc) : Option (List Str) :=
  if acc.tooLarge then none else some acc.lines

/-- What is collected of the lines of a body. -/
theorem BodyAcc.foldl_received (limits : Limits) (received : List Str) :
    let acc := received.foldl (BodyAcc.push limits) {}
    acc.total = bodySize (received.map frame.unstuffLine) ∧
      acc.tooLarge = decide (limits.maxMessageBytes < bodySize (received.map frame.unstuffLine)) ∧
      (acc.tooLarge = false → acc.lines = received.map frame.unstuffLine) := by
  induction received using List.reverseRecOn with
  | nil => simp [bodySize]
  | append_singleton received s ih =>
    have hsize : bodySize ((received ++ [s]).map frame.unstuffLine) =
        bodySize (received.map frame.unstuffLine) + ((frame.unstuffLine s).len + 1) := by
      simp [bodySize]
    rw [List.foldl_append, hsize]
    dsimp only at ih
    obtain ⟨htotal, hlarge, hlines⟩ := ih
    simp only [List.foldl_cons, List.foldl_nil, BodyAcc.push, htotal, hlarge]
    refine ⟨trivial, ?_, ?_⟩
    · rw [Bool.eq_iff_iff, Bool.or_eq_true, decide_eq_true_eq, decide_eq_true_eq]
      omega
    · intro hsmall
      rw [if_neg (by rw [hsmall]; exact Bool.false_ne_true)]
      rw [Bool.or_eq_false_iff] at hsmall
      rw [hlines (hlarge.trans hsmall.1), List.map_append]
      rfl

/-- **What becomes of the lines of a body**: they are unstuffed, unless they are too large. -/
theorem BodyAcc.result_received (limits : Limits) (received : List Str) :
    (received.foldl (BodyAcc.push limits) {}).result =
      if limits.maxMessageBytes < bodySize (received.map frame.unstuffLine) then none
      else some (received.map frame.unstuffLine) := by
  obtain ⟨_, hlarge, hlines⟩ := BodyAcc.foldl_received limits received
  unfold BodyAcc.result
  by_cases hsize : limits.maxMessageBytes < bodySize (received.map frame.unstuffLine)
  · rw [if_pos hsize, hlarge, decide_eq_true hsize, if_pos rfl]
  · rw [if_neg hsize]
    rw [decide_eq_false hsize] at hlarge
    rw [hlarge, hlines hlarge, if_neg Bool.false_ne_true]

/-- A body as it is sent becomes its lines, unless it is too large. -/
theorem BodyAcc.result_stuffed (limits : Limits) (lines : List Str) :
    ((lines.map frame.stuffLine).foldl (BodyAcc.push limits) {}).result =
      if limits.maxMessageBytes < bodySize lines then none else some lines := by
  have hlines : (lines.map frame.stuffLine).map frame.unstuffLine = lines := by
    rw [List.map_map]
    exact List.map_id'' frame.unstuffLine_stuffLine lines
  rw [BodyAcc.result_received, hlines]

/-- What is returned of a body is its lines, unstuffed. -/
theorem BodyAcc.result_eq_some {limits : Limits} {received lines : List Str}
    (h : (received.foldl (BodyAcc.push limits) {}).result = some lines) :
    lines = received.map frame.unstuffLine := by
  rw [BodyAcc.result_received] at h
  split at h
  · cases h
  · exact (Option.some.inj h).symm

/-- How `serve` ended: normally (QUIT, an over-long command line, end of stream), with a
read error, or because the stream ended inside a body. -/
inductive Exit
  | ok
  | io
  | midBody
  deriving DecidableEq

/-- Where the task of a connection stands. -/
inductive Phase
  /-- Before the greeting. -/
  | start
  /-- At the head of the loop. -/
  | top
  /-- Writing the drained drop notices. -/
  | flush (pending : List (Str × ℕ))
  /-- Before looking for a command line. -/
  | take
  /-- Waiting in `select!`. -/
  | select
  /-- Writing an item taken from the outbound queue. -/
  | deliver (out : Outbound)
  /-- Looking for the next body line of a `PUBLISH`. -/
  | body (typeName key : Str) (acc : BodyAcc)
  /-- Waiting for more of the body. -/
  | bodyRead (typeName key : Str) (acc : BodyAcc)
  /-- `serve` has returned. -/
  | ended (exit : Exit)
  /-- The connection has been removed from the registry and dropped with its buffer. -/
  | gone
  deriving DecidableEq

/-- A live client connection. -/
structure Conn where
  /-- Connection id. -/
  id : ℕ
  /-- Octets read and not yet consumed. -/
  rbuf : Bytes := []
  /-- The types this connection has subscribed to. -/
  mySubs : List Str := []
  /-- Where its task stands. -/
  phase : Phase := .start

/-- A call into the shared registry. -/
inductive Call
  | registerLocal (typeName key : Str) (nowMs : ℕ)
  | subscribe (typeName : Str)
  | unsubscribe (typeName : Str)
  | listTypes
  | publishPrecheck (typeName key : Str)
  | publishLocal (typeName key : Str) (body : List Str)
  | removeConn (types : List Str)
  deriving DecidableEq

/-- What a step of the task does to the outside. -/
inductive Effect
  /-- A command line is taken from the buffer and handed to `handle_command`. -/
  | command (line : Bytes)
  /-- A body line, or the terminator, is taken from the buffer. -/
  | bodyLine (line : Bytes)
  /-- An over-long line is met in a body; these octets are removed from the buffer. -/
  | giveUp (removed : Bytes)
  /-- Text is written to the client. -/
  | wrote (text : Str)
  /-- The registry is called. -/
  | call (call : Call)
  /-- `Forwarder::forward_local` -/
  | forwardLocal (msg : Message)
  /-- `Forwarder::propagate_registration` -/
  | propagateRegistration (typeName : Str) (reg : TypeReg)
  deriving DecidableEq

/-- `Conn::write_line` -/
def writeLine (code : Code) (text : Str) : Effect := .wrote (statusLine code text)

/-- `190` or `101`: what an item of the outbound queue is written as. -/
def writeOutbound : Outbound → Effect
  | .deliver msg => .wrote msg.encodeDelivery
  | .note text => writeLine status.NOTE text

/-- The lines of the capabilities block. -/
def capabilityLines (limits : Limits) : List Str :=
  ["VERSION ".toList ++ PROTOCOL_ID,
    "MAXMSG ".toList ++ decimal limits.maxMessageBytes,
    "QUEUE ".toList ++ decimal limits.queueDepth,
    "DROP-POLICY tail-drop".toList,
    "PAYLOAD text".toList,
    "TLS federation".toList]

/-- The lines of the help block. -/
def helpLines : List Str :=
  ["REGISTER <type> <key>    claim a type (first-registrant wins)".toList,
    "SUBSCRIBE <type>         start receiving a type (no key)".toList,
    "UNSUBSCRIBE <type>       stop receiving a type".toList,
    "PUBLISH <type> <key>     publish; then send body, end with '.'".toList,
    "LIST TYPES               list known types".toList,
    "CAPABILITIES             list capabilities".toList,
    "HELP                     this help".toList,
    "QUIT                     close the connection".toList]

namespace Conn

/-- The state shared by one step: the connection, the hub, and what was done. -/
abbrev Result := Conn × Hub × List Effect

/-- `Conn::handle_publish` up to the point where the body is awaited. -/
def beginPublish (c : Conn) (h : Hub) (typeName key : Str) : Result :=
  match h.registry.publishPrecheck typeName key with
  | some e =>
    ({ c with phase := .top }, h,
      [.call (.publishPrecheck typeName key), writeLine e.code e.reason])
  | none =>
    ({ c with phase := .body typeName key {} }, h,
      [.call (.publishPrecheck typeName key),
        writeLine status.START_BODY "enter message body; end with <CRLF>.<CRLF>".toList])

/-- `Conn::handle_publish` from the point where `read_body` has returned `body`. -/
def finishPublish (fwd : Bool) (c : Conn) (h : Hub) (typeName key : Str)
    (body : Option (List Str)) : Result :=
  match body with
  | none =>
    ({ c with phase := .top }, h, [writeLine status.TOO_LARGE "message too large".toList])
  | some lines =>
    match h.publishLocal typeName key lines with
    | (.ok msg, h') =>
      ({ c with phase := .top }, h',
        .call (.publishLocal typeName key lines) ::
          ((if fwd then [Effect.forwardLocal msg] else []) ++
            [writeLine status.ACCEPTED "message accepted".toList]))
    | (.error e, h') =>
      ({ c with phase := .top }, h',
        [.call (.publishLocal typeName key lines), writeLine e.code e.reason])

/-- `Conn::handle_command`, up to the body of a `PUBLISH`. -/
def handleCommand (limits : Limits) (fwd : Bool) (nowMs : ℕ) (c : Conn) (h : Hub)
    (line : Bytes) : Result :=
  match command.parse (fromUtf8Lossy line) with
  | .error e => ({ c with phase := .top }, h, [writeLine e.code e.reason])
  | .ok .quit =>
    ({ c with phase := .ended .ok }, h,
      [writeLine status.CLOSING "closing connection".toList])
  | .ok .capabilities =>
    ({ c with phase := .top }, h,
      [writeLine status.INFO_FOLLOWS "capabilities follow".toList,
        .wrote (frame.encodeBody (capabilityLines limits))])
  | .ok .help =>
    ({ c with phase := .top }, h,
      [writeLine status.INFO_FOLLOWS "help follows".toList, .wrote (frame.encodeBody helpLines)])
  | .ok .listTypes =>
    ({ c with phase := .top }, h,
      [writeLine status.TYPE_LIST "type list follows".toList, .call .listTypes,
        .wrote (frame.encodeBody h.registry.listTypes)])
  | .ok (.register typeName key) =>
    let called := Effect.call (.registerLocal typeName key nowMs)
    match h.registry.registerLocal typeName key nowMs with
    | (.ok reg, registry) =>
      ({ c with phase := .top }, { h with registry := registry },
        called ::
          ((if reg.changed && fwd then [Effect.propagateRegistration typeName reg.reg] else []) ++
            [writeLine status.REGISTERED (typeName ++ " registered".toList)]))
    | (.error e, registry) =>
      ({ c with phase := .top }, { h with registry := registry },
        [called, writeLine e.code e.reason])
  | .ok (.subscribe typeName) =>
    ({ c with mySubs := c.mySubs.insert typeName, phase := .top },
      { h with registry := h.registry.subscribe typeName c.id },
      [.call (.subscribe typeName),
        writeLine status.SUBSCRIBED ("subscribed ".toList ++ typeName)])
  | .ok (.unsubscribe typeName) =>
    ({ c with mySubs := c.mySubs.erase typeName, phase := .top },
      { h with registry := h.registry.unsubscribe typeName c.id },
      [.call (.unsubscribe typeName),
        writeLine status.UNSUBSCRIBED ("unsubscribed ".toList ++ typeName)])
  | .ok (.publish typeName key) => beginPublish c h typeName key

/-- One internal step. `none` where the task waits for something. -/
def go (limits : Limits) (fwd : Bool) (nowMs : ℕ) (c : Conn) (h : Hub) : Option Result :=
  match c.phase with
  | .start =>
    some ({ c with phase := .top }, h, [.wrote (greeting h.registry.daemonId ++ frame.CRLF)])
  | .top =>
    -- `flush_drops`: the map is drained under its lock before anything is written.
    match (h.chan c.id).drops.entries with
    | [] => some ({ c with phase := .take }, h, [])
    | entries =>
      some ({ c with phase := .flush (entries.map fun e => (e.1, e.2)) },
        { h with chan := Function.update h.chan c.id { h.chan c.id with drops := ∅ } }, [])
  | .flush [] => some ({ c with phase := .take }, h, [])
  | .flush ((typeName, count) :: pending) =>
    some ({ c with phase := .flush pending }, h,
      [writeLine status.DROP ("DROP ".toList ++ typeName ++ ' ' :: decimal count)])
  | .take =>
    match takeLine limits.maxCommandLineBytes c.rbuf with
    | (.line line, rest) =>
      let (c', h', done) := handleCommand limits fwd nowMs { c with rbuf := rest } h line
      some (c', h', .command line :: done)
    | (.tooLong, rest) =>
      some ({ c with rbuf := rest, phase := .ended .ok }, h,
        [writeLine status.SYNTAX "command line too long".toList])
    | (.need, rest) => some ({ c with rbuf := rest, phase := .select }, h, [])
  | .deliver out => some ({ c with phase := .top }, h, [writeOutbound out])
  | .body typeName key acc =>
    match takeLine limits.maxBodyLineBytes c.rbuf with
    | (.line line, rest) =>
      let c := { c with rbuf := rest }
      if fromUtf8Lossy line = frame.TERMINATOR then
        let (c', h', done) := finishPublish fwd c h typeName key acc.result
        some (c', h', .bodyLine line :: done)
      else
        some ({ c with phase := .body typeName key (acc.push limits (fromUtf8Lossy line)) }, h,
          [.bodyLine line])
    | (.tooLong, rest) =>
      -- The source returns from `read_body` here, wherever in the body the line stands.
      let (c', h', done) := finishPublish fwd { c with rbuf := rest } h typeName key none
      some (c', h', .giveUp (c.rbuf.take (c.rbuf.length - rest.length)) :: done)
    | (.need, rest) => some ({ c with rbuf := rest, phase := .bodyRead typeName key acc }, h, [])
  | .ended _ =>
    some ({ c with rbuf := [], mySubs := [], phase := .gone },
      { h with
        registry := h.registry.removeConn c.id c.mySubs
        chan := Function.update h.chan c.id { h.chan c.id with isOpen := false } },
      [.call (.removeConn c.mySubs)])
  | .select | .bodyRead .. | .gone => none

/-- What resolves the await a task stands at. -/
inductive Wake
  /-- Nothing to wait for. -/
  | go
  /-- A socket read returned these octets; no octets mean the end of the stream. -/
  | read (chunk : Bytes)
  /-- A socket read failed. -/
  | readErr
  /-- The outbound queue yields an item. -/
  | recv
  /-- The drop notification fires. -/
  | notified
  /-- The first write of an internal step fails. -/
  | writeErr
  deriving DecidableEq

/-- Whether an effect is a write. -/
def isWrite : Effect → Bool
  | .wrote _ => true
  | _ => false

/-- One step of the task of a connection. Where a step writes, everything else it does to
the connection and the registry comes first, so a failed write only cuts it short. -/
def step (limits : Limits) (fwd : Bool) (nowMs : ℕ) (wake : Wake) (c : Conn) (h : Hub) :
    Option Result :=
  match wake, c.phase with
  | .go, _ => go limits fwd nowMs c h
  | .read chunk, .select =>
    if chunk.length > READ_SIZE then none
    else if chunk = [] then some ({ c with phase := .ended .ok }, h, [])
    else some ({ c with rbuf := c.rbuf ++ chunk, phase := .top }, h, [])
  | .read chunk, .bodyRead typeName key acc =>
    if chunk.length > READ_SIZE then none
    else if chunk = [] then some ({ c with phase := .ended .midBody }, h, [])
    else some ({ c with rbuf := c.rbuf ++ chunk, phase := .body typeName key acc }, h, [])
  | .readErr, .select => some ({ c with phase := .ended .io }, h, [])
  | .readErr, .bodyRead .. => some ({ c with phase := .ended .midBody }, h, [])
  | .recv, .select =>
    match (h.chan c.id).queue with
    | [] => none
    | out :: queue =>
      some ({ c with phase := .deliver out },
        { h with chan := Function.update h.chan c.id { h.chan c.id with queue := queue } }, [])
  | .notified, .select =>
    if (h.chan c.id).permit then
      some ({ c with phase := .top },
        { h with chan := Function.update h.chan c.id { h.chan c.id with permit := false } }, [])
    else none
  | .writeErr, _ =>
    match go limits fwd nowMs c h with
    | some (c', h', done) =>
      if done.any isWrite then
        some ({ c' with phase := .ended .io }, h', done.takeWhile fun e => !isWrite e)
      else none
    | none => none
  | _, _ => none

/-- What is observed of a connection: octets received, and what its task did. -/
inductive Io
  | received (chunk : Bytes)
  | did (effect : Effect)
  deriving DecidableEq

/-- The octets a wake-up brings. -/
def Wake.received : Wake → List Io
  | .read chunk => [.received chunk]
  | _ => []

/-- The task of one connection by itself: every step finds whatever hub the rest of the
daemon has left. -/
def task (limits : Limits) (fwd : Bool) (c : Conn) (a : Hub × ℕ × Wake) :
    Option (Conn × List Io) :=
  (step limits fwd a.2.1 a.2.2 c a.1).map fun r => (r.1, a.2.2.received ++ r.2.2.map .did)

/-- The reads among what is observed. -/
def reads (io : List Io) : List Bytes :=
  io.filterMap fun
    | .received chunk => some chunk
    | .did _ => none

/-- The effects among what is observed. -/
def effects (io : List Io) : List Effect :=
  io.filterMap fun
    | .received _ => none
    | .did e => some e

@[simp] theorem reads_append (io io' : List Io) : reads (io ++ io') = reads io ++ reads io' := by
  simp [reads]

@[simp] theorem reads_did (es : List Effect) : reads (es.map .did) = [] := by
  simp [reads, List.filterMap_map]

@[simp] theorem effects_append (io io' : List Io) :
    effects (io ++ io') = effects io ++ effects io' := by
  simp [effects]

@[simp] theorem effects_did (es : List Effect) : effects (es.map .did) = es := by
  simp [effects, List.filterMap_map]

end Conn

end MacroBus
