import MacroBus.Busd.Turns
import MacroBus.Busd.HandedOn

/-!
# A network of daemons

The daemons of a cluster with all their connections, joined by streams of octets. A dialer writes
its greeting and then frames, octet by octet; the accepting end reads a greeting and then takes
turns on what has arrived. A turn ends in at most one call, which goes on in steps of its own: it
fans out the message it has recorded, and it broadcasts. Ids are compared as texts, as they were
read from greetings. A connection can be cut at any octet, and what was under way on it may still
be read: TLS reports such an end as an error, so what stands behind the last complete frame is
never taken for a line.
-/

namespace MacroBus

/-- True iff any federation (listener or peers) is configured. -/
def Config.federationEnabled (cfg : Config) : Bool :=
  cfg.cluster.listen.isSome || !cfg.cluster.peers.isEmpty

/-- How far `handle_inbound` has come. -/
inductive Accepted
  /-- It waits for the greeting. -/
  | greeting
  /-- It is in `read_loop`. -/
  | reading (fromPeer : Str)
  /-- It has returned. -/
  | ended
  deriving DecidableEq

/-- A connection between two daemons, from the end that accepted it. -/
structure Pipe where
  /-- How far this end has come. -/
  state : Accepted := .greeting
  /-- The octets that were written at the other end and not yet consumed at this one. -/
  octets : Bytes := []
  deriving DecidableEq

/-- The connections from a daemon to a peer it dials. -/
structure Wire where
  /-- How far `dial_once` has come. -/
  phase : LinkPhase := .down
  /-- The id the peer has greeted with. -/
  remoteId : Str := []
  /-- The bounded queue of the sender, oldest frame first. -/
  queue : List OutFrame := []
  /-- What `write_loop` has still to write of the frame it has taken. -/
  writing : Bytes := []
  /-- The octets from the peer that the dialer has not consumed. -/
  back : Bytes := []
  /-- The connection that is up, if any. -/
  pipe : Option Pipe := none
  /-- Connections that the dialer has lost. The peer may still read from them. -/
  lost : List Pipe := []
  deriving DecidableEq

namespace Wire

/-- Whether the sender is among the peers of its daemon. -/
def isPeer (w : Wire) : Bool := w.phase ≠ .down

/-- Whether `try_send` would succeed. -/
def hasRoom (w : Wire) : Bool := w.queue.length < PEER_QUEUE_DEPTH

/-- `try_send` on the sender, if it is among the peers. -/
def offer (w : Wire) (frame : OutFrame) : Wire :=
  if w.isPeer && w.hasRoom then { w with queue := w.queue ++ [frame] } else w

/-- One of the connections: the one that is up, or a lost one. -/
def pipeAt (w : Wire) : Option ℕ → Option Pipe
  | none => w.pipe
  | some k => w.lost[k]?

/-- Replace one of the connections. -/
def setPipe (w : Wire) (p : Pipe) : Option ℕ → Wire
  | none => { w with pipe := some p }
  | some k => { w with lost := w.lost.set k p }

/-- The dialer is done with its connection; this many octets of it still reach the peer. -/
def cut (w : Wire) (n : ℕ) : Wire where
  lost := w.lost ++ (w.pipe.map fun p => { p with octets := p.octets.take n }).toList

end Wire

/-- A call that has changed its daemon and not yet broadcast the result. -/
structure Sending where
  /-- The frame to broadcast. -/
  frame : OutFrame
  /-- The id of the peer it came from, if any. -/
  exclude : Option Str
  /-- The call is between the two sections of `ingest_remote`: the message has been recorded and is
  not fanned out yet. -/
  ingesting : Bool
  deriving DecidableEq

/-- The state of a network. -/
structure Network (ι : Type) where
  /-- The daemons with their connections. -/
  daemon : ι → Daemon
  /-- The connections from each daemon to each other. -/
  wire : ι → ι → Wire
  /-- The calls at each daemon that are still to broadcast. -/
  tasks : ι → List Sending

namespace Network

/-- A step of a network. -/
inductive Action (ι : Type)
  /-- A client connects. -/
  | accept (i : ι) (id : ℕ)
  /-- The task of a client's connection takes a step. -/
  | task (i : ι) (id nowMs : ℕ) (wake : Conn.Wake)
  /-- A call fans out the message it has recorded. -/
  | fanOut (i : ι) (k : ℕ)
  /-- A call broadcasts its frame. -/
  | broadcast (i : ι) (k : ℕ)
  /-- A dialer connects, and both ends write their greetings. -/
  | connect (i j : ι)
  /-- A dialer has read the greeting of its peer and inserts its sender. -/
  | insert (i j : ι)
  /-- A dialer takes the snapshot of the registrations. -/
  | snapshot (i j : ι)
  /-- A dialer pushes one record of its snapshot. -/
  | push (i j : ι)
  /-- A dialer starts its loops. -/
  | start (i j : ι)
  /-- `write_loop` takes a frame from the queue. -/
  | take (i j : ι)
  /-- `write_loop` writes some octets of it. -/
  | write (i j : ι) (n : ℕ)
  /-- `read_loop` of the dialer takes a turn. -/
  | readBack (i j : ι)
  /-- `handle_inbound` reads the greeting. -/
  | greet (i peer : ι) (k : Option ℕ)
  /-- `read_loop` of the accepting end takes a turn. -/
  | read (i peer : ι) (k : Option ℕ)
  /-- The accepting end meets an error. -/
  | fail (i peer : ι) (k : Option ℕ)
  /-- The dialer meets an error; this many octets still reach the peer. -/
  | lose (i j : ι) (n : ℕ)
  /-- A daemon restarts; this many octets still reach each peer. -/
  | restart (i : ι) (kept : ι → ℕ)

/-- What is observed of a step. -/
inductive Event (ι : Type)
  /-- Something at a daemon. -/
  | daemon (i : ι) (e : Daemon.Event)
  /-- Something in the cluster. -/
  | cluster (e : MacroBus.Event ι)
  deriving DecidableEq

/-- What of an event is seen of the cluster. -/
def Event.seen {ι : Type} : Event ι → Option (MacroBus.Event ι)
  | .daemon .. => none
  | .cluster e => some e

/-- What an event of a call leaves to do, and which peer is to be left out then. -/
def handed (exclude : Option Str) : Daemon.Event → Option Sending
  | .did _ e => e.handed.map fun frame => ⟨frame, exclude, false⟩
  | .ingested msg => some ⟨.feed msg, exclude, true⟩
  | .broadcast frame => some ⟨frame, exclude, false⟩
  | _ => none

variable {ι : Type}

/-- What the cluster sees of a call by a connection. -/
def shown (h : Hub) (i : ι) : Daemon.Event → List (MacroBus.Event ι)
  | .did _ (.call (.publishLocal typeName key body)) =>
    match (h.publishLocal typeName key body).1, h.registry.types.lookup typeName with
    | .ok msg, some held => [.published i key held msg (h.recipients msg)]
    | _, _ => []
  | .did _ (.call (.registerLocal typeName key nowMs)) =>
    match (h.registry.registerLocal typeName key nowMs).1 with
    | .ok ⟨reg, true⟩ => [.created i typeName reg]
    | _ => []
  | _ => []

/-- What the cluster sees when a peer link begins a call. -/
def shownInbound (h : Hub) (i peer : ι) : Inbound → List (MacroBus.Event ι)
  | .ingestRemote msg => [.ingested i peer msg (h.recordSeen msg).1]
  | .applyRemoteRegistration typeName incoming =>
    ((h.registry.applyRemoteRegistration typeName incoming).1.map fun effective =>
      .adopted i peer typeName effective).toList

variable [DecidableEq ι] (C : Cluster ι) (n : Network ι)

/-- Replace the connections between two daemons. -/
def setWire (i j : ι) (w : Wire) : Network ι :=
  { n with wire := Function.update n.wire i (Function.update (n.wire i) j w) }

/-- All daemons have just started. -/
def initial : Network ι where
  daemon i := Daemon.start (C.config i).daemonId (C.config i).limits
  wire _ _ := {}
  tasks _ := []

/-- A daemon takes a step of its own; what it leaves to do is one more call to go on with. -/
def act (i : ι) (a : Daemon.Action) (exclude : Option Str)
    (view : List Daemon.Event → List (MacroBus.Event ι)) : Option (Network ι × List (Event ι)) :=
  (Daemon.step (C.config i).limits (C.config i).federationEnabled (n.daemon i) a).map fun r =>
    ({ n with
        daemon := Function.update n.daemon i r.1
        tasks := Function.update n.tasks i (n.tasks i ++ r.2.filterMap (handed exclude)) },
      r.2.map (Event.daemon i) ++ (view r.2).map .cluster)

/-- What a turn of a reading loop at `i` does, on a connection with `peer` that is known under
this id. -/
def perform (i peer : ι) (fromPeer : Str) : Option Inbound → Option (Network ι × List (Event ι))
  | none => some (n, [])
  | some made => n.act C i (.inbound made.first) (some fromPeer) fun _ =>
      shownInbound (n.daemon i).hub i peer made

/-- A call fans out the message it has recorded, and is left with the broadcast. -/
def fanOut (i : ι) (k : ℕ) : Option (Network ι × List (Event ι)) :=
  match (n.tasks i)[k]? with
  | some ⟨.feed msg, exclude, true⟩ =>
    (Daemon.step (C.config i).limits (C.config i).federationEnabled (n.daemon i)
        (.inbound (.fanOut msg))).map fun r =>
      ({ n with
          daemon := Function.update n.daemon i r.1
          tasks := Function.update n.tasks i ((n.tasks i).set k ⟨.feed msg, exclude, false⟩) },
        r.2.map (Event.daemon i) ++
          [.cluster (.fannedOut i msg ((n.daemon i).hub.recipients msg))])
  | _ => none

/-- `Cluster::broadcast`: offer `frame` to all peers except `exclude`. -/
def broadcast (i : ι) (frame : OutFrame) (exclude : Option Str) : Network ι × List (Event ι) :=
  ({ n with wire := Function.update n.wire i fun j =>
      if some (C.config j).daemonId = exclude then n.wire i j else (n.wire i j).offer frame },
    ((C.peers i).filter fun j =>
        some (C.config j).daemonId ≠ exclude ∧ (n.wire i j).isPeer).map fun j =>
      .cluster (if (n.wire i j).hasRoom then .sent i j frame else .dropped i j frame))

/-- The connections of a network after the daemon `i` has died. -/
def wiresWithout (i : ι) (kept : ι → ℕ) (a b : ι) : Wire :=
  if b = i then {} else if a = i then (n.wire a b).cut (kept b) else n.wire a b

/-- A step of the network. -/
def step (n : Network ι) : Action ι → Option (Network ι × List (Event ι))
  | .accept i id => n.act C i (.accept id) none fun _ => []
  | .task i id nowMs wake =>
    n.act C i (.task id nowMs wake) none fun es => es.flatMap (shown (n.daemon i).hub i)
  | .fanOut i k => n.fanOut C i k
  | .broadcast i k =>
    match (n.tasks i)[k]? with
    | some ⟨frame, exclude, false⟩ =>
      some (broadcast C { n with tasks := Function.update n.tasks i ((n.tasks i).eraseIdx k) } i
        frame exclude)
    | _ => none
  | .connect i j =>
    let w := n.wire i j
    if j ∈ C.peers i ∧ (C.config j).cluster.listen.isSome ∧ w.pipe = none then
      some (n.setWire i j { w with
        pipe := some { octets := wireLine (peerGreeting (C.config i).daemonId) }
        back := wireLine (peerGreeting (C.config j).daemonId) }, [])
    else none
  | .insert i j =>
    let w := n.wire i j
    match w.phase, w.pipe, federation.arrivedLine w.back with
    | .down, some _, some (line, rest) =>
      some (n.setWire i j { w with
        phase := .inserted, queue := [], back := rest
        remoteId := (parseGreetingId line).getD (C.config j).daemonId }, [])
    | _, _, _ => none
  | .snapshot i j =>
    let w := n.wire i j
    if w.phase = .inserted then
      some (n.setWire i j { w with
        phase := .pushing (n.daemon i).hub.registry.allRegistrations }, [])
    else none
  | .push i j =>
    let w := n.wire i j
    match w.phase with
    | .pushing ((typeName, reg) :: rest) =>
      let frame := OutFrame.rreg typeName reg
      some (n.setWire i j { w.offer frame with phase := .pushing rest },
        [.cluster (if w.hasRoom then .sent i j frame else .dropped i j frame)])
    | _ => none
  | .start i j =>
    let w := n.wire i j
    if w.phase = .pushing [] then some (n.setWire i j { w with phase := .up }, []) else none
  | .take i j =>
    let w := n.wire i j
    match w.phase, w.writing, w.queue with
    | .up, [], frame :: queue =>
      some (n.setWire i j { w with
        queue := queue, writing := Str.asBytes frame.serialize }, [])
    | _, _, _ => none
  | .write i j m =>
    let w := n.wire i j
    match w.pipe with
    | some p =>
      some (n.setWire i j { w with
        pipe := some { p with octets := p.octets ++ w.writing.take m }
        writing := w.writing.drop m }, [])
    | none => none
  | .readBack i j =>
    let w := n.wire i j
    match w.phase, federation.turn (C.config i).limits w.back with
    | .up, some (made, rest) =>
      (n.setWire i j { w with back := rest }).perform C i j w.remoteId made
    | _, _ => none
  | .greet i peer k =>
    let w := n.wire peer i
    match w.pipeAt k with
    | some ⟨.greeting, octets⟩ =>
      (federation.arrivedLine octets).map fun p =>
        (n.setWire peer i (w.setPipe (match parseGreetingId p.1 with
          | some id => ⟨.reading id, p.2⟩
          | none => ⟨.ended, p.2⟩) k), [])
    | _ => none
  | .read i peer k =>
    let w := n.wire peer i
    match w.pipeAt k with
    | some ⟨.reading fromPeer, octets⟩ =>
      (federation.turn (C.config i).limits octets).bind fun p =>
        (n.setWire peer i (w.setPipe ⟨.reading fromPeer, p.2⟩ k)).perform C i peer fromPeer p.1
    | _ => none
  | .fail i peer k =>
    let w := n.wire peer i
    (w.pipeAt k).map fun p => (n.setWire peer i (w.setPipe { p with state := .ended } k), [])
  | .lose i j m =>
    let w := n.wire i j
    if w.pipe = none then none else some (n.setWire i j (w.cut m), [])
  | .restart i kept =>
    some ({
      daemon := Function.update n.daemon i
        (Daemon.start (C.config i).daemonId (C.config i).limits)
      wire := n.wiresWithout i kept
      tasks := Function.update n.tasks i [] }, [.cluster (.restarted i)])

/-- Clocks show 64-bit times. -/
def clocked (_ : Network ι) (_ : List (Event ι)) (a : Action ι) : Prop :=
  ∀ i id nowMs wake, a = .task i id nowMs wake → nowMs < u64Values

end Network

end MacroBus
