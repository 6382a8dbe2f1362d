import MacroBus.Lib.Transition
import MacroBus.Busd.Config
import MacroBus.Busd.Registry
import MacroBus.Proto.Command

/-!
# Federation

Daemons flood messages and registrations over links they dial. A link has a bounded
queue of frames at its sender, the frames its writer has put on the wire, and frames
left over from lost connections. Handling a frame or a local command ends with a
broadcast, which is a step of its own; a message that arrives is recorded in one step
and fanned out in another. A step of the cluster is one critical section of the
registry, one broadcast, or one stage in the life of a link.
-/

namespace MacroBus

/-- Depth of each peer link's outbound frame queue. -/
def PEER_QUEUE_DEPTH : ℕ := 4096

/-- A frame queued toward a peer over a dialed link. -/
inductive OutFrame
  /-- Forward a message to the peer. -/
  | feed (msg : Message)
  /-- Propagate a registration to the peer. -/
  | rreg (typeName : Str) (reg : TypeReg)
  deriving DecidableEq

/-- How far `dial_once` has come. -/
inductive LinkPhase
  /-- There is no sender for this peer. -/
  | down
  /-- The sender is among the peers. -/
  | inserted
  /-- The snapshot is taken, and these records are still to be pushed. -/
  | pushing (rest : List (Str × TypeReg))
  /-- `write_loop` drains the queue. -/
  | up
  deriving DecidableEq

/-- A link from a daemon to a peer it dials. -/
structure Link where
  /-- How far the link is up. -/
  phase : LinkPhase := .down
  /-- The bounded queue of the sender, oldest frame first. -/
  queue : List OutFrame := []
  /-- Frames written and not yet read by the peer, oldest first. -/
  wire : List OutFrame := []
  /-- Frames on the wires of lost connections. The peer may still read some of them. -/
  stale : List OutFrame := []
  deriving DecidableEq

namespace Link

/-- Whether the sender of the link is among the peers of its daemon. -/
def isPeer (l : Link) : Bool := l.phase ≠ .down

/-- Whether `try_send` would succeed. -/
def hasRoom (l : Link) : Bool := l.queue.length < PEER_QUEUE_DEPTH

/-- `try_send` on the sender of the link, if it is among the peers. A frame that finds the
queue full is dropped. -/
def offer (l : Link) (frame : OutFrame) : Link :=
  if l.isPeer && l.hasRoom then { l with queue := l.queue ++ [frame] } else l

end Link

/-- A call that has changed its daemon and not yet broadcast the result. -/
structure Task (ι : Type) where
  /-- The frame to broadcast. -/
  frame : OutFrame
  /-- The peer it came from, if any. -/
  exclude : Option ι
  /-- The call is between the two sections of `ingest_remote`: the message has been recorded and is
  not fanned out yet. -/
  ingesting : Bool
  deriving DecidableEq

/-- A name that survives the wire: not empty, without spaces and line ends. -/
def IsToken (name : Str) : Prop := name ≠ [] ∧ ∀ c ∈ name, c ≠ ' ' ∧ c ≠ '\n' ∧ c ≠ '\r'

instance : DecidablePred IsToken := fun name =>
  inferInstanceAs (Decidable (name ≠ [] ∧ ∀ c ∈ name, c ≠ ' ' ∧ c ≠ '\n' ∧ c ≠ '\r'))

/-- The configurations of the daemons of a cluster. -/
structure Cluster (ι : Type) where
  /-- The configuration of each daemon. -/
  config : ι → Config
  /-- The daemons each daemon dials. -/
  peers : ι → List ι
  /-- Every configuration passes its check. -/
  valid : ∀ i, (config i).validate = .ok ()
  /-- Peers are configured under the ids with which they greet. -/
  named : ∀ i, (config i).cluster.peers.map PeerConfig.id =
    (peers i).map fun j => (config j).daemonId
  /-- There is one dialer for each peer. -/
  nodup : ∀ i, (peers i).Nodup
  /-- Ids survive the wire. -/
  token : ∀ i, IsToken (config i).daemonId
  /-- Ids are distinct. -/
  distinct : Function.Injective fun i => (config i).daemonId
  /-- Capacities are machine integers. -/
  machine : ∀ i, (config i).limits.seenCapacity < u64Values

/-- The state of a cluster. -/
structure Net (ι : Type) where
  /-- The registry and the connections of each daemon. -/
  hub : ι → Hub
  /-- The link from each daemon to each other. -/
  link : ι → ι → Link
  /-- The calls at each daemon that are still to broadcast. -/
  tasks : ι → List (Task ι)

/-- A step of a cluster. -/
inductive Action (ι : Type)
  /-- A connection publishes. -/
  | publish (i : ι) (typeName key : Str) (body : List Str)
  /-- A connection registers a type. -/
  | register (i : ι) (typeName key : Str) (nowMs : ℕ)
  /-- A connection subscribes. -/
  | subscribe (i : ι) (conn : ℕ) (typeName : Str)
  /-- A connection unsubscribes. -/
  | unsubscribe (i : ι) (conn : ℕ) (typeName : Str)
  /-- A connection ends. -/
  | disconnect (i : ι) (conn : ℕ) (types : List Str)
  /-- A connection takes an item from its outbound queue. -/
  | recv (i : ι) (conn : ℕ)
  /-- A call fans out the message it has recorded. -/
  | fanOut (i : ι) (k : ℕ)
  /-- A call broadcasts its frame. -/
  | broadcast (i : ι) (k : ℕ)
  /-- A dialer has connected and inserts its sender. -/
  | insert (i j : ι)
  /-- A dialer takes the snapshot of the registrations. -/
  | snapshot (i j : ι)
  /-- A dialer pushes one record of its snapshot. -/
  | push (i j : ι)
  /-- A dialer starts its loops. -/
  | start (i j : ι)
  /-- `write_loop` writes one frame. -/
  | write (i j : ι)
  /-- `read_loop` at `i` reads a frame from the connection that `peer` dialed. -/
  | read (i peer : ι)
  /-- As `read`, from a connection that is already lost at its other end. -/
  | readStale (i peer : ι) (k : ℕ)
  /-- A frame of a lost connection vanishes. -/
  | vanish (i j : ι) (k : ℕ)
  /-- A link is lost. -/
  | lose (i j : ι)
  /-- A daemon restarts. -/
  | restart (i : ι)

/-- What is observed of a step. -/
inductive Event (ι : Type)
  /-- `publish_local` returned a message; the table held `held` for its type, and these
  connections were queued the message. -/
  | published (i : ι) (key : Str) (held : TypeReg) (msg : Message) (queued : Finset ℕ)
  /-- `ingest_remote` was called, and the message was new or not. -/
  | ingested (i peer : ι) (msg : Message) (new : Bool)
  /-- `ingest_remote` fanned out a new message; these connections were queued it. -/
  | fannedOut (i : ι) (msg : Message) (queued : Finset ℕ)
  /-- `register_local` created a record. -/
  | created (i : ι) (typeName : Str) (reg : TypeReg)
  /-- `apply_remote_registration` changed the table. -/
  | adopted (i peer : ι) (typeName : Str) (reg : TypeReg)
  /-- A frame was queued toward a peer. -/
  | sent (i j : ι) (frame : OutFrame)
  /-- A frame was dropped because the queue toward a peer was full. -/
  | dropped (i j : ι) (frame : OutFrame)
  /-- A daemon restarted. -/
  | restarted (i : ι)
  deriving DecidableEq

namespace Net

variable {ι : Type} [DecidableEq ι] (s : Net ι)

/-- Replace the hub of a daemon. -/
def setHub (i : ι) (h : Hub) : Net ι := { s with hub := Function.update s.hub i h }

/-- Replace a link. -/
def setLink (i j : ι) (l : Link) : Net ι :=
  { s with link := Function.update s.link i (Function.update (s.link i) j l) }

/-- Replace the tasks of a daemon. -/
def setTasks (i : ι) (ts : List (Task ι)) : Net ι :=
  { s with tasks := Function.update s.tasks i ts }

/-- One more call of a daemon has something to broadcast. -/
def addTask (i : ι) (t : Task ι) : Net ι := s.setTasks i (s.tasks i ++ [t])

/-- The links of a cluster after the daemon `i` has died. -/
def linksWithout (i a b : ι) : Link :=
  if b = i then {}
  else if a = i then { stale := (s.link a b).stale ++ (s.link a b).wire }
  else s.link a b

end Net

namespace Cluster

variable {ι : Type} [DecidableEq ι] (C : Cluster ι)

/-- The daemon `i` as it starts. -/
def freshHub (i : ι) : Hub where
  registry := Registry.new (C.config i).daemonId (C.config i).limits.seenCapacity
  chan := fun _ => { depth := (C.config i).limits.queueDepth }

/-- All daemons have just started. -/
def initial : Net ι := ⟨C.freshHub, fun _ _ => {}, fun _ => []⟩

/-- What a step leads to. -/
abbrev Result (ι : Type) := Net ι × List (Event ι)

/-- `Cluster::broadcast`: offer `frame` to all peers except `exclude`. -/
def broadcast (s : Net ι) (i : ι) (frame : OutFrame) (exclude : Option ι) : Result ι :=
  ({ s with link := Function.update s.link i fun j =>
      if some j = exclude then s.link i j else (s.link i j).offer frame },
    ((C.peers i).filter fun j => some j ≠ exclude ∧ (s.link i j).isPeer).map fun j =>
      if (s.link i j).hasRoom then .sent i j frame else .dropped i j frame)

/-- `Cluster::handle_feed` at `i`, up to the fan-out. -/
def handleFeed (s : Net ι) (i peer : ι) (msg : Message) : Result ι :=
  if msg.typeName = [] ∨ msg.msgId = [] ∨ msg.origin = [] then (s, [])
  else if bodySize msg.body > (C.config i).limits.maxMessageBytes then (s, [])
  else
    match (s.hub i).recordSeen msg with
    | (true, h) =>
      ((s.setHub i h).addTask i ⟨.feed msg, some peer, true⟩, [.ingested i peer msg true])
    | (false, h) => (s.setHub i h, [.ingested i peer msg false])

/-- `Cluster::handle_rreg` at `i`, up to the broadcast. -/
def handleRreg (s : Net ι) (i peer : ι) (typeName : Str) (incoming : TypeReg) : Result ι :=
  if typeName = [] ∨ incoming.key = [] ∨ incoming.originDaemon = [] then (s, [])
  else
    match (s.hub i).registry.applyRemoteRegistration typeName incoming with
    | (some effective, registry) =>
      ((s.setHub i { s.hub i with registry := registry }).addTask i
          ⟨.rreg typeName effective, some peer, false⟩, [.adopted i peer typeName effective])
    | (none, registry) => (s.setHub i { s.hub i with registry := registry }, [])

/-- One frame in `read_loop`. -/
def handle (s : Net ι) (i peer : ι) : OutFrame → Result ι
  | .feed msg => C.handleFeed s i peer msg
  | .rreg typeName reg => handleRreg s i peer typeName reg

/-- A step of the cluster. -/
def step (s : Net ι) : Action ι → Option (Result ι)
  | .publish i typeName key body =>
    if validate.isValidType typeName && validate.isValidKey key &&
        decide (bodySize body ≤ (C.config i).limits.maxMessageBytes) then
      match (s.hub i).publishLocal typeName key body,
        (s.hub i).registry.types.lookup typeName with
      | (.ok msg, h), some held =>
        some ((s.setHub i h).addTask i ⟨.feed msg, none, false⟩,
          [.published i key held msg ((s.hub i).recipients msg)])
      | (_, h), _ => some (s.setHub i h, [])
    else none
  | .register i typeName key nowMs =>
    if validate.isValidType typeName && validate.isValidKey key && decide (nowMs < u64Values) then
      match (s.hub i).registry.registerLocal typeName key nowMs with
      | (.ok ⟨reg, true⟩, registry) =>
        some ((s.setHub i { s.hub i with registry := registry }).addTask i
          ⟨.rreg typeName reg, none, false⟩, [.created i typeName reg])
      | (_, registry) => some (s.setHub i { s.hub i with registry := registry }, [])
    else none
  | .subscribe i conn typeName =>
    if ((s.hub i).chan conn).isOpen then
      some (s.setHub i { s.hub i with
        registry := (s.hub i).registry.subscribe typeName conn }, [])
    else none
  | .unsubscribe i conn typeName =>
    some (s.setHub i { s.hub i with
      registry := (s.hub i).registry.unsubscribe typeName conn }, [])
  | .disconnect i conn types =>
    some (s.setHub i {
      registry := (s.hub i).registry.removeConn conn types
      chan := Function.update (s.hub i).chan conn
        { (s.hub i).chan conn with isOpen := false } }, [])
  | .recv i conn =>
    match ((s.hub i).chan conn).queue with
    | [] => none
    | _ :: queue =>
      some (s.setHub i { s.hub i with
        chan := Function.update (s.hub i).chan conn
          { (s.hub i).chan conn with queue := queue } }, [])
  | .fanOut i k =>
    match (s.tasks i)[k]? with
    | some ⟨.feed msg, exclude, true⟩ =>
      some ((s.setHub i ((s.hub i).fanoutLocked msg)).setTasks i
          ((s.tasks i).set k ⟨.feed msg, exclude, false⟩),
        [.fannedOut i msg ((s.hub i).recipients msg)])
    | _ => none
  | .broadcast i k =>
    match (s.tasks i)[k]? with
    | some ⟨frame, exclude, false⟩ =>
      some (C.broadcast (s.setTasks i ((s.tasks i).eraseIdx k)) i frame exclude)
    | _ => none
  | .insert i j =>
    if j ∈ C.peers i ∧ (s.link i j).phase = .down then
      some (s.setLink i j { s.link i j with phase := .inserted, queue := [] }, [])
    else none
  | .snapshot i j =>
    if (s.link i j).phase = .inserted then
      some (s.setLink i j { s.link i j with
        phase := .pushing (s.hub i).registry.allRegistrations }, [])
    else none
  | .push i j =>
    match (s.link i j).phase with
    | .pushing ((typeName, reg) :: rest) =>
      let frame := OutFrame.rreg typeName reg
      some (s.setLink i j { (s.link i j).offer frame with phase := .pushing rest },
        [if (s.link i j).hasRoom then .sent i j frame else .dropped i j frame])
    | _ => none
  | .start i j =>
    if (s.link i j).phase = .pushing [] then
      some (s.setLink i j { s.link i j with phase := .up }, [])
    else none
  | .write i j =>
    match (s.link i j).phase, (s.link i j).queue with
    | .up, frame :: queue =>
      some (s.setLink i j { s.link i j with
        queue := queue, wire := (s.link i j).wire ++ [frame] }, [])
    | _, _ => none
  | .read i peer =>
    match (s.link peer i).wire with
    | [] => none
    | frame :: wire =>
      some (C.handle (s.setLink peer i { s.link peer i with wire := wire }) i peer frame)
  | .readStale i peer k =>
    (s.link peer i).stale[k]?.map fun frame =>
      C.handle (s.setLink peer i { s.link peer i with
        stale := (s.link peer i).stale.eraseIdx k }) i peer frame
  | .vanish i j k =>
    some (s.setLink i j { s.link i j with stale := (s.link i j).stale.eraseIdx k }, [])
  | .lose i j =>
    some (s.setLink i j { stale := (s.link i j).stale ++ (s.link i j).wire }, [])
  | .restart i =>
    some (⟨Function.update s.hub i (C.freshHub i), s.linksWithout i,
      Function.update s.tasks i []⟩, [.restarted i])

end Cluster

namespace pair

/-- The names of two daemons. -/
def name (i : Bool) : Str := if i then "d2".toList else "d1".toList

/-- Their configurations. -/
def config (i : Bool) : Config where
  daemonId := name i
  cluster := { listen := some "0.0.0.0:7071".toList, peers := [⟨name !i, "peer:7071".toList⟩] }
  tls := some {}

end pair

/-- Two daemons that dial each other. -/
def pair : Cluster Bool where
  config := pair.config
  peers i := [!i]
  valid := by decide
  named := by decide
  nodup := by decide
  token := by decide
  distinct := by decide
  machine := by decide

end MacroBus
