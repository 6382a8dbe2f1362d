import MacroBus.Lib.Transition
import MacroBus.Proto.Text

/-!
# The socket file

A server looks at the path of its socket, removes a socket that it finds there, binds, restricts
the socket to its owner, and removes whatever is at the path when it is dropped. Each of these is a
call of its own, so servers that share a path can come in each other's way: a server is found at its
path as long as no server, be it one that starts or one that ends, has removed the file since.
-/

namespace MacroBus

namespace LocalServer

open Transition

/-- What is found at the path of a socket. -/
inductive Node
  /-- Nothing. -/
  | absent
  /-- The socket of a server, or of one that ran before, and whether only its owner may connect. -/
  | socket (server : Option ℕ) (ownerOnly : Bool)
  /-- Something that is not a socket. -/
  | other
  deriving DecidableEq

/-- The path of a socket. -/
structure SocketPath where
  /-- The path. -/
  path : Str
  /-- Its parent, if it has one. -/
  parent : Option Str

/-- How far a server has come. -/
inductive Stage
  /-- It was not started. -/
  | idle
  /-- It is about to look at the path. -/
  | looking
  /-- It has found a socket and is about to remove it. -/
  | stale
  /-- It has removed what was there, and is about to look for the directory. -/
  | clear
  /-- It is about to bind. -/
  | binding
  /-- It has bound, and is about to restrict the socket. -/
  | bound
  /-- It accepts connections. -/
  | serving
  /-- `bind` has failed. -/
  | failed (message : Str)
  /-- It was dropped, or its process has died. -/
  | gone
  deriving DecidableEq

/-- Whether the server has been started and has not ended. -/
def Stage.isLive : Stage → Bool
  | .idle | .failed _ | .gone => false
  | _ => true

/-- Servers that share a path. -/
structure Host where
  /-- What is at the path. -/
  node : Node
  /-- Whether the parent of the path exists. -/
  directory : Bool
  /-- How far each server has come. -/
  stage : ℕ → Stage

/-- A call of a server. -/
inductive Action
  /-- A process starts and comes to `bind`. -/
  | start (id : ℕ)
  /-- `symlink_metadata`, and whether it succeeds where there is a file. -/
  | look (id : ℕ) (succeeds : Bool)
  /-- `remove_file` on a stale socket, and whether it succeeds. -/
  | removeStale (id : ℕ) (succeeds : Bool)
  /-- `exists` on the parent. -/
  | checkParent (id : ℕ)
  /-- `UnixListener::bind`, and the error with which it fails, if it does. -/
  | bind (id : ℕ) (e : Option Str)
  /-- `set_permissions`, and the error with which it fails, if it does. -/
  | restrict (id : ℕ) (e : Option Str)
  /-- The server shuts down and is dropped; `remove_file`, and whether it succeeds. -/
  | drop (id : ℕ) (succeeds : Bool)
  /-- The process dies. -/
  | kill (id : ℕ)
  deriving DecidableEq

/-- What is observed of a call. -/
inductive Event
  /-- A server has bound its socket. -/
  | bound (id : ℕ)
  /-- A server has removed the file. -/
  | removed (id : ℕ)
  /-- `bind` has failed. -/
  | failed (id : ℕ) (message : Str)
  deriving DecidableEq

namespace Host

variable (h : Host)

/-- A server comes to another stage. -/
def setStage (id : ℕ) (stage : Stage) : Host := { h with stage := Function.update h.stage id stage }

/-- Something else is at the path. -/
def setNode (node : Node) : Host := { h with node := node }

/-- `remove_file` at the path, and whether it succeeds. -/
def remove (id : ℕ) (succeeds : Bool) : Host × List Event :=
  if succeeds then (h.setNode .absent, [.removed id]) else (h, [])

/-- `bind` fails. -/
def fail (id : ℕ) (message : Str) : Host × List Event :=
  (h.setStage id (.failed message), [.failed id message])

end Host

/-- A call of a server. The system refuses to bind where there is a file, and to restrict a file that
is not there. -/
def step (p : SocketPath) (h : Host) : Action → Option (Host × List Event)
  | .start id => if h.stage id = .idle then some (h.setStage id .looking, []) else none
  | .look id succeeds =>
    if h.stage id = .looking then
      match succeeds, h.node with
      | true, .socket _ _ => some (h.setStage id .stale, [])
      | true, .other => some (h.fail id
          ("refusing to bind: ".toList ++ p.path ++ " exists and is not a socket".toList))
      | _, _ => some (h.setStage id .clear, [])
    else none
  | .removeStale id succeeds =>
    if h.stage id = .stale then
      let r := h.remove id succeeds
      some (r.1.setStage id .clear, r.2)
    else none
  | .checkParent id =>
    if h.stage id = .clear then
      match p.parent with
      | some parent =>
        if !parent.isEmpty && !h.directory then
          some (h.fail id ("socket directory ".toList ++ parent ++ " does not exist".toList))
        else some (h.setStage id .binding, [])
      | none => some (h.setStage id .binding, [])
    else none
  | .bind id e =>
    if h.stage id = .binding then
      match e, h.node with
      | some e, _ => some (h.fail id ("binding ".toList ++ p.path ++ ": ".toList ++ e))
      | none, .absent =>
        some ((h.setNode (.socket (some id) false)).setStage id .bound, [.bound id])
      | none, _ => none
    else none
  | .restrict id e =>
    if h.stage id = .bound then
      match e, h.node with
      | some e, _ => some (h.fail id ("chmod ".toList ++ p.path ++ ": ".toList ++ e))
      | none, .absent => none
      | none, .socket server _ =>
        some ((h.setNode (.socket server true)).setStage id .serving, [])
      | none, .other => some (h.setStage id .serving, [])
    else none
  | .drop id succeeds =>
    if h.stage id = .serving then
      let r := h.remove id succeeds
      some (r.1.setStage id .gone, r.2)
    else none
  | .kill id => if (h.stage id).isLive then some (h.setStage id .gone, []) else none

/-- No server was started; this was left at the path. -/
def initial (node : Node) (directory : Bool) : Host := ⟨node, directory, fun _ => .idle⟩

section Steps

variable {p : SocketPath} {h h' : Host} {a : Action} {past es : List Event} {id : ℕ}
  {stage : Stage} {node : Node} {directory : Bool}

@[simp] theorem Host.setStage_node (h : Host) (id : ℕ) (stage : Stage) :
    (h.setStage id stage).node = h.node := rfl

@[simp] theorem Host.setStage_stage (h : Host) (id : ℕ) (stage : Stage) :
    (h.setStage id stage).stage = Function.update h.stage id stage := rfl

@[simp] theorem Host.setStage_directory (h : Host) (id : ℕ) (stage : Stage) :
    (h.setStage id stage).directory = h.directory := rfl

@[simp] theorem Host.setNode_node (h : Host) (node : Node) : (h.setNode node).node = node := rfl

@[simp] theorem Host.setNode_stage (h : Host) (node : Node) : (h.setNode node).stage = h.stage := rfl

@[simp] theorem Host.setNode_directory (h : Host) (node : Node) :
    (h.setNode node).directory = h.directory := rfl

/-- What a call can do. -/
inductive Stepped (h : Host) (a : Action) : Host → List Event → Prop
  /-- A process starts. -/
  | start {id : ℕ} (haction : a = .start id) (hidle : h.stage id = .idle) :
    Stepped h a (h.setStage id .looking) []
  /-- Nothing happens to the file. -/
  | quiet {id : ℕ} {stage : Stage} {es : List Event} (hlive : (h.stage id).isLive = true)
    (hstage : stage = .stale → ∃ server ownerOnly, h.node = .socket server ownerOnly)
    (hbound : stage ≠ .bound) (hserving : stage ≠ .serving)
    (hes : ∀ e ∈ es, ∃ message, e = .failed id message) :
    Stepped h a (h.setStage id stage) es
  /-- The file is removed, by a server that starts or one that ends. -/
  | remove {id : ℕ} {stage : Stage} (hlive : h.stage id = .stale ∧ stage = .clear ∨
      h.stage id = .serving ∧ stage = .gone) :
    Stepped h a ((h.setNode .absent).setStage id stage) [.removed id]
  /-- A socket is bound. -/
  | bind {id : ℕ} (hbinding : h.stage id = .binding) (habsent : h.node = .absent) :
    Stepped h a ((h.setNode (.socket (some id) false)).setStage id .bound) [.bound id]
  /-- The socket at the path is restricted. -/
  | restrict {id : ℕ} {server : Option ℕ} {ownerOnly : Bool} (hbound : h.stage id = .bound)
    (hnode : h.node = .socket server ownerOnly) :
    Stepped h a ((h.setNode (.socket server true)).setStage id .serving) []
  /-- What is at the path is no socket any more. -/
  | restrictOther {id : ℕ} (hbound : h.stage id = .bound) (hnode : h.node = .other) :
    Stepped h a (h.setStage id .serving) []

/-- A server fails. -/
theorem Stepped.fail (hlive : (h.stage id).isLive = true) (message : Str) :
    Stepped h a (h.fail id message).1 (h.fail id message).2 := by
  refine .quiet hlive (by simp) (by simp) (by simp) fun e he => ?_
  exact ⟨message, List.mem_singleton.mp he⟩

/-- A server comes to a stage in which nothing happens to the file. -/
theorem Stepped.advance (hlive : (h.stage id).isLive = true)
    (hstage : stage ≠ .stale ∧ stage ≠ .bound ∧ stage ≠ .serving) :
    Stepped h a (h.setStage id stage) [] :=
  .quiet hlive (fun hstale => absurd hstale hstage.1) hstage.2.1 hstage.2.2 (by simp)

/-- A server removes the file, or tries to. -/
theorem Stepped.tried {succeeds : Bool} (hlive : h.stage id = .stale ∧ stage = .clear ∨
      h.stage id = .serving ∧ stage = .gone) :
    Stepped h a ((h.remove id succeeds).1.setStage id stage) (h.remove id succeeds).2 := by
  cases succeeds with
  | true => exact .remove hlive
  | false =>
    rcases hlive with ⟨hbefore, rfl⟩ | ⟨hbefore, rfl⟩
    · exact .advance (by rw [hbefore]; rfl) (by simp)
    · exact .advance (by rw [hbefore]; rfl) (by simp)

/-- **Every call does one of these.** -/
theorem stepped (hstep : step p h a = some (h', es)) : Stepped h a h' es := by
  cases a with
  | start id =>
    simp only [step] at hstep
    split at hstep
    · next hidle =>
      obtain ⟨rfl, rfl⟩ := Prod.mk.inj (Option.some.inj hstep)
      exact .start rfl hidle
    · cases hstep
  | look id succeeds =>
    simp only [step] at hstep
    split at hstep
    · next hlooking =>
      have hlive : (h.stage id).isLive = true := by rw [hlooking]; rfl
      split at hstep
      · next server ownerOnly hnode =>
        obtain ⟨rfl, rfl⟩ := Prod.mk.inj (Option.some.inj hstep)
        exact .quiet hlive (fun _ => ⟨server, ownerOnly, hnode⟩) (by simp) (by simp) (by simp)
      · obtain ⟨rfl, rfl⟩ := Prod.mk.inj (Option.some.inj hstep)
        exact .fail hlive _
      · obtain ⟨rfl, rfl⟩ := Prod.mk.inj (Option.some.inj hstep)
        exact .advance hlive (by simp)
    · cases hstep
  | removeStale id succeeds =>
    simp only [step] at hstep
    split at hstep
    · next hstale =>
      obtain ⟨rfl, rfl⟩ := Prod.mk.inj (Option.some.inj hstep)
      exact .tried (Or.inl ⟨hstale, rfl⟩)
    · cases hstep
  | checkParent id =>
    simp only [step] at hstep
    split at hstep
    · next hclear =>
      have hlive : (h.stage id).isLive = true := by rw [hclear]; rfl
      split at hstep
      · split at hstep
        · obtain ⟨rfl, rfl⟩ := Prod.mk.inj (Option.some.inj hstep)
          exact .fail hlive _
        · obtain ⟨rfl, rfl⟩ := Prod.mk.inj (Option.some.inj hstep)
          exact .advance hlive (by simp)
      · obtain ⟨rfl, rfl⟩ := Prod.mk.inj (Option.some.inj hstep)
        exact .advance hlive (by simp)
    · cases hstep
  | bind id e =>
    simp only [step] at hstep
    split at hstep
    · next hbinding =>
      have hlive : (h.stage id).isLive = true := by rw [hbinding]; rfl
      split at hstep
      · obtain ⟨rfl, rfl⟩ := Prod.mk.inj (Option.some.inj hstep)
        exact .fail hlive _
      · next habsent =>
        obtain ⟨rfl, rfl⟩ := Prod.mk.inj (Option.some.inj hstep)
        exact .bind hbinding habsent
      · cases hstep
    · cases hstep
  | restrict id e =>
    simp only [step] at hstep
    split at hstep
    · next hbound =>
      have hlive : (h.stage id).isLive = true := by rw [hbound]; rfl
      split at hstep
      · obtain ⟨rfl, rfl⟩ := Prod.mk.inj (Option.some.inj hstep)
        exact .fail hlive _
      · cases hstep
      · next hnode =>
        obtain ⟨rfl, rfl⟩ := Prod.mk.inj (Option.some.inj hstep)
        exact .restrict hbound hnode
      · next hnode =>
        obtain ⟨rfl, rfl⟩ := Prod.mk.inj (Option.some.inj hstep)
        exact .restrictOther hbound hnode
    · cases hstep
  | drop id succeeds =>
    simp only [step] at hstep
    split at hstep
    · next hserving =>
      obtain ⟨rfl, rfl⟩ := Prod.mk.inj (Option.some.inj hstep)
      exact .tried (Or.inr ⟨hserving, rfl⟩)
    · cases hstep
  | kill id =>
    simp only [step] at hstep
    split at hstep
    · next hlive =>
      obtain ⟨rfl, rfl⟩ := Prod.mk.inj (Option.some.inj hstep)
      exact .advance hlive (by simp)
    · cases hstep

end Steps

/-- Since the server has bound its socket, no server has removed the file. -/
def Untouched (past : List Event) (id : ℕ) : Prop :=
  ∃ later, Then past (.bound id) later ∧ ∀ k, .removed k ∉ later

section Found

variable {p : SocketPath} {h h' : Host} {a : Action} {past es : List Event} {id : ℕ}
  {node : Node} {directory : Bool}

/-- Nothing that has to do with the file has happened. -/
theorem untouched_append (hes : ∀ e ∈ es, ∃ k message, e = .failed k message) :
    Untouched (past ++ es) id ↔ Untouched past id := by
  constructor
  · rintro ⟨later, hthen, hnone⟩
    rcases then_append_iff.mp hthen with ⟨mid, hmid, rfl⟩ | hnow
    · exact ⟨mid, hmid, fun k hk => hnone k (List.mem_append_left es hk)⟩
    · obtain ⟨_, _, heq⟩ := hes _ hnow.mem
      cases heq
  · rintro ⟨later, hthen, hnone⟩
    refine ⟨later ++ es, then_append_iff.mpr (Or.inl ⟨later, hthen, rfl⟩), fun k hk => ?_⟩
    rcases List.mem_append.mp hk with hk | hk
    · exact hnone k hk
    · obtain ⟨_, _, heq⟩ := hes _ hk
      cases heq

/-- A removal touches every socket. -/
theorem not_untouched_removed (k : ℕ) : ¬Untouched (past ++ [.removed k]) id := by
  rintro ⟨later, hthen, hnone⟩
  rcases then_append_iff.mp hthen with ⟨mid, _, rfl⟩ | hnow
  · exact hnone k (List.mem_append_right mid (List.mem_singleton_self _))
  · cases (then_singleton_iff.mp hnow).1

/-- A socket that was just bound is untouched, and others are as they were. -/
theorem untouched_bound (k : ℕ) :
    Untouched (past ++ [.bound k]) id ↔ id = k ∨ Untouched past id := by
  constructor
  · rintro ⟨later, hthen, hnone⟩
    rcases then_append_iff.mp hthen with ⟨mid, hmid, rfl⟩ | hnow
    · exact Or.inr ⟨mid, hmid, fun j hj => hnone j (List.mem_append_left _ hj)⟩
    · exact Or.inl (Event.bound.inj (then_singleton_iff.mp hnow).1)
  · rintro (rfl | ⟨later, hthen, hnone⟩)
    · exact ⟨[], then_append_iff.mpr (Or.inr (then_singleton_iff.mpr ⟨rfl, rfl⟩)), by simp⟩
    · refine ⟨later ++ [.bound k], then_append_iff.mpr (Or.inl ⟨later, hthen, rfl⟩), fun j hj => ?_⟩
      rcases List.mem_append.mp hj with hj | hj
      · exact hnone j hj
      · simp at hj

/-- What holds of a path that servers share. -/
structure Shared (node : Node) (h : Host) (past : List Event) : Prop where
  /-- The socket of a server is at the path exactly as long as it is untouched. -/
  found : ∀ id, (∃ ownerOnly, h.node = .socket (some id) ownerOnly) ↔ Untouched past id
  /-- The socket of a server that serves is restricted, if it is at the path. -/
  owner : ∀ id ownerOnly, h.stage id = .serving → h.node = .socket (some id) ownerOnly →
    ownerOnly = true
  /-- What is not a socket was there, and stays. -/
  other : h.node = .other ↔ node = .other
  /-- No server gets past it. -/
  refused : h.node = .other → ∀ id, h.stage id ≠ .stale ∧ h.stage id ≠ .bound ∧ h.stage id ≠ .serving

/-- **Every call keeps what the servers share.** -/
theorem Shared.step (hinv : Shared node h past) (hstep : step p h a = some (h', es)) :
    Shared node h' (past ++ es) := by
  -- A call that leaves the file alone.
  have hleave : ∀ (k : ℕ) (stage : Stage) (es : List Event),
      (∀ e ∈ es, ∃ k message, e = .failed k message) →
      (stage = .stale → ∃ server ownerOnly, h.node = .socket server ownerOnly) →
      stage ≠ .bound → (stage = .serving → h.stage k = .bound ∧ h.node = .other) →
      Shared node (h.setStage k stage) (past ++ es) := by
    intro k stage es hes hstale hbound hserving
    refine ⟨fun id => ?_, fun id ownerOnly hstage hnode => ?_, hinv.other, fun hother id => ?_⟩
    · rw [untouched_append hes]
      exact hinv.found id
    · rw [Host.setStage_stage] at hstage
      by_cases hk : id = k
      · subst hk
        rw [Function.update_self] at hstage
        rw [Host.setStage_node, (hserving hstage).2] at hnode
        cases hnode
      · rw [Function.update_of_ne hk] at hstage
        exact hinv.owner id ownerOnly hstage hnode
    · rw [Host.setStage_stage]
      by_cases hk : id = k
      · subst hk
        rw [Function.update_self]
        refine ⟨fun heq => ?_, hbound, fun heq => ?_⟩
        · obtain ⟨_, _, hnode⟩ := hstale heq
          rw [Host.setStage_node, hnode] at hother
          cases hother
        · exact absurd (hserving heq).1 (hinv.refused hother id).2.1
      · rw [Function.update_of_ne hk]
        exact hinv.refused hother id
  have hsocket : h.node ≠ .other → node ≠ .other := fun hne heq => hne (hinv.other.mpr heq)
  cases stepped hstep with
  | start => exact hleave _ _ _ (by simp) (by simp) (by simp) (by simp)
  | quiet hlive hstage hbound hserving hes =>
    exact hleave _ _ _ (fun e he => ⟨_, hes e he⟩) hstage hbound fun heq => absurd heq hserving
  | restrictOther hbound hnode =>
    exact hleave _ _ _ (by simp) (by simp) (by simp) fun _ => ⟨hbound, hnode⟩
  | @remove k stage hlive =>
    have hne : h.node ≠ .other := by
      intro hother
      obtain ⟨hstale, _, hserving⟩ := hinv.refused hother k
      rcases hlive with ⟨hbefore, _⟩ | ⟨hbefore, _⟩
      · exact hstale hbefore
      · exact hserving hbefore
    refine ⟨fun id => ?_, fun id ownerOnly _ hnode => ?_, ?_, fun hother => ?_⟩
    · simp [not_untouched_removed]
    · simp at hnode
    · simp [hsocket hne]
    · simp at hother
  | @bind k hbinding habsent =>
    have hne : h.node ≠ .other := by simp [habsent]
    refine ⟨fun id => ?_, fun id ownerOnly hstage hnode => ?_, ?_, fun hother => ?_⟩
    · have hnone : ¬Untouched past id := by
        rw [← hinv.found id]
        simp [habsent]
      rw [untouched_bound]
      simp [hnone, eq_comm]
    · obtain ⟨rfl, _⟩ : k = id ∧ ownerOnly = false := by simpa [eq_comm] using hnode
      simp at hstage
    · simp [hsocket hne]
    · simp at hother
  | @restrict k server ownerOnly hbound hnode =>
    have hne : h.node ≠ .other := by simp [hnode]
    refine ⟨fun id => ?_, fun id ownerOnly _ hnow => ?_, ?_, fun hother => ?_⟩
    · rw [List.append_nil, ← hinv.found id, hnode]
      simp
    · simpa using (Node.socket.inj hnow).2.symm
    · simp [hsocket hne]
    · simp at hother

/-- What the servers share holds in every run. -/
theorem shared_of_run {ok : Host → List Event → Action → Prop}
    (hnode : ∀ id ownerOnly, node ≠ .socket (some id) ownerOnly)
    (hrun : Run (step p) ok (initial node directory) h past) : Shared node h past := by
  refine hrun.invariant (I := Shared node) ⟨fun id => ?_, ?_, Iff.rfl, ?_⟩ ?_
  · constructor
    · rintro ⟨ownerOnly, heq⟩
      exact absurd heq (hnode id ownerOnly)
    · rintro ⟨later, hthen, _⟩
      exact absurd hthen (not_then_nil _ _)
  · intro id ownerOnly hserving
    cases hserving
  · exact fun _ id => ⟨Stage.noConfusion, Stage.noConfusion, Stage.noConfusion⟩
  · exact fun _ _ _ _ _ hinv _ hstep => hinv.step hstep

/-- **A server is found at its path as long as no server removes the file.** In every interleaving of
servers that start, end or crash at one path: what is not a socket stays there; a server that serves
is found there exactly if no server has removed the file since it bound, and then only its owner may
connect. -/
theorem server_is_found_iff (hnode : ∀ id ownerOnly, node ≠ .socket (some id) ownerOnly)
    (hrun : Run (step p) anyStep (initial node directory) h past) :
    (h.node = .other ↔ node = .other) ∧ ∀ id, h.stage id = .serving →
      (h.node = .socket (some id) true ↔ Untouched past id) ∧ h.node ≠ .socket (some id) false := by
  have hinv := shared_of_run hnode hrun
  refine ⟨hinv.other, fun id hserving => ⟨⟨fun heq => ?_, fun huntouched => ?_⟩, fun heq => ?_⟩⟩
  · exact (hinv.found id).mp ⟨true, heq⟩
  · obtain ⟨ownerOnly, heq⟩ := (hinv.found id).mpr huntouched
    obtain rfl := hinv.owner id ownerOnly hserving heq
    exact heq
  · cases hinv.owner id false hserving heq

end Found

/-- The path of the tests. -/
def testPath : SocketPath := ⟨"/run/mb.sock".toList, some "/run".toList⟩

/-- A server starts and comes to serve. -/
def startUp (id : ℕ) : List Action :=
  [.start id, .look id true, .checkParent id, .bind id none, .restrict id none]

/-- A second server takes the path over, and then the first one ends: the second one serves, and is
found no more. -/
theorem server_is_found_iff_taken_over : ∃ h past,
    Run (step testPath) anyStep (initial .absent true) h past ∧ h.stage 2 = .serving ∧
      h.node = .absent ∧ ¬Untouched past 2 := by
  obtain ⟨h, past, hrun, hserving, habsent⟩ := exists_run (step testPath) (fun _ _ _ => true)
    (initial .absent true) (startUp 1 ++
      [.start 2, .look 2 true, .removeStale 2 true, .checkParent 2, .bind 2 none, .restrict 2 none,
        .drop 1 true])
    (P := fun h _ => h.stage 2 = .serving ∧ h.node = .absent) (by decide)
  have hrun' : Run (step testPath) anyStep (initial .absent true) h past :=
    hrun.weaken fun _ _ _ _ => trivial
  refine ⟨h, past, hrun', hserving, habsent, fun huntouched => ?_⟩
  have hfound := ((server_is_found_iff (by simp) hrun').2 2 hserving).1.mpr huntouched
  rw [habsent] at hfound
  cases hfound

/-- No process starts while another one is alive. -/
def alone (h : Host) (_ : List Event) (a : Action) : Prop :=
  ∀ id, a = .start id → ∀ k, (h.stage k).isLive = false

section Alone

variable {p : SocketPath} {h h' : Host} {a : Action} {past es : List Event} {id : ℕ}
  {node : Node} {directory : Bool}

/-- What holds of servers that follow one another. -/
structure Single (h : Host) : Prop where
  /-- At most one is alive. -/
  single : ∀ i j, (h.stage i).isLive = true → (h.stage j).isLive = true → i = j
  /-- Its socket is at the path once it has bound. -/
  bound : ∀ i, h.stage i = .bound → ∃ ownerOnly, h.node = .socket (some i) ownerOnly
  /-- And it is restricted when it serves. -/
  serving : ∀ i, h.stage i = .serving → h.node = .socket (some i) true

/-- The one that is alive takes a step. -/
theorem Single.of_live (hinv : Single h) {k : ℕ} {stage : Stage} {new : Node}
    (hlive : (h.stage k).isLive = true)
    (hbound : stage = .bound → ∃ ownerOnly, new = .socket (some k) ownerOnly)
    (hserving : stage = .serving → new = .socket (some k) true) :
    Single ((h.setNode new).setStage k stage) := by
  have hothers : ∀ i, i ≠ k → (h.stage i).isLive = false := by
    intro i hi
    by_contra hnot
    exact hi (hinv.single i k (by simpa using hnot) hlive)
  have hself : ∀ i, (Function.update h.stage k stage i).isLive = true → i = k := by
    intro i hi
    by_contra hne
    rw [Function.update_of_ne hne, hothers i hne] at hi
    cases hi
  refine ⟨fun i j hi hj => (hself i hi).trans (hself j hj).symm, fun i hi => ?_, fun i hi => ?_⟩
  · have hlivei : (((h.setNode new).setStage k stage).stage i).isLive = true := by rw [hi]; rfl
    obtain rfl := hself i hlivei
    exact hbound (by simpa using hi)
  · have hlivei : (((h.setNode new).setStage k stage).stage i).isLive = true := by rw [hi]; rfl
    obtain rfl := hself i hlivei
    exact hserving (by simpa using hi)

/-- **Every call of servers that follow one another keeps at most one of them serving.** -/
theorem Single.step (hinv : Single h) (hok : alone h past a) (hstep : step p h a = some (h', es)) :
    Single h' := by
  cases stepped hstep with
  | @start id haction hidle =>
    have hdead := hok id haction
    have hself : ∀ i, (Function.update h.stage id .looking i).isLive = true → i = id := by
      intro i hi
      by_contra hne
      rw [Function.update_of_ne hne, hdead i] at hi
      cases hi
    refine ⟨fun i j hi hj => (hself i hi).trans (hself j hj).symm, fun i hi => ?_, fun i hi => ?_⟩
    · have hi' : Function.update h.stage id .looking i = .bound := hi
      obtain rfl := hself i (by rw [hi']; rfl)
      simp at hi'
    · have hi' : Function.update h.stage id .looking i = .serving := hi
      obtain rfl := hself i (by rw [hi']; rfl)
      simp at hi'
  | quiet hlive _ hbound hserving _ =>
    exact hinv.of_live hlive (fun heq => absurd heq hbound) fun heq => absurd heq hserving
  | remove hlive =>
    rcases hlive with ⟨hbefore, rfl⟩ | ⟨hbefore, rfl⟩
    · exact hinv.of_live (by rw [hbefore]; rfl) (by simp) (by simp)
    · exact hinv.of_live (by rw [hbefore]; rfl) (by simp) (by simp)
  | bind hbinding _ =>
    exact hinv.of_live (by rw [hbinding]; rfl) (fun _ => ⟨false, rfl⟩) (by simp)
  | @restrict id server ownerOnly hbound hnode =>
    obtain ⟨_, hsocket⟩ := hinv.bound id hbound
    obtain rfl := (Node.socket.inj (hnode.symm.trans hsocket)).1
    exact hinv.of_live (by rw [hbound]; rfl) (by simp) fun _ => rfl
  | @restrictOther id hbound hnode =>
    obtain ⟨_, hsocket⟩ := hinv.bound id hbound
    rw [hnode] at hsocket
    cases hsocket

/-- The directory stays. -/
theorem directory_of_run {ok : Host → List Event → Action → Prop}
    (hrun : Run (step p) ok (initial node directory) h past) : h.directory = directory := by
  refine hrun.invariant (I := fun h _ => h.directory = directory) rfl ?_
  intro h past a h' es hbefore _ hstep
  cases stepped hstep with
  | _ => exact hbefore

/-- A server can come to this stage, with this at the path. -/
def CanReach (p : SocketPath) (h : Host) (id : ℕ) (stage : Stage) (node : Node) : Prop :=
  ∃ t es, Run (step p) alone h t es ∧ t.stage id = stage ∧ t.node = node ∧ t.directory = true

/-- A server that can come to a stage can make the next call. -/
theorem CanReach.next {stage next : Stage} {node' : Node} (hreach : CanReach p h id stage node)
    (hstart : ∀ k, a ≠ .start k)
    (hstep : ∀ t, t.stage id = stage → t.node = node → ∃ es, t.directory = true →
      step p t a = some ((t.setNode node').setStage id next, es)) :
    CanReach p h id next node' := by
  obtain ⟨t, es, hrun, hstage, hnode, hdirectory⟩ := hreach
  obtain ⟨es', hs⟩ := hstep t hstage hnode
  refine ⟨_, _, .step hrun (fun k heq => absurd heq (hstart k)) (hs hdirectory), ?_, rfl, hdirectory⟩
  exact Function.update_self _ _ _

/-- What is at the path stays. -/
theorem Host.setNode_self (hnode : h.node = node) : h.setNode node = h := by
  cases h
  cases hnode
  rfl

/-- A server that is started where no other is alive comes to serve. -/
theorem exists_startUp (hsocket : h.node ≠ .other) (hdirectory : h.directory = true)
    (hidle : h.stage id = .idle) (hdead : ∀ k, (h.stage k).isLive = false) :
    CanReach p h id .serving (.socket (some id) true) := by
  have hlooking : CanReach p h id .looking h.node := by
    have hstart : step p h (.start id) = some (h.setStage id .looking, []) := by
      simp only [step, if_pos hidle]
    have hok : alone h [] (.start id) := fun _ _ => hdead
    exact ⟨h.setStage id .looking, [], .step .init hok hstart, Function.update_self _ _ _, rfl,
      hdirectory⟩
  -- The path is free when the server comes to look for the directory.
  have hclear : CanReach p h id .clear .absent := by
    cases hnode : h.node with
    | absent =>
      rw [hnode] at hlooking
      refine hlooking.next (a := .look id true) (by simp) fun t hstage htnode => ⟨[], fun _ => ?_⟩
      simp only [step, if_pos hstage, htnode, Host.setNode_self htnode]
    | socket server ownerOnly =>
      rw [hnode] at hlooking
      have hstale : CanReach p h id .stale (.socket server ownerOnly) := by
        refine hlooking.next (a := .look id true) (by simp) fun t hstage htnode => ⟨[], fun _ => ?_⟩
        simp only [step, if_pos hstage, htnode, Host.setNode_self htnode]
      refine hstale.next (a := .removeStale id true) (by simp)
        fun t hstage _ => ⟨[.removed id], fun _ => ?_⟩
      simp only [step, if_pos hstage, Host.remove, if_true]
    | other => exact absurd hnode hsocket
  have hbinding : CanReach p h id .binding .absent := by
    refine hclear.next (a := .checkParent id) (by simp) fun t hstage htnode => ⟨[], fun htdir => ?_⟩
    rw [Host.setNode_self htnode]
    cases hparent : p.parent <;> simp [step, hstage, hparent, htdir]
  have hbound : CanReach p h id .bound (.socket (some id) false) := by
    refine hbinding.next (a := .bind id none) (by simp)
      fun t hstage htnode => ⟨[.bound id], fun _ => ?_⟩
    simp only [step, if_pos hstage, htnode]
  refine hbound.next (a := .restrict id none) (by simp) fun t hstage htnode => ⟨[], fun _ => ?_⟩
  simp only [step, if_pos hstage, htnode]

/-- **Servers that follow one another are found, and a crash does not keep the next one from
starting.** Where no process starts while another one is alive, and nothing else was at the path: a
server that serves is found there, and only its owner may connect; and when none is alive any more,
however they ended, a server that is started can come to serve. -/
theorem successive_servers_are_found (hother : node ≠ .other)
    (hnode : ∀ id ownerOnly, node ≠ .socket (some id) ownerOnly)
    (hrun : Run (step p) alone (initial node true) h past) :
    (∀ id, h.stage id = .serving → h.node = .socket (some id) true) ∧
      ((∀ k, (h.stage k).isLive = false) → ∀ id, h.stage id = .idle →
        CanReach p h id .serving (.socket (some id) true)) := by
  have hsingle : Single h := by
    refine hrun.invariant (I := fun h _ => Single h) ⟨?_, ?_, ?_⟩ ?_
    · intro i j hi
      cases hi
    · intro i hi
      cases hi
    · intro i hi
      cases hi
    · exact fun _ _ _ _ _ hinv hok hstep => hinv.step hok hstep
  have hshared := shared_of_run hnode hrun
  refine ⟨hsingle.serving, fun hdead id hidle => ?_⟩
  exact exists_startUp (fun heq => hother (hshared.other.mp heq)) (directory_of_run hrun) hidle hdead

/-- A server has crashed before it restricted its socket. -/
def crashed : Host :=
  ((((((initial .absent true).setStage 1 .looking).setStage 1 .clear).setStage 1 .binding).setNode
    (.socket (some 1) false)).setStage 1 .bound).setStage 1 .gone

/-- Alone, a server reaches the state in which it has crashed between its bind and its chmod. -/
theorem run_crashed : Run (step testPath) alone (initial .absent true) crashed [.bound 1] := by
  have hstart : Run (step testPath) alone (initial .absent true)
      ((initial .absent true).setStage 1 .looking) [] :=
    .step .init (a := .start 1) (fun _ _ _ => rfl) rfl
  have hrest : exec (step testPath) (fun _ _ _ => true) ((initial .absent true).setStage 1 .looking) []
      [.look 1 true, .checkParent 1, .bind 1 none, .kill 1] = some (crashed, [.bound 1]) := rfl
  refine Run.exec_of_forall (fun a ha h past id heq => ?_) hstart hrest
  subst heq
  simp at ha

/-- The next server comes to serve and is found. -/
theorem successive_servers_are_found_restarted : ∃ h past,
    Run (step testPath) alone (initial .absent true) h past ∧ h.node = .socket (some 1) false ∧
      CanReach testPath h 2 .serving (.socket (some 2) true) := by
  have hdead : ∀ k, (crashed.stage k).isLive = false := by
    intro k
    by_cases hk : k = 1
    · subst hk
      rfl
    · simp [crashed, hk, initial, Stage.isLive]
  have hnext := (successive_servers_are_found (by simp) (by simp) run_crashed).2 hdead 2
  exact ⟨crashed, _, run_crashed, rfl, hnext rfl⟩

end Alone

end LocalServer

end MacroBus
