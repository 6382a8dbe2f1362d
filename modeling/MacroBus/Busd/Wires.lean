import MacroBus.Busd.Alike

/-!
# Octets and frames

The cluster sees frames where the network has octets. The connections between two daemons carry
the frames that the cluster has on the wire, and whatever the two ends do with the octets keeps it
so, or is a step of the link.
-/

namespace MacroBus

open Transition

/-- The octets that are due on a connection for these frames. -/
def Pipe.due (id : Str) (p : Pipe) (frames : List OutFrame) : Bytes :=
  match p.state with
  | .greeting => wireLine (peerGreeting id) ++ frameStream frames
  | .reading _ => frameStream frames
  | .ended => []

/-- A connection from the daemon with this id carries these frames, of which so many octets are
still to come. -/
structure Pipe.Carries (id : Str) (p : Pipe) (tail : Bytes) (frames : List OutFrame) : Prop where
  /-- The peer is known by its id. -/
  named : ∀ fromPeer, p.state = .reading fromPeer → fromPeer = id
  /-- Octets are the greeting and the frames, until they are not read any more. -/
  octets : p.state ≠ .ended → p.octets ++ tail = p.due id frames

/-- The connections from `i` to `j` as the cluster sees them. -/
structure Wire.Refines {ι : Type} (C : Cluster ι) (i j : ι) (w : Wire) (l : Link) : Prop where
  /-- The dialer has come as far. -/
  phase : l.phase = w.phase
  /-- The same frames wait. -/
  queue : l.queue = w.queue
  /-- Where there is no connection, nothing is on it, or waits for it. -/
  idle : w.pipe = none → l.wire = [] ∧ w.phase = .down ∧ w.writing = [] ∧ w.queue = []
  /-- Where there is one, it carries the frames on the wire. -/
  wire : ∀ p, w.pipe = some p → p.Carries (C.config i).daemonId w.writing l.wire
  /-- Each lost connection carries a part of the frames that are left over. -/
  stale : ∃ parts : List (List OutFrame), l.stale = parts.flatten ∧
    List.Forall₂ (fun p frames => ∃ tail, p.Carries (C.config i).daemonId tail frames) w.lost parts
  /-- A peer greets first. -/
  unanswered : w.phase = .down → w.pipe ≠ none → w.writing = [] ∧
    w.back = wireLine (peerGreeting (C.config j).daemonId)
  /-- It sends nothing else. -/
  answered : w.phase ≠ .down → w.back = [] ∧ w.remoteId = (C.config j).daemonId
  /-- Only peers are dialed. -/
  dialed : w.pipe ≠ none → j ∈ C.peers i
  /-- Only a listener is connected to. -/
  listens : w.pipe ≠ none ∨ w.lost ≠ [] → (C.config j).cluster.listen.isSome = true

section Wires

variable {ι : Type} {C : Cluster ι} {i j : ι} {w : Wire} {l : Link} {p : Pipe}

/-- One of several parts in relation to several others. -/
theorem forall₂_zoom {α β : Type*} {R : α → β → Prop} {xs : List α} {ys : List β}
    (h : List.Forall₂ R xs ys) {k : ℕ} {x : α} (hk : xs[k]? = some x) :
    ∃ before y after, ys = before ++ y :: after ∧ R x y ∧
      ∀ x' y', R x' y' → List.Forall₂ R (xs.set k x') (before ++ y' :: after) := by
  induction h generalizing k with
  | nil => simp at hk
  | @cons a b xs ys hab hrest ih =>
    cases k with
    | zero =>
      obtain rfl : a = x := by simpa using hk
      exact ⟨[], b, ys, rfl, hab, fun x' y' hxy => .cons hxy hrest⟩
    | succ k =>
      obtain ⟨before, y, after, rfl, hxy, hset⟩ := ih (by simpa using hk)
      exact ⟨b :: before, y, after, rfl, hxy, fun x' y' hxy' => .cons hab (hset x' y' hxy')⟩

/-- A link that is not there yet refines one that is not there yet. -/
theorem Wire.Refines.fresh (C : Cluster ι) (i j : ι) : Wire.Refines C i j {} {} :=
  ⟨rfl, rfl, fun _ => ⟨rfl, rfl, rfl, rfl⟩, fun _ hp => (by cases hp), ⟨[], rfl, .nil⟩,
    fun _ hpipe => absurd rfl hpipe, fun hup => absurd rfl hup, fun hpipe => absurd rfl hpipe,
    fun h => h.elim (absurd rfl) (absurd rfl)⟩

/-- A sender that is among the peers for the one is so for the other. -/
theorem Wire.Refines.isPeer (h : w.Refines C i j l) : l.isPeer = w.isPeer := by
  unfold Link.isPeer Wire.isPeer
  rw [h.phase]

/-- A link has room exactly where its queue has. -/
theorem Wire.Refines.hasRoom (h : w.Refines C i j l) : l.hasRoom = w.hasRoom := by
  unfold Link.hasRoom Wire.hasRoom
  rw [h.queue]

/-- The queues of a sender change in the same way. -/
theorem Wire.Refines.withQueue (h : w.Refines C i j l) (hup : w.phase ≠ .down)
    (queue : List OutFrame) :
    Wire.Refines C i j { w with queue := queue } { l with queue := queue } :=
  ⟨h.phase, rfl, fun hnone => absurd (h.idle hnone).2.1 hup, h.wire, h.stale, h.unanswered,
    h.answered, h.dialed, h.listens⟩

/-- A dialer that is up goes on. -/
theorem Wire.Refines.withPhase (h : w.Refines C i j l) (hup : w.phase ≠ .down) {phase : LinkPhase}
    (hphase : phase ≠ .down) :
    Wire.Refines C i j { w with phase := phase } { l with phase := phase } where
  phase := rfl
  queue := h.queue
  idle hnone := absurd (h.idle hnone).2.1 hup
  wire := h.wire
  stale := h.stale
  unanswered hdown := absurd hdown hphase
  answered _ := h.answered hup
  dialed := h.dialed
  listens := h.listens

/-- A frame is offered to both. -/
theorem Wire.Refines.offer (h : w.Refines C i j l) (f : OutFrame) :
    (w.offer f).Refines C i j (l.offer f) := by
  unfold Wire.offer Link.offer
  rw [h.isPeer, h.hasRoom, h.queue]
  split
  · next hoffered =>
    have hpeer := (Bool.and_eq_true_iff.mp hoffered).1
    exact h.withQueue (of_decide_eq_true hpeer) _
  · exact h

/-- A dialer connects, and both ends greet. -/
theorem Wire.Refines.connect (h : w.Refines C i j l) (hnone : w.pipe = none) (hpeer : j ∈ C.peers i)
    (hlisten : (C.config j).cluster.listen.isSome) :
    Wire.Refines C i j { w with
      pipe := some { octets := wireLine (peerGreeting (C.config i).daemonId) }
      back := wireLine (peerGreeting (C.config j).daemonId) } l := by
  obtain ⟨hwire, hdown, hwriting, _⟩ := h.idle hnone
  refine ⟨h.phase, h.queue, by simp, fun p hp => ?_, h.stale, fun _ _ => ⟨hwriting, rfl⟩,
    fun hup => absurd hdown hup, fun _ => hpeer, fun _ => hlisten⟩
  obtain rfl := Option.some.inj hp
  refine ⟨fun fromPeer hstate => (by cases hstate), fun _ => ?_⟩
  dsimp only
  rw [hwriting, hwire]
  rfl

/-- The greeting of a daemon is a line. -/
theorem newline_notMem_peerGreeting (C : Cluster ι) (i : ι) :
    '\n' ∉ peerGreeting (C.config i).daemonId := by
  have hdigits := notMem_decimal (c := '\n') (by decide) status.SERVICE_READY
  have htext : '\n' ∉ "macro-bus-peer MBP/1.0 ready".toList := by decide
  rw [peerGreeting_eq]
  simp only [List.mem_append, List.mem_cons, not_or]
  exact ⟨hdigits, by decide, (C.token i).newline, by decide, htext⟩

/-- A greeting is read and its id recovered. -/
theorem parseGreetingId_config (C : Cluster ι) (i : ι) :
    parseGreetingId (peerGreeting (C.config i).daemonId) = some (C.config i).daemonId :=
  parseGreetingId_peerGreeting (C.token i).field

/-- A dialer reads the greeting and inserts its sender. -/
theorem Wire.Refines.insert (h : w.Refines C i j l) (hdown : w.phase = .down)
    (hpipe : w.pipe ≠ none) {line : Str} {rest : Bytes}
    (hline : federation.arrivedLine w.back = some (line, rest)) :
    Wire.Refines C i j { w with
        phase := .inserted, queue := [], back := rest
        remoteId := (parseGreetingId line).getD (C.config j).daemonId }
      { l with phase := .inserted, queue := [] } := by
  obtain ⟨hwriting, hback⟩ := h.unanswered hdown hpipe
  have hread := federation.arrivedLine_wireLine (newline_notMem_peerGreeting C j) []
  rw [List.append_nil, ← hback, hline] at hread
  obtain ⟨rfl, rfl⟩ := Prod.mk.inj (Option.some.inj hread)
  refine ⟨rfl, rfl, fun hnone => absurd hnone hpipe, h.wire, h.stale, fun hphase => (by cases hphase),
    fun _ => ⟨rfl, ?_⟩, h.dialed, h.listens⟩
  dsimp only
  rw [parseGreetingId_config, Option.getD_some]

/-- `write_loop` takes a frame. -/
theorem Wire.Refines.take (h : w.Refines C i j l) (hup : w.phase = .up) (hwriting : w.writing = [])
    {frame : OutFrame} {queue : List OutFrame} :
    Wire.Refines C i j { w with queue := queue, writing := Str.asBytes frame.serialize }
      { l with queue := queue, wire := l.wire ++ [frame] } := by
  have hne : w.phase ≠ .down := by simp [hup]
  refine ⟨h.phase, rfl, fun hnone => absurd (h.idle hnone).2.1 hne, fun p hp => ?_, h.stale,
    fun hdown => absurd hdown hne, h.answered, h.dialed, h.listens⟩
  obtain ⟨hnamed, hoctets⟩ := h.wire p hp
  refine ⟨hnamed, fun hstate => ?_⟩
  have hbefore := hoctets hstate
  rw [hwriting, List.append_nil] at hbefore
  have hstream : frameStream (l.wire ++ [frame]) =
      frameStream l.wire ++ Str.asBytes frame.serialize := by
    simp [frameStream]
  rw [hbefore]
  unfold Pipe.due
  cases hcase : p.state with
  | greeting => rw [hstream, List.append_assoc]
  | reading fromPeer => rw [hstream]
  | ended => exact absurd hcase hstate

/-- `write_loop` writes some octets. -/
theorem Wire.Refines.write (h : w.Refines C i j l) (hp : w.pipe = some p) (m : ℕ) :
    Wire.Refines C i j { w with
      pipe := some { p with octets := p.octets ++ w.writing.take m }
      writing := w.writing.drop m } l := by
  have hpipe : w.pipe ≠ none := by simp [hp]
  refine ⟨h.phase, h.queue, by simp, fun q hq => ?_, h.stale, fun hdown _ => ?_, h.answered,
    fun _ => h.dialed hpipe, fun _ => h.listens (Or.inl hpipe)⟩
  · obtain rfl := Option.some.inj hq
    obtain ⟨hnamed, hoctets⟩ := h.wire p hp
    refine ⟨hnamed, fun hstate => ?_⟩
    dsimp only at hstate ⊢
    rw [List.append_assoc, List.take_append_drop]
    exact hoctets hstate
  · obtain ⟨hwriting, hback⟩ := h.unanswered hdown hpipe
    exact ⟨by simp [hwriting], hback⟩

/-- A dialer loses its connection. -/
theorem Wire.Refines.cut (h : w.Refines C i j l) (m : ℕ) :
    (w.cut m).Refines C i j { stale := l.stale ++ l.wire } := by
  obtain ⟨parts, hstale, hparts⟩ := h.stale
  have hlisten : (w.cut m).pipe ≠ none ∨ (w.cut m).lost ≠ [] →
      (C.config j).cluster.listen.isSome = true := by
    rintro (hpipe | hlost)
    · exact absurd rfl hpipe
    · refine h.listens ?_
      by_contra hboth
      rw [not_or, not_not, not_not] at hboth
      exact hlost (by simp [Wire.cut, hboth.1, hboth.2])
  refine ⟨rfl, rfl, fun _ => ⟨rfl, rfl, rfl, rfl⟩, fun p hp => (by cases hp), ?_,
    fun _ hpipe => absurd rfl hpipe, fun hup => absurd rfl hup, fun hpipe => absurd rfl hpipe, hlisten⟩
  cases hp : w.pipe with
  | none =>
    obtain ⟨hwire, _⟩ := h.idle hp
    refine ⟨parts, by rw [hstale, hwire, List.append_nil], ?_⟩
    simpa [Wire.cut, hp] using hparts
  | some p =>
    obtain ⟨hnamed, hoctets⟩ := h.wire p hp
    refine ⟨parts ++ [l.wire], by rw [hstale]; simp, ?_⟩
    have hlost : (w.cut m).lost = w.lost ++ [{ p with octets := p.octets.take m }] := by
      simp [Wire.cut, hp]
    rw [hlost]
    refine List.rel_append hparts (.cons ⟨p.octets.drop m ++ w.writing, hnamed, fun hstate => ?_⟩ .nil)
    dsimp only at hstate ⊢
    rw [← List.append_assoc, List.take_append_drop]
    exact hoctets hstate

/-- Frames are on their way only to a listener. -/
theorem Wire.Refines.listens_of_holds (h : w.Refines C i j l) {f : OutFrame} (hf : l.Holds f) :
    (C.config j).cluster.listen.isSome = true := by
  refine h.listens ?_
  by_contra hnone
  rw [not_or, not_not, not_not] at hnone
  obtain ⟨hpipe, hlost⟩ := hnone
  obtain ⟨hwire, _, _, hqueue⟩ := h.idle hpipe
  obtain ⟨parts, hstale, hparts⟩ := h.stale
  rw [hlost, List.forall₂_nil_left_iff] at hparts
  rcases hf with hmem | hmem | hmem
  · rw [h.queue, hqueue] at hmem
    cases hmem
  · rw [hwire] at hmem
    cases hmem
  · rw [hstale, hparts] at hmem
    cases hmem

/-- **One connection among all**: the frames it carries, and what the link becomes when it carries
others. -/
theorem Wire.Refines.zoom [DecidableEq ι] (h : w.Refines C i j l) {k : Option ℕ}
    (hk : w.pipeAt k = some p) :
    ∃ (tail : Bytes) (frames : List OutFrame) (put : List OutFrame → Link),
      p.Carries (C.config i).daemonId tail frames ∧ put frames = l ∧
      (∀ f ∈ frames, l.Holds f) ∧
      (∀ p' frames', p'.Carries (C.config i).daemonId tail frames' →
        (w.setPipe p' k).Refines C i j (put frames')) ∧
      ∀ (s : Net ι) (f : OutFrame) (more : List OutFrame), s.link i j = l → frames = f :: more →
        ∃ a : Action ι, C.step s a = some (C.handle (s.setLink i j (put more)) j i f) ∧
          ∀ past, calmly s past a := by
  cases k with
  | none =>
    have hp : w.pipe = some p := hk
    have hpipe : w.pipe ≠ none := by simp [hp]
    refine ⟨w.writing, l.wire, fun frames => { l with wire := frames }, h.wire p hp, rfl,
      fun f hf => Or.inr (Or.inl hf), fun p' frames' hcarries => ?_, ?_⟩
    · refine ⟨h.phase, h.queue, by simp [Wire.setPipe], fun q hq => ?_, h.stale,
        fun hdown _ => h.unanswered hdown hpipe, h.answered, fun _ => h.dialed hpipe,
        fun _ => h.listens (Or.inl hpipe)⟩
      obtain rfl := Option.some.inj hq
      exact hcarries
    · intro s f more hlink hframes
      refine ⟨.read j i, ?_, fun _ => calmly_of_quiet (by simp) rfl⟩
      simp only [Cluster.step, hlink, hframes]
  | some k =>
    have hp : w.lost[k]? = some p := hk
    have hlost : w.lost ≠ [] := by
      intro hnil
      rw [hnil] at hp
      simp at hp
    obtain ⟨parts, hstale, hparts⟩ := h.stale
    obtain ⟨before, frames, after, rfl, ⟨tail, hcarries⟩, hset⟩ := forall₂_zoom hparts hp
    have hsplit : l.stale = before.flatten ++ (frames ++ after.flatten) := by
      rw [hstale]
      simp
    refine ⟨tail, frames, fun frames => { l with stale := before.flatten ++ (frames ++ after.flatten) },
      hcarries, ?_, fun f hf => Or.inr (Or.inr ?_), fun p' frames' hcarries' => ?_, ?_⟩
    · dsimp only
      rw [← hsplit]
    · rw [hsplit]
      exact List.mem_append_right _ (List.mem_append_left _ hf)
    · refine ⟨h.phase, h.queue, h.idle, h.wire, ⟨before ++ frames' :: after, by simp, ?_⟩,
        h.unanswered, h.answered, h.dialed, fun _ => h.listens (Or.inr hlost)⟩
      exact hset p' frames' ⟨tail, hcarries'⟩
    · intro s f more hlink hframes
      refine ⟨.readStale j i before.flatten.length, ?_, fun _ => calmly_of_quiet (by simp) rfl⟩
      have hget : l.stale[before.flatten.length]? = some f := by
        rw [hsplit, hframes]
        simp
      have herase : l.stale.eraseIdx before.flatten.length =
          before.flatten ++ (more ++ after.flatten) := by
        rw [hsplit, hframes, List.eraseIdx_append_of_length_le (le_refl _), Nat.sub_self]
        rfl
      simp only [Cluster.step, hlink, hget, Option.map_some, herase]

end Wires

end MacroBus
