import MacroBus.Lib.Connected
import MacroBus.Busd.Delivery

/-!
# Flooding reaches every daemon once

Whoever has accepted a message has it on its way to each peer it dials, or the peer has
accepted it too; the peer it came from has accepted it anyway. When nothing is on its way
and the links connect all daemons, all of them have therefore accepted it. Each daemon
broadcasts a message once, because it accepts it once.
-/

namespace MacroBus

open Transition Connected

variable {ι : Type}

/-- The message that a daemon accepts with this event, and the peer it came from, if any. -/
def Event.acceptance [DecidableEq ι] (i : ι) : Event ι → Option (Message × Option ι)
  | .published k _ _ msg _ => if k = i then some (msg, none) else none
  | .ingested k peer msg new => if k = i ∧ new = true then some (msg, some peer) else none
  | _ => none

/-- The messages a daemon has accepted, oldest first. -/
def acceptances [DecidableEq ι] (past : List (Event ι)) (i : ι) : List (Message × Option ι) :=
  past.filterMap (Event.acceptance i)

/-- The frame that is sent over the link with this event. -/
def Event.sending [DecidableEq ι] (i j : ι) : Event ι → Option OutFrame
  | .sent a b frame => if a = i ∧ b = j then some frame else none
  | _ => none

/-- The frames sent over a link, oldest first. -/
def sends [DecidableEq ι] (past : List (Event ι)) (i j : ι) : List OutFrame :=
  past.filterMap (Event.sending i j)

/-- The message that is published with this event. -/
def Event.message : Event ι → Option Message
  | .published _ _ _ msg _ => some msg
  | _ => none

/-- All messages published in the cluster. -/
def allPublications (past : List (Event ι)) : List Message := past.filterMap Event.message

/-- Links stay up and daemons alive, and nothing is published before all links are up. -/
def steady (C : Cluster ι) (s : Net ι) (_ : List (Event ι)) : Action ι → Prop
  | .lose _ _ | .restart _ => False
  | .publish .. => ∀ i j, j ∈ C.peers i → (s.link i j).isPeer
  | _ => True

instance [Fintype ι] [DecidableEq ι] (C : Cluster ι) (s : Net ι) (past : List (Event ι))
    (a : Action ι) : Decidable (steady C s past a) :=
  match a with
  | .lose .. | .restart _ => inferInstanceAs (Decidable False)
  | .publish .. => inferInstanceAs (Decidable (∀ i j, j ∈ C.peers i → (s.link i j).isPeer))
  | .register .. | .subscribe .. | .unsubscribe .. | .disconnect .. | .recv .. | .fanOut ..
  | .broadcast .. | .insert .. | .snapshot .. | .push .. | .start .. | .write .. | .read .. | .readStale ..
  | .vanish .. => inferInstanceAs (Decidable True)

/-- No message is on its way. -/
structure Quiet (s : Net ι) : Prop where
  /-- None is queued or on a wire. -/
  links : ∀ i j msg, .feed msg ∉ (s.link i j).queue ∧ .feed msg ∉ (s.link i j).wire
  /-- None awaits its broadcast. -/
  tasks : ∀ i, ∀ t ∈ s.tasks i, ∀ msg, t.frame ≠ .feed msg

section Histories

variable {C : Cluster ι} {past es : List (Event ι)} {i j : ι} {msg : Message}

/-- What is assumed of a run: no frame is dropped, every message fits everywhere, and the
cluster publishes fewer messages than any seen-set holds. -/
structure WithoutLoss (C : Cluster ι) (past : List (Event ι)) : Prop where
  /-- No frame is dropped and no daemon restarts. -/
  lossless : ∀ e ∈ past, e.isLoss = false
  /-- Every message fits everywhere. -/
  fits : ∀ msg ∈ allPublications past, ∀ k, bodySize msg.body ≤ (C.config k).limits.maxMessageBytes
  /-- There are few messages. -/
  few : ∀ k, (allPublications past).length < (C.config k).limits.seenCapacity

/-- What is assumed of a run holds of every part of it. -/
theorem WithoutLoss.of_append (h : WithoutLoss C (past ++ es)) : WithoutLoss C past := by
  have happend : allPublications (past ++ es) = allPublications past ++ allPublications es :=
    List.filterMap_append
  refine ⟨fun e he => h.lossless e (List.mem_append_left es he), ?_, ?_⟩
  · intro msg hmsg
    exact h.fits msg (by rw [happend]; exact List.mem_append_left _ hmsg)
  · intro k
    have hfew := h.few k
    rw [happend, List.length_append] at hfew
    omega

/-- A message was published exactly if it is among all messages. -/
theorem mem_allPublications : msg ∈ allPublications past ↔ WasPublished past msg := by
  constructor
  · intro hmem
    obtain ⟨e, he, heq⟩ := List.mem_filterMap.mp hmem
    cases e with
    | published k key held msg' queued => exact ⟨k, key, held, queued, Option.some.inj heq ▸ he⟩
    | _ => cases heq
  · rintro ⟨k, key, held, queued, hmem⟩
    exact List.mem_filterMap.mpr ⟨_, hmem, rfl⟩

variable [DecidableEq ι]

/-- Acceptances add up. -/
theorem acceptances_append (past es : List (Event ι)) (i : ι) :
    acceptances (past ++ es) i = acceptances past i ++ acceptances es i := List.filterMap_append

/-- A message that is published is accepted where it is. -/
theorem acceptances_published (i k : ι) (key : Str) (held : TypeReg) (msg : Message)
    (queued : Finset ℕ) : acceptances [.published i key held msg queued] k =
      if k = i then [(msg, none)] else [] := by
  by_cases hk : k = i
  · simp [acceptances, Event.acceptance, hk]
  · simp [acceptances, Event.acceptance, hk, Ne.symm hk]

/-- A message that arrives and is new is accepted where it arrives. -/
theorem acceptances_ingested (i k peer : ι) (msg : Message) :
    acceptances [.ingested i peer msg true] k = if k = i then [(msg, some peer)] else [] := by
  by_cases hk : k = i
  · simp [acceptances, Event.acceptance, hk]
  · simp [acceptances, Event.acceptance, hk, Ne.symm hk]

/-- Events that are not about messages accept none. -/
theorem acceptances_quiet (hes : ∀ e ∈ es, e.isMessage = false) (k : ι) :
    acceptances es k = [] := by
  refine List.filterMap_eq_nil_iff.mpr fun e he => ?_
  cases e with
  | published | ingested => cases hes _ he
  | _ => rfl

/-- Sends add up. -/
theorem sends_append (past es : List (Event ι)) (i j : ι) :
    sends (past ++ es) i j = sends past i j ++ sends es i j := List.filterMap_append

/-- A daemon publishes no more messages than the cluster. -/
theorem publications_length_le (past : List (Event ι)) (i : ι) :
    (publications past i).length ≤ (allPublications past).length := by
  induction past with
  | nil => exact le_refl _
  | cons e past ih =>
    unfold publications allPublications at ih ⊢
    rw [List.filterMap_cons, List.filterMap_cons]
    cases e with
    | published k key held msg queued =>
      simp only [Event.publication, Event.message]
      split
      · simp only [List.length_cons]; omega
      · simp only [List.length_cons]; omega
    | _ => exact ih

/-- A message is accepted where it is published, or arrives and is new. -/
theorem mem_acceptances {src : Option ι} : (msg, src) ∈ acceptances past i ↔
    src = none ∧ (∃ key held queued, .published i key held msg queued ∈ past) ∨
      ∃ peer, src = some peer ∧ .ingested i peer msg true ∈ past := by
  constructor
  · intro hmem
    obtain ⟨e, he, heq⟩ := List.mem_filterMap.mp hmem
    cases e with
    | published k key held msg' queued =>
      simp only [Event.acceptance] at heq
      split at heq
      · next hk =>
        obtain ⟨rfl, rfl⟩ := Prod.mk.inj (Option.some.inj heq)
        exact Or.inl ⟨rfl, key, held, queued, hk ▸ he⟩
      · cases heq
    | ingested k peer msg' new =>
      simp only [Event.acceptance] at heq
      split at heq
      · next hk =>
        obtain ⟨rfl, rfl⟩ := Prod.mk.inj (Option.some.inj heq)
        obtain ⟨rfl, rfl⟩ := hk
        exact Or.inr ⟨peer, rfl, he⟩
      · cases heq
    | _ => cases heq
  · rintro (⟨rfl, key, held, queued, hmem⟩ | ⟨peer, rfl, hmem⟩)
    · exact List.mem_filterMap.mpr ⟨_, hmem, by simp [Event.acceptance]⟩
    · exact List.mem_filterMap.mpr ⟨_, hmem, by simp [Event.acceptance]⟩

/-- A daemon records the ids of the messages it accepts. -/
theorem acceptances_ids (past : List (Event ι)) (i : ι) :
    (acceptances past i).map (fun p => p.1.msgId) = recorded past i := by
  unfold acceptances recorded
  rw [List.map_filterMap]
  congr 1
  funext e
  cases e with
  | published k key held msg queued =>
    simp only [Event.acceptance, Event.record]
    split <;> rfl
  | ingested k peer msg new =>
    simp only [Event.acceptance, Event.record]
    split <;> rfl
  | _ => rfl

end Histories

section Steps

variable [DecidableEq ι] {C : Cluster ι} {s s' : Net ι} {a : Action ι} {past es : List (Event ι)}
  {i j : ι} {msg : Message} {src : Option ι}

/-- A message that is accepted is in line for a broadcast, and was published now or was on the
link from its source. -/
theorem MessageStep.accepted (h : MessageStep C s a s' es)
    (haccepted : (msg, src) ∈ acceptances es i) :
    (∃ t ∈ s'.tasks i, t.frame = .feed msg ∧ t.exclude = src) ∧
      (src = none ∧ WasPublished es msg ∨
        ∃ peer, src = some peer ∧ (s.link peer i).Holds (.feed msg)) := by
  have hlast : ∀ {k : ι} {ts : List (Task ι)} {t : Task ι},
      s'.tasks = Function.update s.tasks k (ts ++ [t]) → t ∈ s'.tasks k := by
    intro k ts t htask
    rw [htask, Function.update_self]
    exact List.mem_append_right _ (List.mem_singleton_self t)
  rcases mem_acceptances.mp haccepted with
    ⟨rfl, key, held, queued, hevent⟩ | ⟨peer, rfl, hevent⟩
  · have hpublished : WasPublished es msg := ⟨i, key, held, queued, hevent⟩
    cases h with
    | quiet hhub hingesting hes => cases hes _ hevent
    | publish _ _ _ _ _ _ _ _ htask =>
      obtain ⟨rfl, rfl, rfl, rfl, rfl⟩ := Event.published.inj (List.mem_singleton.mp hevent)
      exact ⟨⟨_, hlast htask, rfl, rfl⟩, Or.inl ⟨rfl, hpublished⟩⟩
    | ingest => simp at hevent
    | fanOut => simp at hevent
    | duplicate => simp at hevent
    | restart => simp at hevent
  · cases h with
    | quiet hhub hingesting hes => cases hes _ hevent
    | publish => simp at hevent
    | ingest _ hheld _ _ _ htask =>
      obtain ⟨rfl, rfl, rfl, _⟩ := Event.ingested.inj (List.mem_singleton.mp hevent)
      exact ⟨⟨_, hlast htask, rfl, rfl⟩, Or.inr ⟨peer, rfl, hheld⟩⟩
    | fanOut => simp at hevent
    | duplicate => simp at hevent
    | restart => simp at hevent

/-- What a publish does. -/
structure Publishes (s : Net ι) (a : Action ι) (i : ι) (key : Str) (msg : Message) : Prop where
  /-- The message has a type. -/
  typeName : msg.typeName ≠ []
  /-- It gets the next id. -/
  id : msg.msgId = (s.hub i).registry.msgId
  /-- It originates at the daemon. -/
  origin : msg.origin = (s.hub i).registry.daemonId
  /-- Nothing else publishes. -/
  action : a = .publish i msg.typeName key msg.body

/-- A message is published by a publish. -/
theorem Cluster.Stepped.published (h : C.Stepped s a s' es) {key : Str} {held : TypeReg}
    {queued : Finset ℕ} (hevent : .published i key held msg queued ∈ es) :
    Publishes s a i key msg := by
  cases h with
  | publish htype hbody hheld hkey hmsg =>
    obtain ⟨rfl, rfl, rfl, rfl, rfl⟩ := Event.published.inj (List.mem_singleton.mp hevent)
    refine ⟨?_, by rw [hmsg], by rw [hmsg], by rw [hmsg]⟩
    intro hnil
    simp only [hmsg] at hnil
    rw [hnil] at htype
    cases htype
  | broadcast =>
    obtain ⟨b, _, heq⟩ := List.mem_map.mp hevent
    split at heq <;> cases heq
  | push =>
    have heq := List.mem_singleton.mp hevent
    split at heq <;> cases heq
  | receive haction hread hhandled => cases hhandled <;> simp at hevent
  | _ => simp at hevent

omit [DecidableEq ι] in
/-- Links stay up in a steady cluster. -/
theorem PhaseStep.isPeer (h : PhaseStep C s a s' es i j) (hok : steady C s past a)
    (hup : (s.link i j).isPeer) : (s'.link i j).isPeer := by
  have hne : (s.link i j).phase ≠ .down := by simpa [Link.isPeer] using hup
  suffices hne' : (s'.link i j).phase ≠ .down by simpa [Link.isPeer] using hne'
  cases h with
  | keep hphase => exact hphase ▸ hne
  | lose hphase hcause =>
    rcases hcause with rfl | ⟨k, rfl⟩
    · exact hok.elim
    · exact hok.elim
  | insert _ hphase | snapshot _ _ hphase | push _ hphase | start _ hphase =>
    rw [hphase]
    exact LinkPhase.noConfusion

/-- A call that is to broadcast a message has accepted it. -/
theorem Cluster.Stepped.task (h : C.Stepped s a s' es) {t : Task ι} (ht : t ∈ s'.tasks i)
    (hframe : t.frame = .feed msg) :
    (∃ t₀ ∈ s.tasks i, t₀.frame = .feed msg ∧ t₀.exclude = t.exclude) ∨
      (msg, t.exclude) ∈ acceptances es i := by
  have hold : t ∈ s.tasks i → (∃ t₀ ∈ s.tasks i, t₀.frame = .feed msg ∧ t₀.exclude = t.exclude) ∨
      (msg, t.exclude) ∈ acceptances es i := fun ht => Or.inl ⟨t, ht, hframe, rfl⟩
  have hadd : ∀ (n : Net ι) (k : ι) (new : Task ι), n.tasks = s.tasks →
      t ∈ (n.addTask k new).tasks i → t ∈ s.tasks i ∨ i = k ∧ t = new := by
    intro n k new hn ht
    rw [Net.addTask_tasks, hn] at ht
    split at ht
    · next hk =>
      rcases List.mem_append.mp ht with ht | ht
      · exact Or.inl ht
      · exact Or.inr ⟨hk, List.mem_singleton.mp ht⟩
    · exact Or.inl ht
  cases h with
  | publish =>
    rcases hadd _ _ _ rfl ht with ht | ⟨rfl, rfl⟩
    · exact hold ht
    · obtain rfl := OutFrame.feed.inj hframe
      exact Or.inr (mem_acceptances.mpr (Or.inl ⟨rfl, _, _, _, List.mem_singleton_self _⟩))
  | create =>
    rcases hadd _ _ _ rfl ht with ht | ⟨rfl, rfl⟩
    · exact hold ht
    · cases hframe
  | fanOut htask hregistry hqueue =>
    rw [Net.setTasks_tasks] at ht
    split at ht
    · next hi =>
      exact Or.inl (hi ▸ (mem_tasks_fannedOut htask).mp ⟨t, ht, hframe, rfl⟩)
    · exact hold ht
  | broadcast htask hdone =>
    rw [Cluster.broadcast_tasks, Net.setTasks_tasks] at ht
    split at ht
    · next hi => exact hold (hi ▸ List.mem_of_mem_eraseIdx ht)
    · exact hold ht
  | receive haction hread hhandled =>
    cases hhandled with
    | ingest =>
      rcases hadd _ _ _ rfl ht with ht | ⟨rfl, rfl⟩
      · exact hold ht
      · obtain rfl := OutFrame.feed.inj hframe
        exact Or.inr (mem_acceptances.mpr (Or.inr ⟨_, rfl, List.mem_singleton_self _⟩))
    | adopt =>
      rcases hadd _ _ _ rfl ht with ht | ⟨rfl, rfl⟩
      · exact hold ht
      · cases hframe
    | _ => exact hold ht
  | restart =>
    dsimp only at ht
    rw [Function.update_apply] at ht
    split at ht
    · cases ht
    · exact hold ht
  | _ => exact hold ht

/-- A message is sent by a call that broadcasts it. -/
theorem Cluster.Stepped.sent (h : C.Stepped s a s' es) (hsent : .sent i j (.feed msg) ∈ es) :
    ∃ t ∈ s.tasks i, t.frame = .feed msg ∧ t.exclude ≠ some j := by
  cases h with
  | broadcast htask hdone =>
    rename_i k n t
    obtain ⟨b, hb, heq⟩ := List.mem_map.mp hsent
    have hexclude := (List.mem_filter.mp hb).2
    rw [decide_eq_true_eq] at hexclude
    split at heq
    · obtain ⟨rfl, rfl, hframe⟩ := Event.sent.inj heq
      exact ⟨t, List.mem_of_getElem? htask, hframe, hexclude.1.symm⟩
    · cases heq
  | push =>
    have heq := List.mem_singleton.mp hsent
    split at heq <;> cases heq
  | receive haction hread hhandled => cases hhandled <;> simp at hsent
  | _ => simp at hsent

/-- How many calls of the daemon are to broadcast the message. -/
def waiting (s : Net ι) (i : ι) (msg : Message) : ℕ :=
  (s.tasks i).countP fun t => t.frame = .feed msg

/-- How often the message was accepted. -/
def accepted (past : List (Event ι)) (i : ι) (msg : Message) : ℕ :=
  (acceptances past i).countP fun p => p.1 = msg

/-- One task more. -/
theorem waiting_addTask (n : Net ι) (k i : ι) (t : Task ι) (msg : Message) :
    waiting (n.addTask k t) i msg =
      waiting n i msg + if k = i ∧ t.frame = .feed msg then 1 else 0 := by
  unfold waiting
  rw [Net.addTask_tasks]
  by_cases hk : k = i
  · subst hk
    rw [if_pos rfl, List.countP_append, List.countP_singleton]
    simp
  · rw [if_neg (Ne.symm hk), if_neg (fun h => hk h.1), Nat.add_zero]

/-- A broadcast sends its frame at most once over a link. -/
theorem sends_broadcast (n : Net ι) (k i j : ι) (frame f : OutFrame) (exclude : Option ι) :
    (sends (C.broadcast n k frame exclude).2 i j).count f ≤
      if k = i ∧ frame = f then 1 else 0 := by
  -- Every peer in the list accounts for one send at most.
  have hlist : ∀ peers : List ι,
      (sends (peers.map fun b => if (n.link k b).hasRoom then Event.sent k b frame
        else .dropped k b frame) i j).count f ≤
        if k = i ∧ frame = f then peers.count j else 0 := by
    intro peers
    induction peers with
    | nil => simp [sends]
    | cons b peers ih =>
      have hone : (sends [if (n.link k b).hasRoom then Event.sent k b frame
          else .dropped k b frame] i j).count f ≤
          if (k = i ∧ frame = f) ∧ b = j then 1 else 0 := by
        split
        · by_cases hkb : k = i ∧ b = j
          · have hsent : sends [Event.sent k b frame] i j = [frame] := by
              simp [sends, Event.sending, hkb]
            rw [hsent]
            by_cases hf : frame = f
            · rw [if_pos ⟨⟨hkb.1, hf⟩, hkb.2⟩]
              exact List.count_le_length
            · simp [hf]
          · have hnone : sends [Event.sent k b frame] i j = [] := by
              simp [sends, Event.sending, hkb]
            rw [hnone]
            exact Nat.zero_le _
        · exact Nat.zero_le _
      rw [List.map_cons, ← List.singleton_append, sends_append, List.count_append, List.count_cons]
      by_cases hk : k = i ∧ frame = f
      · simp only [hk, and_self, true_and, if_true, beq_iff_eq] at ih hone ⊢
        omega
      · simp only [hk, false_and, if_false] at ih hone ⊢
        omega
  refine (hlist _).trans ?_
  split
  · exact List.nodup_iff_count_le_one.mp ((C.nodup k).filter _) j
  · exact le_refl 0

/-- Acceptances add up. -/
theorem accepted_append (past es : List (Event ι)) (i : ι) (msg : Message) :
    accepted (past ++ es) i msg = accepted past i msg + accepted es i msg := by
  unfold accepted
  rw [acceptances_append, List.countP_append]

/-- A publish is an acceptance. -/
theorem accepted_published (k i : ι) (key : Str) (held : TypeReg) (new msg : Message)
    (queued : Finset ℕ) : accepted [.published k key held new queued] i msg =
      if k = i ∧ new = msg then 1 else 0 := by
  by_cases hk : k = i
  · simp [accepted, acceptances, Event.acceptance, hk]
  · simp [accepted, acceptances, Event.acceptance, hk]

/-- The arrival of a message that is new is an acceptance. -/
theorem accepted_ingested (k i peer : ι) (new msg : Message) :
    accepted [.ingested k peer new true] i msg = if k = i ∧ new = msg then 1 else 0 := by
  by_cases hk : k = i
  · simp [accepted, acceptances, Event.acceptance, hk]
  · simp [accepted, acceptances, Event.acceptance, hk]

/-- **Every send is paid for.** What a step sends of a message over one link, and what is then
still to be broadcast, was to be broadcast before or is accepted now. -/
theorem Cluster.Stepped.sends_le (h : C.Stepped s a s' es) (i j : ι) (msg : Message) :
    (sends es i j).count (.feed msg) + waiting s' i msg ≤ waiting s i msg + accepted es i msg := by
  have hidle : (sends es i j).count (.feed msg) = 0 → waiting s' i msg ≤ waiting s i msg →
      (sends es i j).count (.feed msg) + waiting s' i msg ≤
        waiting s i msg + accepted es i msg := by
    intro hsends hwaiting
    omega
  -- A call that is to broadcast a message has just accepted it.
  have hnew : ∀ (n : Net ι) (k : ι) (t : Task ι), n.tasks = s.tasks →
      (sends es i j).count (.feed msg) = 0 →
      (if k = i ∧ t.frame = .feed msg then 1 else 0) ≤ accepted es i msg →
      (sends es i j).count (.feed msg) + waiting (n.addTask k t) i msg ≤
        waiting s i msg + accepted es i msg := by
    intro n k t hn hsends haccepted
    have hsame : waiting n i msg = waiting s i msg := by unfold waiting; rw [hn]
    rw [waiting_addTask]
    omega
  cases h with
  | publish =>
    refine hnew _ _ _ rfl rfl ?_
    rw [accepted_published]
    simp
  | create => exact hnew _ _ _ rfl rfl (by simp)
  | fanOut htask hregistry hqueue =>
    rename_i k n new exclude h
    refine hidle rfl ?_
    unfold waiting
    rw [Net.setTasks_tasks]
    split
    · next hi =>
      subst hi
      exact (Cluster.countP_set_of_eq htask (by rfl)).le
    · exact le_rfl
  | broadcast htask hdone =>
    rename_i k n t
    have hsends := sends_broadcast (C := C) (s.setTasks k ((s.tasks k).eraseIdx n)) k i j t.frame
      (.feed msg) t.exclude
    have hwaiting : waiting (s.setTasks k ((s.tasks k).eraseIdx n)) i msg +
        (if k = i ∧ t.frame = .feed msg then 1 else 0) = waiting s i msg := by
      unfold waiting
      rw [Net.setTasks_tasks]
      by_cases hk : i = k
      · subst hk
        obtain ⟨hn, hget⟩ := List.getElem?_eq_some_iff.mp htask
        rw [if_pos rfl, ← (List.getElem_cons_eraseIdx_perm hn).countP_eq, List.countP_cons, hget]
        simp
      · rw [if_neg hk, if_neg (fun h => hk h.1.symm), Nat.add_zero]
    have htasks : waiting (C.broadcast (s.setTasks k ((s.tasks k).eraseIdx n)) k t.frame
        t.exclude).1 i msg = waiting (s.setTasks k ((s.tasks k).eraseIdx n)) i msg := rfl
    omega
  | push =>
    refine hidle ?_ (le_refl _)
    refine List.count_eq_zero.mpr ?_
    intro hmem
    obtain ⟨e, he, heq⟩ := List.mem_filterMap.mp hmem
    rw [List.mem_singleton.mp he] at heq
    split at heq
    · simp only [Event.sending] at heq
      split at heq
      · cases heq
      · cases heq
    · cases heq
  | receive haction hread hhandled =>
    cases hhandled with
    | ingest =>
      refine hnew _ _ _ rfl rfl ?_
      rw [accepted_ingested]
      simp
    | adopt => exact hnew _ _ _ rfl rfl (by simp)
    | _ => exact hidle rfl (le_refl _)
  | restart =>
    refine hidle rfl ?_
    unfold waiting
    dsimp only
    rw [Function.update_apply]
    split
    · exact Nat.zero_le _
    · exact le_refl _
  | _ => exact hidle rfl (le_refl _)

/-- What holds of messages as long as nothing is lost. -/
structure FloodingInvariant (C : Cluster ι) (s : Net ι) (past : List (Event ι)) : Prop where
  /-- Messages are numbered. -/
  publications : PublicationInvariant C s past
  /-- Ids are recorded once. -/
  records : RecordInvariant C s past
  /-- A message that came from no peer originates here. -/
  origin : ∀ i msg, (msg, none) ∈ acceptances past i → msg.origin = (C.config i).daemonId
  /-- Published messages are well formed. -/
  wellFormed : ∀ msg, WasPublished past msg → msg.typeName ≠ [] ∧ msg.msgId ≠ [] ∧ msg.origin ≠ []
  /-- Once a message is published, all links are up. -/
  up : ∀ msg, WasPublished past msg → ∀ i j, j ∈ C.peers i → (s.link i j).isPeer
  /-- What is accepted was published. -/
  known : ∀ i msg src, (msg, src) ∈ acceptances past i → WasPublished past msg
  /-- What is on a link was accepted at its near end. -/
  links : ∀ i j msg, (s.link i j).Holds (.feed msg) → msg.msgId ∈ recorded past i
  /-- Calls broadcast what was accepted, save to where it came from. -/
  tasks : ∀ i, ∀ t ∈ s.tasks i, ∀ msg, t.frame = .feed msg →
    (msg, t.exclude) ∈ acceptances past i
  /-- The peer a message came from has accepted it. -/
  back : ∀ i j msg, (msg, some j) ∈ acceptances past i → msg.msgId ∈ recorded past j
  /-- The other peers have accepted it, or it is on its way there. -/
  onward : ∀ i j msg src, (msg, src) ∈ acceptances past i → j ∈ C.peers i → src ≠ some j →
    s.OnWay i j (.feed msg) ∨ msg.msgId ∈ recorded past j
  /-- Sends are paid for. -/
  paid : ∀ i j msg, (sends past i j).count (.feed msg) + waiting s i msg ≤ accepted past i msg
  /-- Nothing is sent to where it came from. -/
  away : ∀ i j msg, .sent i j (.feed msg) ∈ past →
    ∃ src, (msg, src) ∈ acceptances past i ∧ src ≠ some j

/-- No message is on its way when all daemons have started. -/
theorem floodingInvariant_initial : FloodingInvariant C C.initial [] where
  publications := publicationInvariant_initial
  records := recordInvariant_initial
  origin i msg h := by cases h
  wellFormed msg h := by obtain ⟨_, _, _, _, h⟩ := h; cases h
  up msg h := by obtain ⟨_, _, _, _, h⟩ := h; cases h
  known i msg src h := by cases h
  links i j msg h := by rcases h with h | h | h <;> cases h
  tasks i t ht := by cases ht
  back i j msg h := by cases h
  onward i j msg src h := by cases h
  paid i j msg := le_refl 0
  away i j msg h := by cases h

/-- An accepted message is recorded. -/
theorem recorded_of_accepted (h : (msg, src) ∈ acceptances past i) : msg.msgId ∈ recorded past i := by
  rw [← acceptances_ids]
  exact List.mem_map.mpr ⟨_, h, rfl⟩

/-- What was accepted stays accepted. -/
theorem accepted_append_left (h : (msg, src) ∈ acceptances past i) (es : List (Event ι)) :
    (msg, src) ∈ acceptances (past ++ es) i := by
  rw [acceptances_append]
  exact List.mem_append_left _ h

/-- What was recorded stays recorded. -/
theorem recorded_append_left {id : Str} (h : id ∈ recorded past i) (es : List (Event ι)) :
    id ∈ recorded (past ++ es) i := by
  rw [recorded_append]
  exact List.mem_append_left _ h

namespace FloodingInvariant

/-- While there are few messages, a seen-set holds all ids that were recorded. -/
theorem mem_set (hinv : FloodingInvariant C s past) (hloss : WithoutLoss C past) {id : Str}
    (h : id ∈ recorded past i) : id ∈ (s.hub i).registry.seen.set := by
  obtain ⟨older, newer, hsplit⟩ := List.append_of_mem h
  refine hinv.records.mem_set hsplit ?_
  have hsubset : recorded past i ⊆ (allPublications past).map Message.msgId := by
    intro id hid
    obtain ⟨msg, hpublished, rfl⟩ := hinv.records.published i id hid
    exact List.mem_map.mpr ⟨msg, mem_allPublications.mpr hpublished, rfl⟩
  have hlength := (List.subperm_of_subset (hinv.records.once i) hsubset).length_le
  have hfew := hloss.few i
  rw [List.length_map, hsplit, List.length_append, List.length_cons] at hlength
  omega

/-- A seen-set holds only ids that were recorded. -/
theorem recorded_of_mem_set (hinv : FloodingInvariant C s past) {id : Str}
    (h : id ∈ (s.hub i).registry.seen.set) : id ∈ recorded past i := by
  rw [(hinv.records.wf i).mem_set, hinv.records.order i] at h
  exact List.mem_of_mem_drop h

/-- Nothing is recorded twice. -/
theorem records_step (hinv : FloodingInvariant C s past) (hstepped : C.Stepped s a s' es)
    (hloss : WithoutLoss C (past ++ es)) : RecordInvariant C s' (past ++ es) := by
  have halive : ∀ i, .restarted i ∉ es := by
    intro i hmem
    cases hloss.lossless _ (List.mem_append_right past hmem)
  have hsteps := hstepped.messages.records halive hinv.publications.links
  refine hinv.records.step hsteps ?_
  intro i id hid hold
  cases hsteps i with
  | keep hrecorded => rw [hrecorded] at hid; cases hid
  | record hrecorded hseen hsource =>
    rename_i msg
    obtain rfl := List.singleton_inj.mp (hrecorded.symm.trans hid)
    rcases hsource with ⟨hnext, _⟩ | ⟨hunseen, _⟩
    · obtain ⟨old, hpublished, heq⟩ := hinv.records.published i _ hold
      have hcount := publications_length_le past i
      have hfew := hloss.of_append.few i
      have hmachine := C.machine i
      exact hinv.publications.fresh (by omega) hpublished (heq.trans hnext)
    · exact hunseen (hinv.mem_set hloss.of_append hold)

/-- A message that is read is accepted. -/
theorem recorded_of_read (hinv : FloodingInvariant C s past) (hloss : WithoutLoss C past)
    {n : Net ι} {peer : ι} (hpublished : WasPublished past msg) (hhub : n.hub = s.hub)
    (hhandled : Cluster.Handled C n j peer (.feed msg) s' es) :
    msg.msgId ∈ recorded (past ++ es) j := by
  cases hhandled with
  | refuseFeed hbad =>
    obtain ⟨htype, hid, horigin⟩ := hinv.wellFormed msg hpublished
    have hfits := hloss.fits msg (mem_allPublications.mpr hpublished) j
    rcases hbad with hbad | hbad | hbad | hbad
    · exact absurd hbad htype
    · exact absurd hbad hid
    · exact absurd hbad horigin
    · omega
  | duplicate hseen =>
    rw [hhub] at hseen
    exact recorded_append_left (hinv.recorded_of_mem_set hseen) _
  | ingest =>
    rw [recorded_append]
    refine List.mem_append_right _ ?_
    simp [recorded, Event.record]

/-- What was accepted before or is accepted now was published. -/
theorem known_step (hinv : FloodingInvariant C s past) (hstepped : C.Stepped s a s' es)
    (h : (msg, src) ∈ acceptances (past ++ es) i) : WasPublished (past ++ es) msg := by
  rw [acceptances_append] at h
  rcases List.mem_append.mp h with hold | hnew
  · exact (hinv.known i msg src hold).append es
  · rcases (hstepped.messages.accepted hnew).2 with ⟨_, hpublished⟩ | ⟨peer, _, hheld⟩
    · exact wasPublished_append.mpr (Or.inr hpublished)
    · exact (hinv.publications.links _ _ _ hheld).append es

/-- A message that is accepted stays on its way to each peer until the peer has accepted it. -/
theorem onward_step (hinv : FloodingInvariant C s past) (hloss : WithoutLoss C (past ++ es))
    (hok : steady C s past a) (hstepped : C.Stepped s a s' es)
    (h : (msg, src) ∈ acceptances (past ++ es) i) (hpeer : j ∈ C.peers i) (hne : src ≠ some j) :
    s'.OnWay i j (.feed msg) ∨ msg.msgId ∈ recorded (past ++ es) j := by
  rw [acceptances_append] at h
  rcases List.mem_append.mp h with hold | hnew
  · have hpublished := hinv.known i msg src hold
    have hup := hinv.up msg hpublished i j hpeer
    have hlossless : ∀ e ∈ es, e.isLoss = false :=
      fun e he => hloss.lossless e (List.mem_append_right past he)
    rcases hinv.onward i j msg src hold hpeer hne with hway | hrecorded
    · rcases hstepped.onWay hlossless hpeer hup ((hstepped.phase i j).isPeer hok hup) hway with
        hway | ⟨l, _, hhandled⟩
      · exact Or.inl hway
      · exact Or.inr (hinv.recorded_of_read (n := s.setLink i j l) hloss.of_append hpublished rfl
          hhandled)
    · exact Or.inr (recorded_append_left hrecorded es)
  · obtain ⟨t, ht, hframe, hexclude⟩ := (hstepped.messages.accepted hnew).1
    exact Or.inl (Or.inr (Or.inr ⟨t, ht, hframe, hexclude ▸ hne⟩))

/-- **Every step in which nothing is lost keeps the invariant.** -/
theorem step (hinv : FloodingInvariant C s past) (hloss : WithoutLoss C (past ++ es))
    (hok : steady C s past a) (hstepped : C.Stepped s a s' es) :
    FloodingInvariant C s' (past ++ es) where
  publications := by
    refine hinv.publications.step hstepped ?_
    intro i hmem
    cases hloss.lossless _ (List.mem_append_right past hmem)
  records := hinv.records_step hstepped hloss
  origin := by
    intro i msg h
    rw [acceptances_append] at h
    rcases List.mem_append.mp h with hold | hnew
    · exact hinv.origin i msg hold
    · rcases mem_acceptances.mp hnew with ⟨_, key, held, queued, hevent⟩ | ⟨peer, hsrc, _⟩
      · rw [(hstepped.published hevent).origin]
        exact hinv.publications.names i
      · cases hsrc
  wellFormed := by
    intro msg h
    rcases wasPublished_append.mp h with hold | ⟨i, key, held, queued, hevent⟩
    · exact hinv.wellFormed msg hold
    · obtain ⟨htype, hid, horigin, _⟩ := hstepped.published hevent
      refine ⟨htype, ?_, ?_⟩
      · rw [hid]
        simp [Registry.msgId]
      · rw [horigin, hinv.publications.names i]
        exact (C.token i).1
  up := by
    intro msg h i j hpeer
    apply (hstepped.phase i j).isPeer hok
    rcases wasPublished_append.mp h with hold | ⟨k, key, held, queued, hevent⟩
    · exact hinv.up msg hold i j hpeer
    · rw [(hstepped.published hevent).action] at hok
      exact hok i j hpeer
  known i msg src h := hinv.known_step hstepped h
  links := by
    intro i j msg h
    refine recorded_append_left ?_ es
    rcases hstepped.holds h with hold | ⟨t, ht, hframe⟩ | ⟨_, _, _, _, heq⟩
    · exact hinv.links i j msg hold
    · exact recorded_of_accepted (hinv.tasks i t ht msg hframe)
    · cases heq
  tasks := by
    intro i t ht msg hframe
    rcases hstepped.task ht hframe with ⟨t₀, ht₀, hframe₀, hexclude⟩ | hnew
    · exact accepted_append_left (hexclude ▸ hinv.tasks i t₀ ht₀ msg hframe₀) es
    · rw [acceptances_append]
      exact List.mem_append_right _ hnew
  back := by
    intro i j msg h
    refine recorded_append_left ?_ es
    rw [acceptances_append] at h
    rcases List.mem_append.mp h with hold | hnew
    · exact hinv.back i j msg hold
    · rcases (hstepped.messages.accepted hnew).2 with ⟨hsrc, _⟩ | ⟨peer, hsrc, hheld⟩
      · cases hsrc
      · obtain rfl := Option.some.inj hsrc
        exact hinv.links j i msg hheld
  onward i j msg src h hpeer hne := hinv.onward_step hloss hok hstepped h hpeer hne
  paid := by
    intro i j msg
    have hbefore := hinv.paid i j msg
    have hnow := hstepped.sends_le i j msg
    rw [sends_append, List.count_append, accepted_append]
    omega
  away := by
    intro i j msg h
    rcases List.mem_append.mp h with hold | hnew
    · obtain ⟨src, hsrc, hne⟩ := hinv.away i j msg hold
      exact ⟨src, accepted_append_left hsrc es, hne⟩
    · obtain ⟨t, ht, hframe, hne⟩ := hstepped.sent hnew
      exact ⟨t.exclude, accepted_append_left (hinv.tasks i t ht msg hframe) es, hne⟩

/-- Published messages are told apart by their ids. -/
theorem eq_of_msgId (hinv : FloodingInvariant C s past) (hloss : WithoutLoss C past)
    {msg' : Message} (h : WasPublished past msg) (h' : WasPublished past msg')
    (hid : msg'.msgId = msg.msgId) : msg' = msg := by
  refine hinv.publications.eq_of_msgId ?_ h h' hid
  intro i
  have hcount := publications_length_le past i
  have hfew := hloss.few i
  have hmachine := C.machine i
  omega

/-- A recorded id is the id of a message that was accepted. -/
theorem exists_accepted (hinv : FloodingInvariant C s past) (hloss : WithoutLoss C past)
    (hpublished : WasPublished past msg) (h : msg.msgId ∈ recorded past i) :
    ∃ src, (msg, src) ∈ acceptances past i := by
  rw [← acceptances_ids] at h
  obtain ⟨⟨msg', src⟩, haccepted, hid⟩ := List.mem_map.mp h
  obtain rfl := hinv.eq_of_msgId hloss hpublished (hinv.known i msg' src haccepted) hid
  exact ⟨src, haccepted⟩

/-- Nothing is accepted twice. -/
theorem accepted_once (hinv : FloodingInvariant C s past) (h : (msg, src) ∈ acceptances past i) :
    (acceptances past i).filter (fun p => p.1 = msg) = [(msg, src)] := by
  have hnodup : ((acceptances past i).map fun p => p.1.msgId).Nodup := by
    rw [acceptances_ids]
    exact hinv.records.once i
  obtain ⟨before, after, hsplit⟩ := List.append_of_mem h
  rw [hsplit, List.map_append, List.map_cons] at hnodup
  obtain ⟨hbefore, hafter⟩ := List.nodup_middle.mp hnodup |> List.nodup_cons.mp
  have hother : ∀ p ∈ before ++ after, decide (p.1 = msg) = false := by
    intro p hp
    rw [decide_eq_false_iff_not]
    rintro rfl
    rw [← List.map_append] at hbefore
    exact hbefore (List.mem_map.mpr ⟨p, hp, rfl⟩)
  rw [hsplit, List.filter_append, List.filter_cons_of_pos (by simp),
    List.filter_eq_nil_iff.mpr (by simpa using fun p hp => hother p (List.mem_append_left _ hp)),
    List.filter_eq_nil_iff.mpr (by simpa using fun p hp => hother p (List.mem_append_right _ hp))]
  rfl

/-- In numbers, too. -/
theorem accepted_le_one (hinv : FloodingInvariant C s past) (i : ι) (msg : Message) :
    accepted past i msg ≤ 1 := by
  unfold accepted
  by_cases h : ∃ src, (msg, src) ∈ acceptances past i
  · obtain ⟨src, h⟩ := h
    rw [List.countP_eq_length_filter, hinv.accepted_once h]
    exact le_refl 1
  · rw [List.countP_eq_zero.mpr]
    · exact Nat.zero_le 1
    · rintro ⟨msg', src⟩ hmem
      rw [decide_eq_true_eq]
      rintro rfl
      exact h ⟨src, hmem⟩

end FloodingInvariant

/-- **Flooding reaches every daemon exactly once.** Let the links connect all daemons, all of
them be up before the first publish and stay up, no frame be dropped, no daemon restart, and
the cluster publish fewer messages than any seen-set holds. Then a daemon sends a message at
most once over a link and never to the peer it accepted it from; and whenever no message is
on its way, every daemon has accepted every published message exactly once, its origin from
a connection and the others from a peer. -/
theorem flooding_reaches_every_daemon_once
    (hconnected : StronglyConnected fun i j => j ∈ C.peers i)
    (hrun : Run C.step (steady C) C.initial s past) (hloss : WithoutLoss C past) :
    (∀ i j msg, (sends past i j).count (.feed msg) ≤ 1) ∧
      (∀ i j msg, (msg, some j) ∈ acceptances past i → .sent i j (.feed msg) ∉ past) ∧
      (Quiet s → ∀ msg, WasPublished past msg → ∀ k, ∃ src,
        (acceptances past k).filter (fun p => p.1 = msg) = [(msg, src)] ∧
          (src = none ↔ msg.origin = (C.config k).daemonId)) := by
  have hinv : FloodingInvariant C s past := by
    refine Run.invariant_of_history (H := WithoutLoss C) (I := FloodingInvariant C)
      (fun _ _ h => h.of_append) floodingInvariant_initial ?_ hrun hloss
    intro s past a s' es hinv hok hstep hloss
    exact hinv.step hloss hok (Cluster.stepped C hstep)
  refine ⟨?_, ?_, ?_⟩
  · intro i j msg
    have hpaid := hinv.paid i j msg
    have honce := hinv.accepted_le_one i msg
    omega
  · intro i j msg hsrc hsent
    obtain ⟨src, haccepted, hne⟩ := hinv.away i j msg hsent
    have hsame := hinv.accepted_once hsrc
    rw [hinv.accepted_once haccepted] at hsame
    exact hne (Prod.mk.inj (List.singleton_inj.mp hsame)).2
  · intro hquiet msg hpublished k
    obtain ⟨i, key, held, queued, hevent⟩ := hpublished
    have hpublished : WasPublished past msg := ⟨i, key, held, queued, hevent⟩
    have hfirst : (msg, none) ∈ acceptances past i :=
      mem_acceptances.mpr (Or.inl ⟨rfl, key, held, queued, hevent⟩)
    have heverywhere : msg.msgId ∈ recorded past k := by
      refine hconnected.everywhere (P := fun k => msg.msgId ∈ recorded past k) ?_
        (recorded_of_accepted hfirst) k
      intro i j hpeer hi
      obtain ⟨src, haccepted⟩ := hinv.exists_accepted hloss hpublished hi
      by_cases hne : src = some j
      · exact hinv.back i j msg (hne ▸ haccepted)
      · rcases hinv.onward i j msg src haccepted hpeer hne with (hway | hway | hway) | hrecorded
        · exact absurd hway (hquiet.links i j msg).1
        · exact absurd hway (hquiet.links i j msg).2
        · obtain ⟨t, ht, hframe, _⟩ := hway
          exact absurd hframe (hquiet.tasks i t ht msg)
        · exact hrecorded
    obtain ⟨src, haccepted⟩ := hinv.exists_accepted hloss hpublished heverywhere
    refine ⟨src, hinv.accepted_once haccepted, ?_, ?_⟩
    · rintro rfl
      exact hinv.origin k msg haccepted
    · intro horigin
      obtain rfl : i = k := C.distinct ((hinv.origin i msg hfirst).symm.trans horigin)
      have hsame := hinv.accepted_once haccepted
      rw [hinv.accepted_once hfirst] at hsame
      exact (Prod.mk.inj (List.singleton_inj.mp hsame)).2.symm

end Steps

/-- A message of a pair that reaches the other daemon. -/
def floodTrace : List (Action Bool) :=
  [.insert false true, .snapshot false true, .start false true,
    .insert true false, .snapshot true false, .start true false,
    .register false "t".toList "k".toList 1,
    .publish false "t".toList "k".toList ["a".toList],
    .broadcast false 0, .broadcast false 0, .write false true, .write false true,
    .read true false, .broadcast true 0, .read true false, .fanOut true 0, .broadcast true 0]

/-- Both daemons of a pair have accepted the message in the end. -/
theorem flooding_reaches_every_daemon_once_pair : ∃ (s : Net Bool) (past : List (Event Bool)),
    Run pair.step (steady pair) pair.initial s past ∧ Quiet s ∧
      ∀ k, ∃ src, (acceptances past k).filter
        (fun p => p.1 = ⟨"t".toList, "d1-1".toList, "d1".toList, ["a".toList]⟩) =
          [(⟨"t".toList, "d1-1".toList, "d1".toList, ["a".toList]⟩, src)] := by
  obtain ⟨s, past, hrun, hlinks, htasks, hlossless, hfits, hfew, hpublished⟩ :=
    exists_run pair.step (fun s past a => decide (steady pair s past a)) pair.initial floodTrace
      (P := fun s past =>
        (∀ i j, ∀ f ∈ (s.link i j).queue ++ (s.link i j).wire, f.isRreg = true) ∧
        (∀ i, s.tasks i = []) ∧ (∀ e ∈ past, e.isLoss = false) ∧
        (∀ msg ∈ allPublications past, ∀ k,
          bodySize msg.body ≤ (pair.config k).limits.maxMessageBytes) ∧
        (∀ k, (allPublications past).length < (pair.config k).limits.seenCapacity) ∧
        (⟨"t".toList, "d1-1".toList, "d1".toList, ["a".toList]⟩ : Message) ∈ allPublications past)
      (by decide)
  have hrun' : Run pair.step (steady pair) pair.initial s past :=
    hrun.weaken fun _ _ _ hok => of_decide_eq_true hok
  have hquiet : Quiet s := by
    constructor
    · intro i j msg
      constructor
      · intro hmem
        cases hlinks i j _ (List.mem_append_left _ hmem)
      · intro hmem
        cases hlinks i j _ (List.mem_append_right _ hmem)
    · intro i t ht
      rw [htasks i] at ht
      cases ht
  have hconnected : StronglyConnected fun i j => j ∈ pair.peers i := by
    intro i j
    by_cases hij : i = j
    · exact hij ▸ .refl
    · exact .single (by revert i j; decide)
  obtain ⟨_, _, hreach⟩ :=
    flooding_reaches_every_daemon_once hconnected hrun' ⟨hlossless, hfits, hfew⟩
  refine ⟨s, past, hrun', hquiet, ?_⟩
  intro k
  obtain ⟨src, hsrc, _⟩ := hreach hquiet _ (mem_allPublications.mp hpublished) k
  exact ⟨src, hsrc⟩

end MacroBus
