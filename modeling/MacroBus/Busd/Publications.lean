import MacroBus.Busd.MessageIds
import MacroBus.Busd.MessageSteps

/-!
# Published messages

The messages of a daemon are numbered in the order in which it publishes them, and every
message on its way was published. Until a counter has gone round, all ids are distinct.
-/

namespace MacroBus

variable {ι : Type}

/-- The message of a daemon that an event publishes. -/
def Event.publication [DecidableEq ι] (i : ι) : Event ι → Option Message
  | .published k _ _ msg _ => if k = i then some msg else none
  | _ => none

/-- The messages a daemon has published, oldest first. -/
def publications [DecidableEq ι] (past : List (Event ι)) (i : ι) : List Message :=
  past.filterMap (Event.publication i)

/-- The message was published. -/
def WasPublished (past : List (Event ι)) (msg : Message) : Prop :=
  ∃ i key held queued, .published i key held msg queued ∈ past

/-- The id of the message a daemon publishes after `n` others. -/
def Cluster.messageId (C : Cluster ι) (i : ι) (n : ℕ) : Str :=
  (C.config i).daemonId ++ '-' :: lowerHex ((n + 1) % u64Values)

/-- What holds of published messages as long as no daemon restarts. -/
structure PublicationInvariant [DecidableEq ι] (C : Cluster ι) (s : Net ι)
    (past : List (Event ι)) : Prop where
  /-- Daemons keep their names. -/
  names : ∀ i, (s.hub i).registry.daemonId = (C.config i).daemonId
  /-- Daemons count their messages. -/
  count : ∀ i, (s.hub i).registry.seq = ((publications past i).length + 1) % u64Values
  /-- Messages are numbered. -/
  ids : ∀ i n msg, (publications past i)[n]? = some msg → msg.msgId = C.messageId i n
  /-- Frames on links carry published messages. -/
  links : ∀ a b msg, (s.link a b).Holds (.feed msg) → WasPublished past msg
  /-- So do frames about to be broadcast. -/
  tasks : ∀ a msg, s.Pending a (.feed msg) → WasPublished past msg

section Histories

variable {past es : List (Event ι)} {i : ι} {msg : Message}

/-- What was published stays published. -/
theorem WasPublished.append (h : WasPublished past msg) (es : List (Event ι)) :
    WasPublished (past ++ es) msg := by
  obtain ⟨i, key, held, queued, hmem⟩ := h
  exact ⟨i, key, held, queued, List.mem_append_left es hmem⟩

/-- A message was published in one part of the history or the other. -/
theorem wasPublished_append :
    WasPublished (past ++ es) msg ↔ WasPublished past msg ∨ WasPublished es msg := by
  constructor
  · rintro ⟨i, key, held, queued, hmem⟩
    rcases List.mem_append.mp hmem with hmem | hmem
    · exact Or.inl ⟨i, key, held, queued, hmem⟩
    · exact Or.inr ⟨i, key, held, queued, hmem⟩
  · rintro (h | ⟨i, key, held, queued, hmem⟩)
    · exact h.append es
    · exact ⟨i, key, held, queued, List.mem_append_right past hmem⟩

variable [DecidableEq ι]

/-- Publications add up. -/
theorem publications_append (past es : List (Event ι)) (i : ι) :
    publications (past ++ es) i = publications past i ++ publications es i :=
  List.filterMap_append

/-- A message was published exactly if it is among the messages of a daemon. -/
theorem wasPublished_iff : WasPublished past msg ↔ ∃ i, msg ∈ publications past i := by
  constructor
  · rintro ⟨i, key, held, queued, hmem⟩
    exact ⟨i, List.mem_filterMap.mpr ⟨_, hmem, by simp [Event.publication]⟩⟩
  · rintro ⟨i, hmem⟩
    obtain ⟨e, he, heq⟩ := List.mem_filterMap.mp hmem
    cases e with
    | published k key held msg' queued =>
      simp only [Event.publication] at heq
      split at heq
      · exact ⟨k, key, held, queued, Option.some.inj heq ▸ he⟩
      · cases heq
    | _ => cases heq

/-- Events that are not about messages publish none. -/
theorem publications_quiet (hes : ∀ e ∈ es, e.isMessage = false) : publications es i = [] := by
  refine List.filterMap_eq_nil_iff.mpr ?_
  intro e he
  cases e with
  | published => cases hes _ he
  | _ => rfl

end Histories

section Steps

variable [DecidableEq ι] {C : Cluster ι} {s s' : Net ι} {a : Action ι} {past es : List (Event ι)}
  {msg : Message}

/-- A daemon publishes nothing and keeps its counter, or publishes one message under the
next id. -/
theorem MessageStep.publications (h : MessageStep C s a s' es) (halive : ∀ i, .restarted i ∉ es)
    (i : ι) :
    publications es i = [] ∧ (s'.hub i).registry.seq = (s.hub i).registry.seq ∨
      ∃ msg, publications es i = [msg] ∧ msg.msgId = (s.hub i).registry.msgId ∧
        (s'.hub i).registry.seq = ((s.hub i).registry.seq + 1) % u64Values := by
  cases h with
  | quiet hhub hingesting hes => exact Or.inl ⟨publications_quiet hes, (hhub i).seq⟩
  | publish haction hid horigin hheld hkey hself hqueue hothers htask =>
    rename_i k key held msg
    by_cases hi : k = i
    · subst hi
      exact Or.inr ⟨msg, by simp [MacroBus.publications, Event.publication], hid, by rw [hself]⟩
    · refine Or.inl ⟨by simp [MacroBus.publications, Event.publication, hi], ?_⟩
      rw [hothers i (Ne.symm hi)]
  | ingest hnew hheld hself hchan hothers htask =>
    rename_i k peer msg
    refine Or.inl ⟨rfl, ?_⟩
    by_cases hi : i = k
    · rw [hi, hself]
    · rw [hothers i hi]
  | fanOut haction hbefore hself hqueue hothers htask =>
    rename_i k n msg exclude
    refine Or.inl ⟨rfl, ?_⟩
    by_cases hi : i = k
    · rw [hi, hself]
    · rw [hothers i hi]
  | duplicate hseen hheld hhub htask => exact Or.inl ⟨rfl, by rw [hhub]⟩
  | restart => exact absurd (List.mem_singleton_self _) (halive _)

/-- Nothing is published when all daemons have started. -/
theorem publicationInvariant_initial : PublicationInvariant C C.initial [] where
  names _ := rfl
  count _ := (by decide : 1 = (0 + 1) % u64Values)
  ids _ _ _ h := by cases h
  links a b msg h := by rcases h with h | h | h <;> cases h
  tasks a msg h := by obtain ⟨t, ht, _⟩ := h; cases ht

namespace PublicationInvariant

/-- What is about to be broadcast after a step was published. -/
theorem announced {i : ι} (hinv : PublicationInvariant C s past)
    (h : Announced s i es (.feed msg)) : WasPublished (past ++ es) msg := by
  cases h with
  | published hevent => exact ⟨_, _, _, _, List.mem_append_right past hevent⟩
  | ingested hevent hheld => exact (hinv.links _ _ _ hheld).append es

/-- The next id of a daemon. -/
theorem msgId_eq (hinv : PublicationInvariant C s past) (i : ι) :
    (s.hub i).registry.msgId = C.messageId i (publications past i).length := by
  unfold Registry.msgId Cluster.messageId
  rw [hinv.names i, hinv.count i]

/-- A step without a restart keeps the invariant. -/
theorem step (hinv : PublicationInvariant C s past) (hstepped : C.Stepped s a s' es)
    (halive : ∀ i, .restarted i ∉ es) : PublicationInvariant C s' (past ++ es) := by
  have hmessages := hstepped.messages
  refine ⟨hmessages.names hinv.names, ?_, ?_, ?_, ?_⟩
  · intro i
    rw [publications_append]
    rcases hmessages.publications halive i with ⟨hnone, hseq⟩ | ⟨msg, hone, _, hseq⟩
    · rw [hnone, List.append_nil, hseq]
      exact hinv.count i
    · rw [hone, List.length_append, List.length_singleton, hseq, hinv.count i, Nat.mod_add_mod]
  · intro i n msg hn
    rw [publications_append] at hn
    rcases hmessages.publications halive i with ⟨hnone, _⟩ | ⟨msg', hone, hid, _⟩
    · rw [hnone, List.append_nil] at hn
      exact hinv.ids i n msg hn
    · rw [hone] at hn
      by_cases hlt : n < (publications past i).length
      · rw [List.getElem?_append_left hlt] at hn
        exact hinv.ids i n msg hn
      · rw [List.getElem?_append_right (not_lt.mp hlt), List.getElem?_singleton] at hn
        split at hn
        · next hzero =>
          have hlast : n = (publications past i).length := by omega
          rw [hlast, ← Option.some.inj hn, hid]
          exact hinv.msgId_eq i
        · cases hn
  · intro x y msg hheld
    rcases hstepped.holds hheld with hheld | hpending | ⟨_, _, _, _, heq⟩
    · exact (hinv.links x y msg hheld).append es
    · exact (hinv.tasks x msg hpending).append es
    · cases heq
  · intro x msg hpending
    rcases hstepped.pending hpending with hpending | hannounced
    · exact (hinv.tasks x msg hpending).append es
    · exact hinv.announced hannounced

/-- **Until the counter has gone round, the next id of a daemon is new.** -/
theorem fresh (hinv : PublicationInvariant C s past) {i : ι}
    (hcount : (publications past i).length < u64Values) (h : WasPublished past msg) :
    msg.msgId ≠ (s.hub i).registry.msgId := by
  intro heq
  obtain ⟨j, hj⟩ := wasPublished_iff.mp h
  obtain ⟨m, hm⟩ := List.mem_iff_getElem?.mp hj
  rw [hinv.ids j m msg hm, hinv.msgId_eq i] at heq
  obtain ⟨hname, hnumber⟩ := messageId_inj heq
  obtain rfl := C.distinct hname
  have hlt : m < (publications past j).length := (List.getElem?_eq_some_iff.mp hm).1
  rw [Nat.mod_eq_of_lt (a := m + 1) (by omega)] at hnumber
  by_cases hlast : (publications past j).length + 1 < u64Values
  · rw [Nat.mod_eq_of_lt hlast] at hnumber
    omega
  · have hround : (publications past j).length + 1 = u64Values := by omega
    rw [hround, Nat.mod_self] at hnumber
    omega

/-- Until a counter has gone round, published messages are told apart by their ids. -/
theorem eq_of_msgId (hinv : PublicationInvariant C s past)
    (hcount : ∀ i, (publications past i).length < u64Values) {msg' : Message}
    (h : WasPublished past msg) (h' : WasPublished past msg') (hid : msg'.msgId = msg.msgId) :
    msg' = msg := by
  obtain ⟨i, hi⟩ := wasPublished_iff.mp h
  obtain ⟨j, hj⟩ := wasPublished_iff.mp h'
  obtain ⟨n, hn⟩ := List.mem_iff_getElem?.mp hi
  obtain ⟨m, hm⟩ := List.mem_iff_getElem?.mp hj
  rw [hinv.ids i n msg hn, hinv.ids j m msg' hm] at hid
  obtain ⟨hname, hnumber⟩ := messageId_inj hid
  obtain rfl := C.distinct hname
  have hbound := hcount j
  have hlt : n < (publications past j).length := (List.getElem?_eq_some_iff.mp hn).1
  have hlt' : m < (publications past j).length := (List.getElem?_eq_some_iff.mp hm).1
  rw [Nat.mod_eq_of_lt (by omega), Nat.mod_eq_of_lt (by omega)] at hnumber
  obtain rfl : m = n := by omega
  exact Option.some.inj (hm.symm.trans hn)

end PublicationInvariant

end Steps

end MacroBus
