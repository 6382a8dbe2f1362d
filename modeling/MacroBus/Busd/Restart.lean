import MacroBus.Busd.MessageSteps
import MacroBus.Busd.SeenSet

/-!
# Message ids across restarts

A restarted daemon numbers its messages from one again, while its peers still remember
the ids of its former life. A message is therefore taken for a duplicate where its id
is still remembered. This file shows that nothing else eats a message: as long as every
id is new to the cluster when it is assigned, a message is accepted where it arrives
first.
-/

namespace MacroBus

namespace Cluster

variable {ι : Type} {C : Cluster ι} {s s' : Net ι} {a : Action ι}
  {past es later : List (Event ι)} {i j peer : ι} {msg : Message}

open Transition

/-- The id the daemon assigns next is remembered by no other daemon and carried by no
frame. -/
structure FreshId (s : Net ι) (i : ι) : Prop where
  /-- No other daemon remembers it. -/
  unseen : ∀ j, j ≠ i → (s.hub i).registry.msgId ∉ (s.hub j).registry.seen.set
  /-- No frame on a link carries it. -/
  links : ∀ a b msg, (s.link a b).Holds (.feed msg) → msg.msgId ≠ (s.hub i).registry.msgId
  /-- No call is about to broadcast it. -/
  tasks : ∀ a msg, s.Pending a (.feed msg) → msg.msgId ≠ (s.hub i).registry.msgId

/-- Every id is fresh when it is assigned. -/
def assignsFreshIds (s : Net ι) (_ : List (Event ι)) : Action ι → Prop
  | .publish i _ _ _ => FreshId s i
  | _ => True

instance [Fintype ι] [DecidableEq ι] (s : Net ι) (i : ι) : Decidable (FreshId s i) :=
  decidable_of_iff
    ((∀ j, j ≠ i → (s.hub i).registry.msgId ∉ (s.hub j).registry.seen.set) ∧
      (∀ a b, ∀ f ∈ (s.link a b).queue ++ (s.link a b).wire ++ (s.link a b).stale,
        f.carries (s.hub i).registry.msgId = false) ∧
      ∀ a, ∀ t ∈ s.tasks a, t.frame.carries (s.hub i).registry.msgId = false) <| by
    constructor
    · rintro ⟨hunseen, hlinks, htasks⟩
      refine ⟨hunseen, ?_, ?_⟩
      · intro a b msg hheld
        have hmem : OutFrame.feed msg ∈ (s.link a b).queue ++ (s.link a b).wire ++
            (s.link a b).stale := by
          simpa [Link.Holds, or_assoc] using hheld
        simpa [OutFrame.carries] using hlinks a b _ hmem
      · rintro a msg ⟨t, ht, hframe⟩
        simpa [OutFrame.carries, hframe] using htasks a t ht
    · rintro ⟨hunseen, hlinks, htasks⟩
      refine ⟨hunseen, ?_, ?_⟩
      · intro a b f hmem
        cases f with
        | feed msg =>
          have hheld : (s.link a b).Holds (.feed msg) := by
            simpa [Link.Holds, or_assoc] using hmem
          simpa [OutFrame.carries] using hlinks a b msg hheld
        | rreg typeName reg => rfl
      · intro a t ht
        cases hframe : t.frame with
        | feed msg => simpa [OutFrame.carries] using htasks a msg ⟨t, ht, hframe⟩
        | rreg typeName reg => rfl

instance [Fintype ι] [DecidableEq ι] (s : Net ι) (past : List (Event ι)) (a : Action ι) :
    Decidable (assignsFreshIds s past a) := by
  cases a <;> unfold assignsFreshIds <;> infer_instance

/-- The event publishes a message with this id. -/
def Publishes (id : Str) : Event ι → Prop
  | .published _ _ _ msg _ => msg.msgId = id
  | _ => False

/-- Among what happened later, the message did not arrive at the daemon, or not since the
daemon last restarted. -/
def NotArrived (later : List (Event ι)) (j : ι) (msg : Message) : Prop :=
  ∀ peer new after, Then later (.ingested j peer msg new) after → .restarted j ∈ after

/-- Of all messages with its id, this one was published last, by daemon `i`. -/
def Latest (past : List (Event ι)) (i : ι) (msg : Message) (later : List (Event ι)) : Prop :=
  (∃ key held queued, Then past (.published i key held msg queued) later) ∧
    ∀ e ∈ later, ¬Publishes msg.msgId e

/-- There is one message published last with an id. -/
theorem Latest.unique {i₁ i₂ : ι} {msg₁ msg₂ : Message} {later₁ later₂ : List (Event ι)}
    (h₁ : Latest past i₁ msg₁ later₁) (h₂ : Latest past i₂ msg₂ later₂)
    (hid : msg₁.msgId = msg₂.msgId) : msg₁ = msg₂ := by
  obtain ⟨⟨key₁, held₁, queued₁, hthen₁⟩, hno₁⟩ := h₁
  obtain ⟨⟨key₂, held₂, queued₂, hthen₂⟩, hno₂⟩ := h₂
  rcases hthen₁.trichotomy hthen₂ with h | h | ⟨h, _⟩
  · exact absurd hid.symm (hno₁ _ h.mem)
  · exact absurd hid (hno₂ _ h.mem)
  · cases h
    rfl

/-- Events that are not about messages leave the last message the last. -/
theorem Latest.append {i : ι} (h : Latest past i msg later)
    (hes : ∀ e ∈ es, ¬Publishes msg.msgId e) : Latest (past ++ es) i msg (later ++ es) := by
  obtain ⟨⟨key, held, queued, hthen⟩, hno⟩ := h
  refine ⟨⟨key, held, queued, then_append_iff.mpr (Or.inl ⟨later, hthen, rfl⟩)⟩, ?_⟩
  intro e he
  rcases List.mem_append.mp he with he | he
  · exact hno e he
  · exact hes e he

/-- The last message of an id before a step that does not publish. -/
theorem Latest.of_append {later' : List (Event ι)} (h : Latest (past ++ es) i msg later')
    (hes : ∀ key held queued, .published i key held msg queued ∉ es) :
    ∃ later, later' = later ++ es ∧ Latest past i msg later := by
  obtain ⟨⟨key, held, queued, hthen⟩, hno⟩ := h
  rcases then_append_iff.mp hthen with ⟨later, hbefore, rfl⟩ | hlast
  · exact ⟨later, rfl, ⟨key, held, queued, hbefore⟩, fun e he => hno e (List.mem_append_left _ he)⟩
  · exact absurd hlast.mem (hes _ _ _)

/-- What did not arrive so far did not arrive before, unless by a restart in between. -/
theorem NotArrived.of_append (h : NotArrived (later ++ es) j msg) (hes : .restarted j ∉ es) :
    NotArrived later j msg := by
  intro peer new after hthen
  have hrestart := h peer new (after ++ es) (then_append_iff.mpr (Or.inl ⟨after, hthen, rfl⟩))
  exact (List.mem_append.mp hrestart).resolve_right hes

/-- What keeps new messages from being eaten. -/
structure FreshnessInvariant (C : Cluster ι) (s : Net ι) (past : List (Event ι)) : Prop where
  /-- Daemons keep their names. -/
  names : ∀ i, (s.hub i).registry.daemonId = (C.config i).daemonId
  /-- Messages name the daemon that published them. -/
  origins : ∀ i key held msg queued, .published i key held msg queued ∈ past →
    msg.origin = (C.config i).daemonId
  /-- Frames on links carry the last message of their id. -/
  links : ∀ a b msg, (s.link a b).Holds (.feed msg) → ∃ i later, Latest past i msg later
  /-- So do frames about to be broadcast. -/
  tasks : ∀ a msg, s.Pending a (.feed msg) → ∃ i later, Latest past i msg later
  /-- No other daemon remembers the last message of an id before it arrives. -/
  unseen : ∀ i msg later, Latest past i msg later → ∀ j, j ≠ i → NotArrived later j msg →
    msg.msgId ∉ (s.hub j).registry.seen.set

/-- The invariant holds when all daemons have started. -/
theorem freshnessInvariant_initial : FreshnessInvariant C C.initial [] where
  names _ := rfl
  origins := by simp
  links a b msg h := by rcases h with h | h | h <;> cases h
  tasks a msg h := by obtain ⟨t, ht, _⟩ := h; cases ht
  unseen i msg later h := by
    obtain ⟨⟨key, held, queued, hthen⟩, _⟩ := h
    exact absurd hthen (not_then_nil _ _)

variable [DecidableEq ι]

/-- A message that stays the last of its id when a step publishes under another. -/
theorem Latest.step (hlatest : Latest past i msg later) (hmessages : MessageStep C s a s' es)
    (hne : ∀ k t key b, a = .publish k t key b → msg.msgId ≠ (s.hub k).registry.msgId) :
    Latest (past ++ es) i msg (later ++ es) := by
  apply hlatest.append
  intro e he
  cases hmessages with
  | quiet hhub hingesting hes =>
    intro hpub
    have hmessage := hes e he
    cases e with
    | published => cases hmessage
    | _ => exact hpub
  | publish haction hid =>
    rw [List.mem_singleton.mp he]
    intro heq
    exact hne _ _ _ _ haction (heq.symm.trans hid)
  | ingest => rw [List.mem_singleton.mp he]; exact id
  | fanOut => rw [List.mem_singleton.mp he]; exact id
  | duplicate => rw [List.mem_singleton.mp he]; exact id
  | restart => rw [List.mem_singleton.mp he]; exact id

/-- What is about to be broadcast after a step is the last message of its id. -/
theorem FreshnessInvariant.announced (hinv : FreshnessInvariant C s past)
    (hok : assignsFreshIds s past a) (hmessages : MessageStep C s a s' es)
    (h : Announced s i es (.feed msg)) : ∃ k later, Latest (past ++ es) k msg later := by
  cases h with
  | published hevent =>
    cases hmessages with
    | quiet hhub hingesting hes => cases hes _ hevent
    | publish =>
      obtain ⟨rfl, rfl, rfl, rfl, rfl⟩ := Event.published.inj (List.mem_singleton.mp hevent)
      refine ⟨i, [], ⟨_, _, _, then_append_iff.mpr (Or.inr (then_singleton_iff.mpr ⟨rfl, rfl⟩))⟩, ?_⟩
      simp
    | ingest => simp at hevent
    | fanOut => simp at hevent
    | duplicate => simp at hevent
    | restart => simp at hevent
  | ingested hevent hheld =>
    obtain ⟨k, later, hlatest⟩ := hinv.links _ _ _ hheld
    refine ⟨k, _, hlatest.step hmessages ?_⟩
    rintro k t key b rfl
    exact FreshId.links hok _ _ _ hheld

/-- A step that assigns a fresh id lets no daemon remember what has not arrived there. -/
theorem FreshnessInvariant.unseen_step (hinv : FreshnessInvariant C s past)
    (hok : assignsFreshIds s past a) (hmessages : MessageStep C s a s' es)
    {later' : List (Event ι)} (hlatest : Latest (past ++ es) i msg later') (hj : j ≠ i)
    (hfirst : NotArrived later' j msg) : msg.msgId ∉ (s'.hub j).registry.seen.set := by
  cases hmessages with
  | quiet hhub hingesting hes =>
    obtain ⟨later, rfl, hbefore⟩ := hlatest.of_append fun key held queued hmem =>
      absurd (hes _ hmem) (by simp [Event.isMessage])
    have hrestart : Event.restarted j ∉ es := fun hmem =>
      absurd (hes _ hmem) (by simp [Event.isMessage])
    rw [(hhub j).seen]
    exact hinv.unseen i msg later hbefore j hj (hfirst.of_append hrestart)
  | publish haction hid horigin hheld hkey hself hqueue hothers htask =>
    rename_i k key held msg'
    obtain ⟨⟨key', held', queued', hthen⟩, hno⟩ := hlatest
    rcases then_append_iff.mp hthen with ⟨later, hbefore, rfl⟩ | hlast
    · have hother : msg'.msgId ≠ msg.msgId := hno _ (List.mem_append_right _ (List.mem_singleton_self _))
      have hunseen := hinv.unseen i msg later
        ⟨⟨_, _, _, hbefore⟩, fun e he => hno e (List.mem_append_left _ he)⟩ j hj
        (hfirst.of_append (by simp))
      by_cases hjk : j = k
      · subst hjk
        rw [hself]
        intro hmem
        rcases SeenSet.mem_of_mem_insert hmem with heq | hmem
        · exact hother heq.symm
        · exact hunseen hmem
      · rw [hothers j hjk]
        exact hunseen
    · obtain ⟨heq, _⟩ := then_singleton_iff.mp hlast
      obtain ⟨rfl, rfl, rfl, rfl, rfl⟩ := Event.published.inj heq
      rw [hothers j hj, hid]
      subst haction
      exact FreshId.unseen hok j hj
  | ingest hnew hheld hself hchan hothers htask =>
    rename_i k peer' msg'
    obtain ⟨later, rfl, hbefore⟩ := hlatest.of_append fun key held queued hmem => by simp at hmem
    have hunseen := hinv.unseen i msg later hbefore j hj (hfirst.of_append (by simp))
    by_cases hjk : j = k
    · subst hjk
      rw [hself]
      intro hmem
      rcases SeenSet.mem_of_mem_insert hmem with heq | hmem
      · -- The message that arrived has the same id, so it is the same message.
        obtain ⟨k', later', hlatest'⟩ := hinv.links _ _ _ hheld
        obtain rfl := hbefore.unique hlatest' heq
        have hrestart := hfirst _ _ [] ⟨later, rfl⟩
        cases hrestart
      · exact hunseen hmem
    · rw [hothers j hjk]
      exact hunseen
  | fanOut haction hbefore hself hqueue hothers htask =>
    rename_i k n msg' exclude
    obtain ⟨later, rfl, hbefore⟩ := hlatest.of_append fun key held queued hmem => by simp at hmem
    have hunseen := hinv.unseen i msg later hbefore j hj (hfirst.of_append (by simp))
    by_cases hjk : j = k
    · subst hjk
      rw [hself]
      exact hunseen
    · rw [hothers j hjk]
      exact hunseen
  | duplicate hseen hheld hhub htask =>
    obtain ⟨later, rfl, hbefore⟩ := hlatest.of_append fun key held queued hmem => by simp at hmem
    rw [hhub]
    exact hinv.unseen i msg later hbefore j hj (hfirst.of_append (by simp))
  | restart haction hself hothers htask =>
    rename_i k
    obtain ⟨later, rfl, hbefore⟩ := hlatest.of_append fun key held queued hmem => by simp at hmem
    by_cases hjk : j = k
    · rw [hjk, hself]
      exact Finset.notMem_empty _
    · rw [hothers j hjk]
      exact hinv.unseen i msg later hbefore j hj (hfirst.of_append (by simpa using hjk))

/-- A step that assigns a fresh id keeps the invariant. -/
theorem FreshnessInvariant.step (hinv : FreshnessInvariant C s past)
    (hok : assignsFreshIds s past a) (hstep : C.step s a = some (s', es)) :
    FreshnessInvariant C s' (past ++ es) := by
  have hstepped := stepped C hstep
  have hmessages := hstepped.messages
  have htasks : ∀ x msg, s.Pending x (.feed msg) →
      ∃ i later, Latest (past ++ es) i msg later := by
    intro x msg hpending
    obtain ⟨i, later, hlatest⟩ := hinv.tasks x msg hpending
    refine ⟨i, _, hlatest.step hmessages ?_⟩
    rintro k t key b rfl
    exact FreshId.tasks hok _ _ hpending
  constructor
  · exact hmessages.names hinv.names
  · intro i key held msg queued hmem
    rcases List.mem_append.mp hmem with hmem | hmem
    · exact hinv.origins i key held msg queued hmem
    · cases hmessages with
      | quiet hhub hingesting hes => cases hes _ hmem
      | publish haction hid horigin =>
        obtain ⟨rfl, rfl, rfl, rfl, rfl⟩ := Event.published.inj (List.mem_singleton.mp hmem)
        rw [horigin]
        exact hinv.names _
      | ingest => simp at hmem
      | fanOut => simp at hmem
      | duplicate => simp at hmem
      | restart => simp at hmem
  · intro x y msg hheld
    rcases hstepped.holds hheld with hheld | hpending | ⟨_, _, _, _, heq⟩
    · obtain ⟨i, later, hlatest⟩ := hinv.links x y msg hheld
      refine ⟨i, _, hlatest.step hmessages ?_⟩
      rintro k t key b rfl
      exact FreshId.links hok _ _ _ hheld
    · exact htasks x msg hpending
    · cases heq
  · intro x msg hpending
    rcases hstepped.pending hpending with hpending | hannounced
    · exact htasks x msg hpending
    · exact hinv.announced hok hmessages hannounced
  · intro i msg later hlatest j hj hfirst
    exact hinv.unseen_step hok hmessages hlatest hj hfirst

/-- A message is on its way to the subscribers at a daemon: in every run that goes on from here
without a restart of the daemon, it can be fanned out in the state reached, or has been in one step
of the run. -/
def ToBeFannedOut (C : Cluster ι) (s : Net ι) (i : ι) (msg : Message) : Prop :=
  ∀ s' later, Run C.step anyStep s s' later → .restarted i ∉ later →
    (∃ k s'', FansOut C s' (.fanOut i k) s'' i msg) ∨
      ∃ t before a t' after, Run C.step anyStep s t before ∧ FansOut C t a t' i msg ∧
        later = before ++ .fannedOut i msg ((t.hub i).recipients msg) :: after

/-- **A message is new where it arrives first.** In every run in which every id is fresh when
it is assigned, restarts or not, a message that was published and then arrives at another
daemon for the first time since is accepted there and fanned out to the subscribers. -/
theorem first_arrival_is_new (hrun : Run C.step assignsFreshIds C.initial s past)
    {key : Str} {held : TypeReg} {queued : Finset ℕ} {new : Bool}
    (hpublished : Then past (.published i key held msg queued) later) (hpeer : j ≠ i)
    (hfirst : NotArrived later j msg) (hstep : C.step s a = some (s', es))
    (harrives : .ingested j peer msg new ∈ es) : new = true ∧ ToBeFannedOut C s' j msg := by
  have hinv : FreshnessInvariant C s past := by
    refine Run.invariant (I := FreshnessInvariant C) freshnessInvariant_initial ?_ hrun
    intro s past a s' es hinv hok hstep
    exact hinv.step hok hstep
  cases (stepped C hstep).messages with
  | quiet hhub hingesting hes => cases hes _ harrives
  | publish => simp at harrives
  | fanOut => simp at harrives
  | restart => simp at harrives
  | ingest hnew hheld hself hchan hothers htask =>
    obtain ⟨rfl, rfl, rfl, rfl⟩ := Event.ingested.inj (List.mem_singleton.mp harrives)
    have hmem : msg ∈ s'.ingesting j := by
      rw [Net.ingesting_update htask, if_pos rfl]
      exact List.mem_filterMap.mpr ⟨_, List.mem_append_right _ (List.mem_singleton_self _), rfl⟩
    refine ⟨rfl, fun t later hgoes halive => ?_⟩
    rcases fannedOut_of_ingesting hgoes hmem halive with hstill | hdone
    · exact Or.inl (exists_fansOut hstill)
    · exact Or.inr hdone
  | duplicate hseen hheld hhub htask =>
    obtain ⟨rfl, rfl, rfl, rfl⟩ := Event.ingested.inj (List.mem_singleton.mp harrives)
    -- The frame carries the message that was last published, and by the same daemon.
    obtain ⟨k, later', hlatest⟩ := hinv.links _ _ _ hheld
    obtain ⟨⟨key', held', queued', hthen⟩, hno⟩ := hlatest
    have hki : k = i := C.distinct ((hinv.origins _ _ _ _ _ hthen.mem).symm.trans
      (hinv.origins _ _ _ _ _ hpublished.mem))
    subst hki
    have hfirst' : NotArrived later' j msg := by
      rcases hpublished.trichotomy hthen with h | h | ⟨_, rfl⟩
      · intro p n after hafter
        exact hfirst p n after (h.trans hafter)
      · exact absurd rfl (hno _ h.mem)
      · exact hfirst
    exact absurd hseen (hinv.unseen k msg later' ⟨⟨_, _, _, hthen⟩, hno⟩ j hpeer hfirst')

/-- The message it publishes in its second life. -/
def secondMessage : Message := ⟨"t".toList, "d1-1".toList, "d1".toList, ["b".toList]⟩

/-- A daemon of a pair publishes where no peer hears it, and again after a restart. -/
def silentTrace : List (Action Bool) :=
  [.register false "t".toList "k".toList 1, .broadcast false 0,
    .publish false "t".toList "k".toList ["a".toList], .broadcast false 0,
    .restart false,
    .insert false true, .snapshot false true, .start false true, .subscribe true 0 "t".toList,
    .register false "t".toList "k".toList 2,
    .publish false "t".toList "k".toList ["b".toList], .broadcast false 1, .write false true]

/-- A message that is new to the cluster, under an id that was assigned before. -/
theorem first_arrival_is_new_silent :
    ∃ (s s' s'' : Net Bool) (past later : List (Event Bool)) (k : ℕ),
      Run pair.step assignsFreshIds pair.initial s past ∧
      Then past (.published false "k".toList ⟨"k".toList, "d1".toList, 2⟩ secondMessage ∅) later ∧
      NotArrived later true secondMessage ∧
      pair.step s (.read true false) =
        some (s', [.ingested true false secondMessage true]) ∧
      pair.step s' (.fanOut true k) = some (s'', [.fannedOut true secondMessage {0}]) ∧
      ((s''.hub true).chan 0).queue =
        ((s'.hub true).chan 0).queue ++ [.deliver secondMessage] := by
  obtain ⟨s, past, hrun, hpast, hstep⟩ :=
    exists_run pair.step (fun s past a => assignsFreshIds s past a) pair.initial silentTrace
      (P := fun s past =>
        past.drop 4 =
          [.published false "k".toList ⟨"k".toList, "d1".toList, 2⟩ secondMessage ∅,
            .sent false true (.feed secondMessage)] ∧
        (pair.step s (.read true false)).map (fun r => (r.2, (r.1.hub true).recipients secondMessage)) =
          some ([.ingested true false secondMessage true], {0})) (by decide)
  obtain ⟨⟨s', es⟩, hs, heq⟩ := Option.map_eq_some_iff.mp hstep
  obtain ⟨rfl, hrecipients⟩ := Prod.mk.inj heq
  have hrun' : Run pair.step assignsFreshIds pair.initial s past :=
    hrun.weaken fun _ _ _ hok => of_decide_eq_true hok
  have hthen : Then past
      (.published false "k".toList ⟨"k".toList, "d1".toList, 2⟩ secondMessage ∅)
      [.sent false true (.feed secondMessage)] :=
    ⟨past.take 4, by rw [← hpast, List.take_append_drop]⟩
  have hfirst : NotArrived [.sent false true (.feed secondMessage)] true secondMessage := by
    intro peer new after hthen
    have hmem := hthen.mem
    simp at hmem
  obtain ⟨_, hfans⟩ := first_arrival_is_new hrun' hthen (by decide) hfirst hs
    (List.mem_singleton_self _)
  rcases hfans s' [] .init (by simp) with ⟨k, s'', hstep', hqueue⟩ | ⟨_, _, _, _, _, _, _, hnil⟩
  · rw [hrecipients] at hstep' hqueue
    refine ⟨s, s', s'', past, _, k, hrun', hthen, hfirst, hs, hstep', ?_⟩
    rw [hqueue 0, if_pos (Finset.mem_singleton_self 0)]
  · simp at hnil

/-- A daemon of a pair publishes, dies, comes back, and publishes something else. -/
def restartTrace : List (Action Bool) :=
  [.register false "t".toList "k".toList 1, .broadcast false 0,
    .insert false true, .snapshot false true, .push false true, .start false true,
    .subscribe true 0 "t".toList,
    .publish false "t".toList "k".toList ["a".toList], .broadcast false 0,
    .write false true, .write false true, .read true false, .broadcast true 0,
    .read true false, .fanOut true 0, .broadcast true 0,
    .restart false,
    .insert false true, .snapshot false true, .start false true,
    .register false "t".toList "k".toList 2,
    .publish false "t".toList "k".toList ["b".toList], .broadcast false 1, .write false true]

/-- The message of the second life is a duplicate where it arrives for the first time, and
the subscriber there does not get it. -/
theorem restart_eats_message :
    ∃ (s s' : Net Bool) (past later : List (Event Bool)),
      Run pair.step anyStep pair.initial s past ∧
      Then past (.published false "k".toList ⟨"k".toList, "d1".toList, 2⟩ secondMessage ∅) later ∧
      NotArrived later true secondMessage ∧
      pair.step s (.read true false) =
        some (s', [.ingested true false secondMessage false]) ∧
      (s.hub true).recipients secondMessage = {0} := by
  obtain ⟨s, past, hrun, hpast, hstep, hrecipients⟩ :=
    exists_run pair.step (fun _ _ _ => true) pair.initial restartTrace
      (P := fun s past =>
        past.drop 9 =
          [.published false "k".toList ⟨"k".toList, "d1".toList, 2⟩ secondMessage ∅,
            .sent false true (.feed secondMessage)] ∧
        (pair.step s (.read true false)).map Prod.snd =
          some [.ingested true false secondMessage false] ∧
        (s.hub true).recipients secondMessage = {0}) (by decide)
  obtain ⟨⟨s', es⟩, hs, rfl⟩ := Option.map_eq_some_iff.mp hstep
  refine ⟨s, s', past, [.sent false true (.feed secondMessage)], hrun.weaken fun _ _ _ _ => trivial,
    ⟨past.take 9, ?_⟩, ?_, hs, hrecipients⟩
  · rw [← hpast, List.take_append_drop]
  · intro peer new after hthen
    have hmem := hthen.mem
    simp at hmem

end Cluster

end MacroBus
