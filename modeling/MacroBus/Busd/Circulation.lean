import Mathlib.Data.Fintype.BigOperators
import Mathlib.Data.Fintype.Prod
import Mathlib.Logic.Relation
import Mathlib.Tactic.FinCases
import MacroBus.Lib.Weights
import MacroBus.Busd.Totals
import MacroBus.Busd.SeenSet
import MacroBus.Busd.Flooding
import MacroBus.Busd.RregFlooding

/-!
# Message flooding dies out, or circulates

A daemon whose seen-set has room for all the ids under way accepts each of them at most once
more. So messages can go round for ever only along a cycle of daemons with smaller seen-sets,
and there they can: two messages chase each other out of seen-sets of one id.
-/

namespace MacroBus

open Transition

namespace SeenSet

variable {s : SeenSet} {ids : Finset Str} {id : Str}

/-- Recording an id leaves the capacity. -/
theorem insert_cap (s : SeenSet) (id : Str) : (s.insert id).2.cap = s.cap := by
  unfold SeenSet.insert
  split <;> rfl

/-- The ids recorded last, newest first, as far as they are among these. -/
def recent (ids : Finset Str) (s : SeenSet) : List Str :=
  s.order.reverse.takeWhile fun id => decide (id ∈ ids)

/-- How many of these ids are not among those recorded last. -/
def fresh (ids : Finset Str) (s : SeenSet) : ℕ := ids.card - (s.recent ids).length

/-- Recent ids are among these. -/
theorem mem_of_mem_recent (h : id ∈ s.recent ids) : id ∈ ids := by
  unfold recent at h
  have himp := List.mem_takeWhile_imp (p := fun x => decide (x ∈ ids)) h
  exact of_decide_eq_true himp

/-- The ids recorded last are some of these, each once. -/
theorem Wf.recent_card (h : s.Wf) (ids : Finset Str) :
    (s.recent ids).Nodup ∧ (s.recent ids).toFinset ⊆ ids := by
  constructor
  · exact (List.takeWhile_sublist _).nodup (List.nodup_reverse.mpr h.nodup)
  · intro id hid
    exact mem_of_mem_recent (List.mem_toFinset.mp hid)

/-- A new id is recorded last, behind the recent ones, where all of these have room. -/
theorem Wf.recent_insert (h : s.Wf) (hids : ids.card ≤ s.cap) (hid : id ∈ ids)
    (hnew : id ∉ s.set) :
    (s.recent ids).length + 1 ≤ ((s.insert id).2.recent ids).length ∧
      (s.recent ids).length + 1 ≤ ids.card := by
  obtain ⟨s', hinsert, hwf, hcap, horder⟩ := h.insert_of_notMem hnew
  obtain ⟨hnodup, hsub⟩ := h.recent_card ids
  have hnot : id ∉ s.recent ids := by
    intro hmem
    have hrev := (List.takeWhile_sublist _).subset hmem
    exact hnew (h.mem_set.mpr (List.mem_reverse.mp hrev))
  -- The new id and the recent ones are some of these ids, each once.
  have hcard : (s.recent ids).length + 1 ≤ ids.card := by
    have hcons : (id :: s.recent ids).Nodup := List.nodup_cons.mpr ⟨hnot, hnodup⟩
    calc (s.recent ids).length + 1 = (id :: s.recent ids).toFinset.card :=
          (List.toFinset_card_of_nodup hcons).symm
      _ ≤ ids.card := by
          refine Finset.card_le_card ?_
          rw [List.toFinset_cons]
          exact Finset.insert_subset hid hsub
  refine ⟨?_, hcard⟩
  -- Eviction leaves them alone.
  have hprefix : id :: s.recent ids <+: s'.order.reverse := by
    have hall : id :: s.recent ids <+: (s.order ++ [id]).reverse := by
      rw [List.reverse_append, List.reverse_singleton, List.singleton_append]
      exact List.prefix_cons_iff.mpr (Or.inr ⟨_, rfl, List.takeWhile_prefix _⟩)
    have hkept : s'.order.reverse <+: (s.order ++ [id]).reverse := by
      rw [horder]
      exact List.reverse_prefix.mpr (List.drop_suffix _ _)
    refine List.prefix_of_prefix_length_le hall hkept ?_
    have hle := (List.takeWhile_sublist (p := fun id => decide (id ∈ ids))
      (l := s.order.reverse)).length_le
    rw [List.length_reverse] at hle
    unfold recent at hcard ⊢
    rw [List.length_reverse, horder, List.length_drop, List.length_append,
      List.length_singleton, List.length_cons]
    omega
  obtain ⟨rest, hrest⟩ := hprefix
  rw [hinsert]
  dsimp only
  have hkeep : ∀ x ∈ id :: s.recent ids, decide (x ∈ ids) = true := by
    intro x hx
    rcases List.mem_cons.mp hx with rfl | hx
    · exact decide_eq_true hid
    · exact decide_eq_true (mem_of_mem_recent hx)
  have hlong : s'.recent ids = (id :: s.recent ids) ++ rest.takeWhile fun x => decide (x ∈ ids) := by
    rw [← List.takeWhile_append_of_pos hkeep, hrest]
    rfl
  rw [hlong, List.length_append, List.length_cons]
  omega

/-- **A seen-set with room for all ids takes each once**: every new id uses one up. -/
theorem Wf.fresh_insert (h : s.Wf) (hids : ids.card ≤ s.cap) (hid : id ∈ ids)
    (hnew : id ∉ s.set) : (s.insert id).2.fresh ids + 1 ≤ s.fresh ids := by
  obtain ⟨hrecent, hcard⟩ := h.recent_insert hids hid hnew
  unfold fresh
  omega

end SeenSet

/-- The id of the message the frame carries. -/
def OutFrame.msgId : OutFrame → Option Str
  | .feed msg => some msg.msgId
  | .rreg .. => none

/-- The frame carries a message. -/
def OutFrame.isFeed : OutFrame → Bool
  | .feed _ => true
  | .rreg .. => false

/-- The step brings a message under way, or makes a daemon forget the ids it has seen. -/
def Action.bringsFeeds {ι : Type} : Action ι → Bool
  | .publish .. | .restart _ => true
  | _ => false

namespace Net

variable {ι : Type} (s : Net ι)

/-- The step moves a message: it is fanned out, sent on, written, or read. -/
def movesFeed (a : Action ι) : Bool := (s.moved a).any OutFrame.isFeed

/-- The distinct ids of the messages under way: of those that are to be broadcast, queued, on
a wire, or left over from a lost connection. -/
def idsUnderWay [Fintype ι] [DecidableEq ι] : Finset Str :=
  Finset.univ.biUnion fun i =>
    ((s.tasks i).filterMap fun t => t.frame.msgId).toFinset ∪
    Finset.univ.biUnion fun j => (((s.link i j).queue ++ (s.link i j).wire ++
      (s.link i j).stale).filterMap OutFrame.msgId).toFinset

end Net

namespace Cluster

variable {ι : Type} (C : Cluster ι)

/-- What comes over the link `e` can be passed on over the link `e'`: to a peer of the daemon
in between, never straight back, where that daemon has no room for `n` ids. -/
def PassesOn (n : ℕ) (e e' : ι × ι) : Prop :=
  e'.1 = e.2 ∧ e'.2 ∈ C.peers e.2 ∧ e'.2 ≠ e.1 ∧ max (C.config e.2).limits.seenCapacity 1 < n

instance [DecidableEq ι] (n : ℕ) : DecidableRel (C.PassesOn n) := fun e e' =>
  inferInstanceAs (Decidable (e'.1 = e.2 ∧ e'.2 ∈ C.peers e.2 ∧ e'.2 ≠ e.1 ∧
    max (C.config e.2).limits.seenCapacity 1 < n))

variable [DecidableEq ι] [Fintype ι]

/-- What the copies weigh that a daemon sends on. -/
def spread (w : ι × ι → ℕ) (i : ι) (exclude : Option ι) : ℕ :=
  ∑ j with some j ≠ exclude, if j ∈ C.peers i then w (i, j) else 0

/-- How many moves messages with these ids can still make, given what a copy weighs that is
queued to a link. A daemon with room for all ids keeps what it may still send on. -/
def feedScale (w : ι × ι → ℕ) (ids : Finset Str) : Scale ι where
  hub i h :=
    if h.registry.seen.cap < ids.card then 0
    else (2 + C.spread w i none) * h.registry.seen.fresh ids
  task i t := if t.frame.isFeed then t.ingesting.toNat + 1 + C.spread w i t.exclude else 0
  link i j l := w (i, j) * l.queue.countP OutFrame.isFeed +
    (w (i, j) - 1) * (l.wire.countP OutFrame.isFeed + l.stale.countP OutFrame.isFeed)

end Cluster

/-- What holds of seen-sets and links in every state. -/
structure Sound {ι : Type} (C : Cluster ι) (s : Net ι) : Prop where
  /-- Seen-sets are well formed. -/
  wf : ∀ i, (s.hub i).registry.seen.Wf
  /-- They have the configured capacity. -/
  cap : ∀ i, (s.hub i).registry.seen.cap = max (C.config i).limits.seenCapacity 1
  /-- Only peers are dialed. -/
  dialed : ∀ i j, (s.link i j).isPeer → j ∈ C.peers i

section Steps

variable {ι : Type} [DecidableEq ι] {C : Cluster ι} {s s' : Net ι} {a : Action ι}
  {past es : List (Event ι)}

omit [DecidableEq ι] in
/-- All is well when the daemons have started. -/
theorem sound_initial : Sound C C.initial where
  wf _ := SeenSet.wf_new _
  cap _ := rfl
  dialed _ _ hpeer := by cases hpeer

/-- A seen-set keeps its form and its capacity. -/
theorem Cluster.Stepped.seen (h : C.Stepped s a s' es) (hsound : Sound C s) (i : ι) :
    (s'.hub i).registry.seen.Wf ∧
      (s'.hub i).registry.seen.cap = max (C.config i).limits.seenCapacity 1 := by
  have hinsert : ∀ k id, s'.hub i = s.hub i ∨ i = k ∧
      (s'.hub i).registry.seen = ((s.hub k).registry.seen.insert id).2 →
      (s'.hub i).registry.seen.Wf ∧
        (s'.hub i).registry.seen.cap = max (C.config i).limits.seenCapacity 1 := by
    rintro k id (hsame | ⟨rfl, hseen⟩)
    · rw [hsame]
      exact ⟨hsound.wf i, hsound.cap i⟩
    · rw [hseen, SeenSet.insert_cap]
      exact ⟨(hsound.wf i).insert id, hsound.cap i⟩
  cases h.messages with
  | quiet hhub hingesting hes =>
    rw [(hhub i).seen]
    exact ⟨hsound.wf i, hsound.cap i⟩
  | publish haction hid horigin hheld hkey hself hqueue hothers htask =>
    rename_i k key held msg
    refine hinsert k msg.msgId ?_
    by_cases hi : i = k
    · exact Or.inr ⟨hi, by rw [hi, hself]⟩
    · exact Or.inl (hothers i hi)
  | ingest hnew hheld hself hchan hothers htask =>
    rename_i k peer msg
    refine hinsert k msg.msgId ?_
    by_cases hi : i = k
    · exact Or.inr ⟨hi, by rw [hi, hself]⟩
    · exact Or.inl (hothers i hi)
  | fanOut haction hbefore hself hqueue hothers htask =>
    rename_i k n msg exclude
    have hsame : (s'.hub i).registry = (s.hub i).registry := by
      by_cases hi : i = k
      · rw [hi, hself]
      · rw [hothers i hi]
    rw [hsame]
    exact ⟨hsound.wf i, hsound.cap i⟩
  | duplicate hseen hheld hhub htask =>
    rw [hhub]
    exact ⟨hsound.wf i, hsound.cap i⟩
  | restart haction hself hothers htask =>
    rename_i k
    by_cases hi : i = k
    · rw [hi, hself]
      exact ⟨SeenSet.wf_new _, rfl⟩
    · rw [hothers i hi]
      exact ⟨hsound.wf i, hsound.cap i⟩

/-- A step keeps the seen-sets well formed, and links only where they are dialed. -/
theorem Sound.step (hsound : Sound C s) (h : C.Stepped s a s' es) : Sound C s' where
  wf i := (h.seen hsound i).1
  cap i := (h.seen hsound i).2
  dialed i j hnow := (h.phase i j).dialed (hsound.dialed i j) hnow

end Steps

section Measure

variable {ι : Type} [DecidableEq ι] [Fintype ι] {C : Cluster ι} {s s' t : Net ι} {a : Action ι}
  {past es : List (Event ι)} {ids : Finset Str} {id : Str} {w : ι × ι → ℕ} {i j peer : ι}
  {msg : Message} {l l' : Link} {f : OutFrame}

/-- A frame carries an id if it is a message with this id. -/
theorem OutFrame.msgId_eq_some_iff :
    f.msgId = some id ↔ ∃ msg, f = .feed msg ∧ msg.msgId = id := by
  cases f with
  | feed msg => simp [OutFrame.msgId]
  | rreg typeName reg => simp [OutFrame.msgId]

/-- The ids under way. -/
theorem Net.mem_idsUnderWay : id ∈ s.idsUnderWay ↔ ∃ msg : Message, msg.msgId = id ∧
    ((∃ i, ∃ t ∈ s.tasks i, t.frame = .feed msg) ∨ ∃ i j, (s.link i j).Holds (.feed msg)) := by
  unfold Net.idsUnderWay Link.Holds
  simp only [Finset.mem_biUnion, Finset.mem_univ, true_and, Finset.mem_union, List.mem_toFinset,
    List.mem_append, List.mem_filterMap, OutFrame.msgId_eq_some_iff, or_assoc]
  constructor
  · rintro ⟨i, ⟨t, ht, msg, hframe, hid⟩ | ⟨j, _, hf, msg, rfl, hid⟩⟩
    · exact ⟨msg, hid, Or.inl ⟨i, t, ht, hframe⟩⟩
    · exact ⟨msg, hid, Or.inr ⟨i, j, hf⟩⟩
  · rintro ⟨msg, hid, ⟨i, t, ht, hframe⟩ | ⟨i, j, hf⟩⟩
    · exact ⟨i, Or.inl ⟨t, ht, msg, hframe, hid⟩⟩
    · exact ⟨i, Or.inr ⟨j, _, hf, msg, rfl, hid⟩⟩

omit [Fintype ι] in
/-- Only a publish emits a publication. -/
theorem Cluster.Stepped.not_published (h : C.Stepped s a s' es) (hquiet : a.bringsFeeds = false) :
    ¬WasPublished es msg := by
  rintro ⟨k, key, held, queued, hevent⟩
  have haction := (h.published hevent).action
  rw [haction] at hquiet
  cases hquiet

/-- **Ids are passed on, not made up**, unless a message is published. -/
theorem Cluster.Stepped.idsUnderWay (h : C.Stepped s a s' es) (hquiet : a.bringsFeeds = false) :
    s'.idsUnderWay ⊆ s.idsUnderWay := by
  intro id hmem
  obtain ⟨msg, hid, ⟨i, t, ht, hframe⟩ | ⟨i, j, hf⟩⟩ := Net.mem_idsUnderWay.mp hmem
  · refine Net.mem_idsUnderWay.mpr ⟨msg, hid, ?_⟩
    rcases h.task ht hframe with ⟨t₀, hbefore, hframe₀, _⟩ | haccepted
    · exact Or.inl ⟨i, t₀, hbefore, hframe₀⟩
    · rcases (h.messages.accepted haccepted).2 with ⟨_, hpublished⟩ | ⟨peer, _, hheld⟩
      · exact absurd hpublished (h.not_published hquiet)
      · exact Or.inr ⟨peer, i, hheld⟩
  · refine Net.mem_idsUnderWay.mpr ⟨msg, hid, ?_⟩
    rcases h.holds hf with hbefore | ⟨t, ht, hframe⟩ | ⟨typeName, reg, rest, _, hrreg⟩
    · exact Or.inr ⟨i, j, hbefore⟩
    · exact Or.inl ⟨i, t, ht, hframe⟩
    · cases hrreg

/-- A copy pays for being written, read, fanned out and broadcast, and for all that is passed on. -/
structure Pays (C : Cluster ι) (w : ι × ι → ℕ) (n : ℕ) : Prop where
  /-- Where the daemon has no room for `n` ids, it passes the copy on. -/
  small : ∀ i j, max (C.config j).limits.seenCapacity 1 < n → w (i, j) = 4 + C.spread w j (some i)
  /-- The copy moves in any case. -/
  four_le : ∀ e, 4 ≤ w e

/-- Without cycles, copies can be given such weights. -/
theorem Cluster.exists_pays (C : Cluster ι) {n : ℕ}
    (hacyclic : ∀ e, ¬Relation.TransGen (C.PassesOn n) e e) : ∃ w, Pays C w n := by
  obtain ⟨w, hw⟩ := Weights.exists_weight hacyclic 4
  refine ⟨w, ?_, fun e => by rw [hw e]; omega⟩
  intro i j hsmall
  rw [hw (i, j), Finset.sum_filter, Fintype.sum_prod_type]
  congr 1
  have hoff : ∀ x, x ≠ j → ∑ y, (if C.PassesOn n (i, j) (x, y) then w (x, y) else 0) = 0 :=
    fun x hx => Finset.sum_eq_zero fun y _ => if_neg fun h => hx h.1
  rw [Finset.sum_eq_single j (fun x _ hx => hoff x hx) (fun h => absurd (Finset.mem_univ j) h)]
  unfold Cluster.spread
  rw [Finset.sum_filter]
  refine Finset.sum_congr rfl fun y _ => ?_
  by_cases hy : y = i
  · have hback : ¬C.PassesOn n (i, j) (j, y) := fun h => h.2.2.1 hy
    rw [if_neg hback, if_neg fun h => h (congrArg some hy)]
  · have hne : some y ≠ some i := fun h => hy (Option.some.inj h)
    rw [if_pos hne]
    by_cases hpeer : y ∈ C.peers j
    · have hpasses : C.PassesOn n (i, j) (j, y) := ⟨rfl, hpeer, hy, hsmall⟩
      rw [if_pos hpasses, if_pos hpeer]
    · have hnot : ¬C.PassesOn n (i, j) (j, y) := fun h => hpeer h.2.1
      rw [if_neg hnot, if_neg hpeer]

/-- A daemon sends on at most one copy to each peer. -/
theorem Cluster.spread_le (C : Cluster ι) (w : ι × ι → ℕ) (i : ι) (exclude : Option ι) :
    C.spread w i exclude ≤ C.spread w i none := by
  refine Finset.sum_le_sum_of_subset ?_
  intro j hj
  exact Finset.mem_filter.mpr ⟨Finset.mem_univ j, Option.some_ne_none j⟩

/-- A link as it is after a read weighs less by the copy that was read. -/
theorem Link.Read.weighs (h : Link.Read l l' f) :
    (C.feedScale w ids).link i j l' + (w (i, j) - 1) * f.isFeed.toNat =
      (C.feedScale w ids).link i j l := by
  dsimp only [Cluster.feedScale]
  rw [h.queue]
  rcases h.frames with ⟨hwire, hstale⟩ | ⟨hwire, k, hk, hstale⟩
  · have hone : (if f.isFeed = true then 1 else 0) = f.isFeed.toNat := by
      cases f.isFeed with
      | false => simp
      | true => simp
    rw [hwire, hstale, List.countP_cons, hone]
    simp only [Nat.mul_add]
    omega
  · have herase := countP_eraseIdx (p := OutFrame.isFeed) hk
    rw [hwire, hstale, ← herase]
    simp only [Nat.mul_add]
    omega

/-- An offer brings at most one copy, and only where the peer is dialed. -/
theorem Cluster.feedScale_offer (hdialed : l.isPeer → j ∈ C.peers i) :
    (C.feedScale w ids).link i j (l.offer f) ≤ (C.feedScale w ids).link i j l +
      if f.isFeed then (if j ∈ C.peers i then w (i, j) else 0) else 0 := by
  dsimp only [Cluster.feedScale]
  rw [Link.offer_queue, Link.offer_wire, Link.offer_stale]
  split
  · next hroom =>
    rw [if_pos (hdialed (Bool.and_eq_true_iff.mp hroom).1), List.countP_append,
      List.countP_singleton, Nat.mul_add]
    cases f.isFeed with
    | false => simp
    | true => simp only [if_true, Nat.mul_one]; omega
  · omega

/-- A hub with the same seen-set weighs the same. -/
theorem Cluster.feedScale_hub_congr {h h' : Hub}
    (hseen : h'.registry.seen = h.registry.seen) :
    (C.feedScale w ids).hub i h' = (C.feedScale w ids).hub i h := by
  dsimp only [Cluster.feedScale]
  rw [hseen]

/-- Another daemon state with the same seen-set, and one more registration to broadcast. -/
theorem Cluster.feedScale_rreg {h : Hub} {typeName : Str} {reg : TypeReg} {exclude : Option ι}
    (hseen : h.registry.seen = (s.hub i).registry.seen) :
    (C.feedScale w ids).total ((s.setHub i h).addTask i ⟨.rreg typeName reg, exclude, false⟩) =
      (C.feedScale w ids).total s := by
  have hhub := Scale.total_setHub (w := C.feedScale w ids) (s := s) i h
  rw [Cluster.feedScale_hub_congr hseen] at hhub
  have htask : (C.feedScale w ids).task i ⟨.rreg typeName reg, exclude, false⟩ = 0 := rfl
  rw [Scale.total_addTask, htask]
  omega

/-- **Accepting a message is paid for**: by the copy that came, where the daemon has no room
for all ids, or else by an id that was fresh. -/
theorem Cluster.feedScale_ingest {h : Hub} (hw : Pays C w ids.card)
    (hwf : (s.hub i).registry.seen.Wf)
    (hcap : (s.hub i).registry.seen.cap = max (C.config i).limits.seenCapacity 1)
    (hid : msg.msgId ∈ ids) (hnew : msg.msgId ∉ (s.hub i).registry.seen.set)
    (hseen : h.registry.seen = ((s.hub i).registry.seen.insert msg.msgId).2) :
    (C.feedScale w ids).total ((s.setHub i h).addTask i ⟨.feed msg, some peer, true⟩) + 2 ≤
      (C.feedScale w ids).total s + w (peer, i) := by
  have hhub := Scale.total_setHub (w := C.feedScale w ids) (s := s) i h
  have htask : (C.feedScale w ids).task i ⟨.feed msg, some peer, true⟩ =
      2 + C.spread w i (some peer) := rfl
  rw [Scale.total_addTask, htask]
  have hsame : h.registry.seen.cap = (s.hub i).registry.seen.cap := by
    rw [hseen, SeenSet.insert_cap]
  dsimp only [Cluster.feedScale] at hhub ⊢
  rw [hsame] at hhub
  by_cases hsmall : (s.hub i).registry.seen.cap < ids.card
  · have hcost := hw.small peer i (hcap ▸ hsmall)
    rw [if_pos hsmall, if_pos hsmall] at hhub
    omega
  · have hfresh := hwf.fresh_insert (Nat.le_of_not_lt hsmall) hid hnew
    have hmul := Nat.mul_le_mul_left (2 + C.spread w i none) hfresh
    have hspread := C.spread_le w i (some peer)
    have hfour := hw.four_le (peer, i)
    rw [Nat.mul_add, Nat.mul_one] at hmul
    rw [if_neg hsmall, if_neg hsmall, hseen] at hhub
    omega

/-- **Every move of a message uses up weight.** -/
theorem Cluster.Stepped.feedScale (h : C.Stepped s a s' es) (hquiet : a.bringsFeeds = false)
    (hw : Pays C w ids.card) (hsound : Sound C s) (hids : s.idsUnderWay ⊆ ids) :
    (C.feedScale w ids).total s' + (s.movesFeed a).toNat ≤ (C.feedScale w ids).total s := by
  -- A step that replaces one link.
  have hlink : ∀ (i j : ι) (l : Link), (C.feedScale w ids).link i j l + (s.movesFeed a).toNat ≤
      (C.feedScale w ids).link i j (s.link i j) →
      (C.feedScale w ids).total (s.setLink i j l) + (s.movesFeed a).toNat ≤
        (C.feedScale w ids).total s := by
    intro i j l hl
    have hset := Scale.total_setLink (w := C.feedScale w ids) (s := s) i j l
    omega
  cases h with
  | connection hsame hqueue haction =>
    have hno : s.movesFeed a = false := by
      cases a with
      | publish | register | subscribe | unsubscribe | disconnect | recv => rfl
      | _ => cases haction
    rename_i i h
    have hhub := Scale.total_setHub (w := C.feedScale w ids) (s := s) i h
    rw [Cluster.feedScale_hub_congr hsame.seen] at hhub
    rw [hno, Bool.toNat_false]
    omega
  | publish => cases hquiet
  | create htype hvalid hnone hreg hregistry =>
    exact (Cluster.feedScale_rreg (by rw [hregistry])).le
  | fanOut htask hregistry hqueue =>
    rename_i i k msg exclude h
    have hmoves : s.movesFeed (.fanOut i k) = true := by
      simp only [Net.movesFeed, Net.moved, htask, Option.map_some, Option.any_some]
      rfl
    have hhub := Scale.total_setHub (w := C.feedScale w ids) (s := s) i h
    have hset := Scale.total_setTask (w := C.feedScale w ids) (s := s.setHub i h)
      ⟨.feed msg, exclude, false⟩ htask
    rw [Net.setHub_tasks] at hset
    rw [Cluster.feedScale_hub_congr (by rw [hregistry])] at hhub
    have hbefore : (C.feedScale w ids).task i ⟨.feed msg, exclude, true⟩ =
        2 + C.spread w i exclude := rfl
    have hafter : (C.feedScale w ids).task i ⟨.feed msg, exclude, false⟩ =
        1 + C.spread w i exclude := by
      simp only [Cluster.feedScale, Bool.toNat_false, Nat.zero_add]
      rfl
    rw [hmoves, Bool.toNat_true]
    omega
  | broadcast htask hdone =>
    rename_i i k t
    have hmoves : s.movesFeed (.broadcast i k) = t.frame.isFeed := by
      simp only [Net.movesFeed, Net.moved, htask, Option.map_some, Option.any_some]
    have herase := Scale.total_eraseTask (w := C.feedScale w ids) htask
    have hadd := Scale.total_broadcast_le (w := C.feedScale w ids)
      (s := s.setTasks i ((s.tasks i).eraseIdx k)) C i t.frame t.exclude
      (fun j => if t.frame.isFeed then (if j ∈ C.peers i then w (i, j) else 0) else 0)
      fun j _ => Cluster.feedScale_offer (hsound.dialed i j)
    rw [hmoves]
    cases hfeed : t.frame.isFeed with
    | false =>
      simp only [hfeed, Bool.false_eq_true, if_false, Finset.sum_const_zero] at hadd
      rw [Bool.toNat_false]
      omega
    | true =>
      have htask : (C.feedScale w ids).task i t = 1 + C.spread w i t.exclude := by
        simp only [Cluster.feedScale, hfeed, hdone, if_true, Bool.toNat_false, Nat.zero_add]
      simp only [hfeed, if_true] at hadd
      unfold Cluster.spread at htask
      rw [Bool.toNat_true]
      omega
  | insert hpeer hdown =>
    refine hlink _ _ _ ?_
    simp [Cluster.feedScale, Net.movesFeed, Net.moved]
  | snapshot | start =>
    refine hlink _ _ _ ?_
    simp [Cluster.feedScale, Net.movesFeed, Net.moved]
  | push hpushing =>
    rename_i i j typeName reg rest
    refine hlink _ _ _ ?_
    have hoffer : (C.feedScale w ids).link i j ((s.link i j).offer (.rreg typeName reg)) ≤
        (C.feedScale w ids).link i j (s.link i j) :=
      Cluster.feedScale_offer (hsound.dialed i j)
    have hno : s.movesFeed (.push i j) = false := by
      simp [Net.movesFeed, Net.moved, hpushing, LinkPhase.rest, OutFrame.isFeed]
    rw [hno]
    exact hoffer
  | write hup hqueue =>
    rename_i i j frame queue
    refine hlink _ _ _ ?_
    have hmoves : s.movesFeed (.write i j) = frame.isFeed := by
      simp only [Net.movesFeed, Net.moved, hqueue, List.head?_cons, Option.any_some]
    have hfour := hw.four_le (i, j)
    rw [hmoves]
    dsimp only [Cluster.feedScale]
    rw [hqueue, List.countP_cons, List.countP_append, List.countP_singleton]
    cases frame.isFeed with
    | false => simp
    | true =>
      simp only [if_true, Nat.mul_add, Nat.mul_one, Bool.toNat_true]
      omega
  | receive haction hread hhandled =>
    rename_i i peer frame l
    have hmoves : s.movesFeed a = frame.isFeed := by
      rcases haction with ⟨rfl, hframe⟩ | ⟨k, rfl, hframe⟩
      · simp only [Net.movesFeed, Net.moved, hframe, Option.any_some]
      · simp only [Net.movesFeed, Net.moved, hframe, Option.any_some]
    have hset := Scale.total_setLink (w := C.feedScale w ids) (s := s) peer i l
    have hweighs : (C.feedScale w ids).link peer i l + (w (peer, i) - 1) * frame.isFeed.toNat =
        (C.feedScale w ids).link peer i (s.link peer i) := hread.weighs
    have hfour := hw.four_le (peer, i)
    rw [hmoves]
    have hdrop : (C.feedScale w ids).total (s.setLink peer i l) + frame.isFeed.toNat ≤
        (C.feedScale w ids).total s := by
      cases hfeed : frame.isFeed with
      | false => rw [hfeed, Bool.toNat_false] at hweighs; rw [Bool.toNat_false]; omega
      | true => rw [hfeed, Bool.toNat_true] at hweighs; rw [Bool.toNat_true]; omega
    cases hhandled with
    | refuseFeed | duplicate | refuseRreg | ignore => exact hdrop
    | ingest hnew hregistry hchan =>
      rename_i msg h
      have hid : msg.msgId ∈ ids :=
        hids (Net.mem_idsUnderWay.mpr ⟨msg, rfl, Or.inr ⟨peer, i, hread.holds_frame⟩⟩)
      have hpaid : (C.feedScale w ids).total
          (((s.setLink peer i l).setHub i h).addTask i ⟨.feed msg, some peer, true⟩) + 2 ≤
          (C.feedScale w ids).total (s.setLink peer i l) + w (peer, i) :=
        Cluster.feedScale_ingest hw (hsound.wf i) (hsound.cap i) hid hnew (by rw [hregistry])
      have hone : (OutFrame.feed msg).isFeed.toNat = 1 := rfl
      rw [hone] at hweighs ⊢
      omega
    | adopt hlt hregistry =>
      rw [Cluster.feedScale_rreg (by rw [hregistry])]
      exact hdrop
  | vanish =>
    rename_i i j k
    refine hlink _ _ _ ?_
    have hle := (List.eraseIdx_sublist (s.link i j).stale k).countP_le (p := OutFrame.isFeed)
    have hmul := Nat.mul_le_mul_left (w (i, j) - 1) hle
    simp only [Cluster.feedScale, Net.movesFeed, Net.moved, Option.any_none, Bool.toNat_false,
      Nat.mul_add]
    omega
  | lose =>
    refine hlink _ _ _ ?_
    simp only [Cluster.feedScale, Net.movesFeed, Net.moved, Option.any_none, Bool.toNat_false,
      List.countP_append, List.countP_nil, Nat.mul_add]
    omega
  | restart => cases hquiet

end Measure

section Results

variable {ι : Type} [DecidableEq ι] [Fintype ι] {C : Cluster ι}

/-- **Message flooding dies out** where it has to pass a large seen-set. From any state that a
cluster can reach, messages can be moved only a bounded number of times while none is
published and no daemon restarts, provided that every cycle of links along which messages can
be passed on, never straight back, goes through a daemon whose seen-set has room for all the
distinct ids under way. -/
theorem message_flooding_dies_out {start : Net ι} {past : List (Event ι)}
    (hrun : Run C.step anyStep C.initial start past)
    (hcycles : ∀ e, ¬Relation.TransGen (C.PassesOn start.idsUnderWay.card) e e) :
    ∃ bound, ∀ (s : ℕ → Net ι) (a : ℕ → Action ι) (n : ℕ), s 0 = start →
      Upto C.step s a n → (∀ k < n, (a k).bringsFeeds = false) →
      ((Finset.range n).filter fun k => (s k).movesFeed (a k)).card ≤ bound := by
  obtain ⟨w, hw⟩ := C.exists_pays hcycles
  have hsound : Sound C start :=
    hrun.invariant (I := fun s _ => Sound C s) sound_initial
      fun _ _ _ _ _ hs _ hstep => hs.step (Cluster.stepped C hstep)
  refine ⟨(C.feedScale w start.idsUnderWay).total start, ?_⟩
  rintro s a n rfl hsteps hquiet
  refine card_marked_le _ (fun _ b => b.bringsFeeds = false) Net.movesFeed hsteps
    (I := fun t => Sound C t ∧ t.idsUnderWay ⊆ (s 0).idsUnderWay)
    ⟨hsound, Finset.Subset.refl _⟩ hquiet ?_ ?_
  · rintro t b u es ⟨ht, hids⟩ hquiet hstep
    have hstepped := Cluster.stepped C hstep
    exact ⟨ht.step hstepped, (hstepped.idsUnderWay hquiet).trans hids⟩
  · rintro t b u es ⟨ht, hids⟩ hquiet hstep
    exact (Cluster.stepped C hstep).feedScale hquiet hw ht hids

end Results

namespace triangle

/-- The names of three daemons. -/
def name : Fin 3 → Str
  | 0 => "d0".toList
  | 1 => "d1".toList
  | 2 => "d2".toList

/-- Their configurations: each dials the others, and remembers one id. -/
def config (i : Fin 3) : Config where
  daemonId := name i
  cluster := { listen := some "0.0.0.0:7071".toList, peers :=
    [⟨name (i + 1), "peer:7071".toList⟩, ⟨name (i + 2), "peer:7071".toList⟩] }
  tls := some {}
  limits := { seenCapacity := 1 }

end triangle

/-- Three daemons that dial each other. -/
def triangle : Cluster (Fin 3) where
  config := triangle.config
  peers i := [i + 1, i + 2]
  valid := by decide
  named := by decide
  nodup := by decide
  token := by decide
  distinct := by decide
  machine := by decide

namespace triangle

/-- The link to the next daemon comes up. -/
def up (i : Fin 3) : List (Action (Fin 3)) :=
  [.insert i (i + 1), .snapshot i (i + 1), .start i (i + 1)]

/-- A type is known everywhere, and every daemon has a link to the next one. -/
def opening : List (Action (Fin 3)) :=
  [.register 0 "t".toList "k".toList 0, .broadcast 0 0] ++ up 1 ++ up 2 ++
    [.insert 0 1, .snapshot 0 1, .push 0 1, .start 0 1, .write 0 1, .read 1 0, .broadcast 1 0,
      .write 1 2, .read 2 1, .broadcast 2 0, .write 2 0, .read 0 2]

/-- A message is published. -/
def publish : Action (Fin 3) := .publish 0 "t".toList "k".toList []

/-- Two messages are published and sent to the next daemon. -/
def publishing : List (Action (Fin 3)) :=
  [publish, publish, .broadcast 0 0, .broadcast 0 0, .write 0 1, .write 0 1]

/-- A message goes on to the next daemon but one. -/
def pass (i : Fin 3) : List (Action (Fin 3)) :=
  [.read (i + 1) i, .fanOut (i + 1) 0, .broadcast (i + 1) 0, .write (i + 1) (i + 2)]

/-- Two messages go round. -/
def round : List (Action (Fin 3)) := pass 0 ++ pass 0 ++ pass 1 ++ pass 1 ++ pass 2 ++ pass 2

/-- A message of the first daemon. -/
def message (id : String) : Message := ⟨"t".toList, id.toList, "d0".toList, []⟩

/-- Two messages have gone round. -/
def circling : Net (Fin 3) where
  hub i := {
    registry := ⟨name i, if i = 0 then 3 else 1,
      AList.singleton "t".toList ⟨"k".toList, "d0".toList, 0⟩, ∅,
      ⟨1, {"d0-2".toList}, ["d0-2".toList]⟩⟩
    chan := fun _ => { depth := 1024 } }
  link i j := if j = i + 1 then
    { phase := .up, wire := if i = 0 then [.feed (message "d0-1"), .feed (message "d0-2")] else [] }
    else {}
  tasks _ := []

/-- Two messages go round once. -/
theorem exec_opening : ∃ past, exec triangle.step (fun _ _ _ => true) triangle.initial []
    (opening ++ publishing ++ round) = some (circling, past) := by
  have hparts : ∃ s past, exec triangle.step (fun _ _ _ => true) triangle.initial []
      (opening ++ publishing ++ round) = some (s, past) ∧
      s.hub = circling.hub ∧ s.link = circling.link ∧ s.tasks = circling.tasks := by
    refine ⟨_, _, rfl, ?_, ?_, ?_⟩
    · funext i
      fin_cases i <;> rfl
    · funext i j
      fin_cases i <;> fin_cases j <;> rfl
    · funext i
      fin_cases i <;> rfl
  obtain ⟨⟨hub, link, tasks⟩, past, hexec, rfl, rfl, rfl⟩ := hparts
  exact ⟨past, hexec⟩

/-- Two messages that circle go round once more, and nothing has changed. -/
theorem exec_round : ∃ past, exec triangle.step (fun s _ a => s.movesFeed a) circling [] round =
    some (circling, past) := by
  have hparts : ∃ s past, exec triangle.step (fun s _ a => s.movesFeed a) circling [] round =
      some (s, past) ∧
      s.hub = circling.hub ∧ s.link = circling.link ∧ s.tasks = circling.tasks := by
    refine ⟨_, _, rfl, ?_, ?_, ?_⟩
    · funext i
      fin_cases i <;> rfl
    · funext i j
      fin_cases i <;> fin_cases j <;> rfl
    · funext i
      fin_cases i <;> rfl
  obtain ⟨⟨hub, link, tasks⟩, past, hexec, rfl, rfl, rfl⟩ := hparts
  exact ⟨past, hexec⟩

/-- **Messages can circulate for ever**: with seen-sets of one id, two messages go round in a
cluster that does nothing but fan out, forward, write and read them. -/
theorem messages_circulate : ∃ start past, Run triangle.step anyStep triangle.initial start past ∧
    ∃ (s : ℕ → Net (Fin 3)) (a : ℕ → Action (Fin 3)), s 0 = start ∧
      ∀ k, (s k).movesFeed (a k) = true ∧
        ∃ es, triangle.step (s k) (a k) = some (s (k + 1), es) := by
  obtain ⟨past, hopening⟩ := exec_opening
  obtain ⟨past', hround⟩ := exec_round
  have hrun : Run triangle.step anyStep triangle.initial circling past :=
    (run_of_exec triangle.step (fun _ _ _ => true) triangle.initial _ hopening).weaken
      fun _ _ _ _ => trivial
  exact ⟨circling, past, hrun, exists_endless (by decide) hround⟩

/-- A single message that is published does not circulate. -/
theorem message_flooding_dies_out_single :
    ∃ start past, Run triangle.step anyStep triangle.initial start past ∧
      start.idsUnderWay = {"d0-1".toList} ∧
      ∃ bound, ∀ (s : ℕ → Net (Fin 3)) (a : ℕ → Action (Fin 3)) (n : ℕ), s 0 = start →
        Upto triangle.step s a n → (∀ k < n, (a k).bringsFeeds = false) →
        ((Finset.range n).filter fun k => (s k).movesFeed (a k)).card ≤ bound := by
  obtain ⟨start, past, hrun, hids⟩ := exists_run triangle.step (fun _ _ _ => true)
    triangle.initial (opening ++ [publish]) (P := fun s _ => s.idsUnderWay = {"d0-1".toList})
    (by decide)
  have hreached : Run triangle.step anyStep triangle.initial start past :=
    hrun.weaken fun _ _ _ _ => trivial
  refine ⟨start, past, hreached, hids, message_flooding_dies_out hreached fun e hcycle => ?_⟩
  -- One id has room everywhere.
  have hnone : ∀ e e', ¬triangle.PassesOn 1 e e' := by decide
  rw [hids, Finset.card_singleton] at hcycle
  cases hcycle with
  | single h => exact hnone _ _ h
  | tail _ h => exact hnone _ _ h

end triangle

end MacroBus
