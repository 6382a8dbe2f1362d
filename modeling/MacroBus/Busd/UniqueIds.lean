import MacroBus.Lib.Interleaving
import MacroBus.Busd.FanOut

/-!
# Message ids in a fleet of daemons

Daemons that run side by side number their messages by themselves. Where their names are
distinct, whatever these look like, no two messages get one id until a counter has gone
round.
-/

namespace MacroBus

namespace Daemon

variable {ι : Type}

/-- The daemons with these configurations, as they start. -/
def fleet (config : ι → Config) (i : ι) : Daemon := start (config i).daemonId (config i).limits

/-- One of the daemons takes a step. -/
def fleetStep [DecidableEq ι] (config : ι → Config) (fwd : ι → Bool) :
    (ι → Daemon) → ι × Action → Option ((ι → Daemon) × List (ι × Event)) :=
  Transition.interleaved fun i => step (config i).limits (fwd i)

/-- All messages published, each with its daemon, oldest first. -/
def allPublished (past : List (ι × Event)) : List (ι × Message) :=
  past.filterMap fun e => e.2.publication.map (Prod.mk e.1)

section Ids

variable {daemonId : Str} {d : Daemon} {past : List Event}

/-- The messages of one daemon get distinct ids. -/
theorem QueueInvariant.nodup (hinv : QueueInvariant daemonId d past)
    (hbound : (published past).length < u64Values) :
    ((published past).map Message.msgId).Nodup := by
  refine List.pairwise_map.mpr ((hinv.increasing_published hbound).imp ?_)
  rintro msg msg' ⟨m, m', hid, hid', hlt⟩ heq
  rw [hid, hid'] at heq
  have hsame := (messageId_inj heq).2
  omega

end Ids

section Fleets

variable [DecidableEq ι] {config : ι → Config} {fwd : ι → Bool} {s : ι → Daemon}
  {past : List (ι × Event)}

/-- The queues and numbers of each daemon of a fleet. -/
theorem queueInvariant_fleet
    (hrun : Transition.Run (fleetStep config fwd) Transition.anyStep (fleet config) s past) (i : ι) :
    QueueInvariant (config i).daemonId (s i) (Transition.component i past) :=
  queueInvariant_of_run (hrun.component i)

/-- A message of the fleet carries the name of its daemon. -/
theorem exists_messageId
    (hrun : Transition.Run (fleetStep config fwd) Transition.anyStep (fleet config) s past)
    (hbound : ∀ i, (published (Transition.component i past)).length < u64Values) {p : ι × Message}
    (hp : p ∈ allPublished past) : ∃ n, p.2.msgId = messageId (config p.1).daemonId n := by
  have hown : p.2 ∈ Transition.component p.1 (allPublished past) :=
    List.mem_filterMap.mpr ⟨p, hp, if_pos rfl⟩
  unfold allPublished at hown
  rw [Transition.filterMap_component] at hown
  obtain ⟨n, hn⟩ := List.mem_iff_getElem?.mp hown
  exact ⟨n + 1, (queueInvariant_fleet hrun p.1).numbered (hbound p.1) hn⟩

/-- **Message ids do not collide.** However the steps of the daemons interleave, while none has
published `2 ^ 64` messages, all messages have distinct ids; the messages of a daemon are
numbered from one; and an id determines the name of its daemon and its number. -/
theorem message_ids_collision_free
    (hdistinct : Function.Injective fun i => (config i).daemonId)
    (hrun : Transition.Run (fleetStep config fwd) Transition.anyStep (fleet config) s past)
    (hbound : ∀ i, (published (Transition.component i past)).length < u64Values) :
    ((allPublished past).map fun p => p.2.msgId).Nodup ∧
      (∀ i n msg, (published (Transition.component i past))[n]? = some msg →
        msg.msgId = messageId (config i).daemonId (n + 1)) ∧
      ∀ name name' n n', messageId name n = messageId name' n' → name = name' ∧ n = n' := by
  refine ⟨Transition.nodup_of_components (fun i => ?_) ?_,
    fun i n msg hn => (queueInvariant_fleet hrun i).numbered (hbound i) hn,
    fun name name' n n' h => messageId_inj h⟩
  · unfold allPublished
    rw [Transition.filterMap_component]
    exact (queueInvariant_fleet hrun i).nodup (hbound i)
  · intro p hp q hq heq
    obtain ⟨n, hn⟩ := exists_messageId hrun hbound hp
    obtain ⟨n', hn'⟩ := exists_messageId hrun hbound hq
    rw [hn, hn'] at heq
    exact hdistinct (messageId_inj heq).1

end Fleets

/-- Two daemons, one named like a message of the other. -/
def lookalikes (i : Bool) : Config := { daemonId := if i then "d-1".toList else "d".toList }

/-- A client registers a type and publishes two messages at a daemon. -/
def publishTwice : List Action :=
  arrival 1 ++ arrives 1 (Str.asBytes "REGISTER t k\r\n".toList) 4 ++
    arrives 1 (Str.asBytes "PUBLISH t k\r\nhi\r\n.\r\n".toList) 6 ++
    arrives 1 (Str.asBytes "PUBLISH t k\r\nho\r\n.\r\n".toList) 6

/-- Both daemons publish two messages, in turns, and the ids are distinct. -/
theorem message_ids_collision_free_lookalikes : ∃ s past,
    Transition.Run (fleetStep lookalikes fun _ => true) Transition.anyStep (fleet lookalikes) s past ∧
      ((allPublished past).map fun p => p.2.msgId) =
        ["d-1-1".toList, "d-1".toList, "d-1-2".toList, "d-2".toList] ∧
      ((allPublished past).map fun p => p.2.msgId).Nodup := by
  obtain ⟨s, past, hrun, hids, hbound⟩ :=
    Transition.exists_run (fleetStep lookalikes fun _ => true) (fun _ _ _ => true)
      (fleet lookalikes) (publishTwice.flatMap fun a => [(true, a), (false, a)])
      (P := fun _ past => ((allPublished past).map fun p => p.2.msgId) =
          ["d-1-1".toList, "d-1".toList, "d-1-2".toList, "d-2".toList] ∧
        ∀ i, (published (Transition.component i past)).length < u64Values) (by decide)
  have hrun' : Transition.Run (fleetStep lookalikes fun _ => true) Transition.anyStep
      (fleet lookalikes) s past := hrun.weaken fun _ _ _ _ => trivial
  have hdistinct : Function.Injective fun i => (lookalikes i).daemonId := by decide
  exact ⟨s, past, hrun', hids, (message_ids_collision_free hdistinct hrun' hbound).1⟩

end Daemon

end MacroBus
