import MacroBus.Busd.EndToEnd
import MacroBus.Busd.Accounting
import MacroBus.Cli.Cli

/-!
# From publisher to subscriber

A client reads what its daemon writes to its connection, or as much of it as reaches it. Whatever
it calls, the messages it hears are those that its connection has taken from its queue, in order,
and a client of some daemon has published each of them. So it is with what the tool prints.
-/

namespace MacroBus

open Transition

namespace Cli

section Printing

variable {c c' : Client} {types : List Str}

/-- What is printed of these messages. -/
def transcript (msgs : List Message) : Str :=
  msgs.flatMap fun m => headline m ++ '\n' :: Lines.join '\n' m.body

/-- What is printed adds up. -/
theorem stdout_append (printed more : List Printed) :
    stdout (printed ++ more) = stdout printed ++ stdout more := by
  unfold stdout
  rw [List.filterMap_append, Lines.join_append]

/-- Of events, the messages are printed. -/
theorem stdout_events (events : List Client.Event) :
    stdout (events.flatMap printEvent) =
      transcript (events.filterMap Client.Event.message?) := by
  induction events with
  | nil => rfl
  | cons ev events ih =>
    rw [List.flatMap_cons, stdout_append, ih, List.filterMap_cons]
    cases ev with
    | message m => simp [stdout, printEvent, transcript, Client.Event.message?]
    | drop typeName count => rfl
    | note text => rfl

/-- **The loop of a subscriber** prints the first of the events that it would hear. -/
theorem runSubscribe_heard (n : ℕ) (c : Client) :
    ∃ events, events <+: c.heard (List.replicate n .nextEvent) ∧
      stdout (runSubscribe n c).1 = stdout (events.flatMap printEvent) := by
  induction n generalizing c with
  | zero => exact ⟨[], List.nil_prefix, rfl⟩
  | succ n ih =>
    rcases hnext : c.nextEvent with ⟨e | ev, c'⟩
    · refine ⟨[], List.nil_prefix, ?_⟩
      cases e <;> simp only [runSubscribe, hnext] <;> rfl
    · obtain ⟨events, hprefix, hprinted⟩ := ih c'
      refine ⟨ev :: events, ?_, ?_⟩
      · have hcall : c.call .nextEvent = (⟨[], .ok (.event ev)⟩, c') := by
          simp only [Client.call, hnext]
          rfl
        rw [List.replicate_succ, Client.heard_cons, hcall]
        exact (List.prefix_cons_inj ev).mpr hprefix
      · simp only [runSubscribe, hnext]
        rw [stdout_append, hprinted, List.flatMap_cons, stdout_append]

/-- Subscribing returns no events. -/
theorem subscribeAll_heard {sent : Bytes} (h : subscribeAll c types = (⟨sent, .ok ()⟩, c'))
    (calls : List Client.Call) :
    c.heard (types.map .subscribe ++ calls) = c'.heard calls := by
  induction types generalizing c sent with
  | nil =>
    obtain ⟨_, rfl⟩ := Prod.mk.inj h
    rfl
  | cons t types ih =>
    rcases hsub : c.subscribe t with ⟨⟨first, e | _⟩, c₁⟩
    · simp [subscribeAll, hsub] at h
    · rcases hall : subscribeAll c₁ types with ⟨⟨rest, result⟩, c₂⟩
      simp only [subscribeAll, hsub, hall, Prod.mk.injEq, Client.Outcome.mk.injEq] at h
      obtain ⟨⟨_, rfl⟩, rfl⟩ := h
      have hcall : c.call (.subscribe t) = (⟨first, .ok .done⟩, c₁) := by
        simp only [Client.call, hsub]
        rfl
      rw [List.map_cons, List.cons_append, Client.heard_cons, hcall, ← ih hall]
      rfl

/-- **A subscriber prints messages that it hears**, in order and from the first on. -/
theorem printed_heard (io : BufReader UInt8) (stdin : Option Str) (n : ℕ) (types : List Str) :
    ∃ msgs : List Message,
      stdout (main (some io) stdin n (.subscribe types)).printed = transcript msgs ∧
      (msgs = [] ∨ ∃ k calls, Client.fromStream io = .ok k ∧
        msgs <+: (k.heard calls).filterMap Client.Event.message?) := by
  cases hstream : Client.fromStream io with
  | error e =>
    refine ⟨[], ?_, Or.inl rfl⟩
    simp only [main, connect, hstream]
    rfl
  | ok k =>
    rcases hall : subscribeAll k types with ⟨⟨sent, e | _⟩, c'⟩
    · refine ⟨[], ?_, Or.inl rfl⟩
      simp only [main, connect, hstream, Except.mapError, hall]
      rfl
    · obtain ⟨events, hprefix, hprinted⟩ := runSubscribe_heard n c'
      refine ⟨events.filterMap Client.Event.message?, ?_, Or.inr ⟨k,
        types.map .subscribe ++ List.replicate n .nextEvent, rfl, ?_⟩⟩
      · rw [← stdout_events, ← hprinted]
        simp only [main, connect, hstream, Except.mapError, hall]
        rfl
      · rw [subscribeAll_heard hall]
        exact hprefix.filterMap _

end Printing

end Cli

namespace Network

variable {ι : Type} [DecidableEq ι] {C : Cluster ι} {n : Network ι} {past : List (Event ι)} {i : ι}
  {id : ℕ}

/-- A message that was published survives the wire. -/
theorem sendable_of_wasPublished {s : Net ι} {past : List (MacroBus.Event ι)} {msg : Message}
    (hrun : Run C.step publishesLines C.initial s past) (h : WasPublished past msg) :
    (OutFrame.feed msg).Sendable := by
  obtain ⟨j, key, held, queued, hmem⟩ := h
  obtain ⟨m, before, a, m', es, after, hbefore, hlines, hstep, rfl, he⟩ := hrun.exists_step hmem
  have hplain : Run C.step anyStep C.initial m before := hbefore.weaken fun _ _ _ _ => trivial
  exact sendable_published (names_of_run hplain) hlines hstep he

/-- The header of a message that was published is made of words. -/
theorem worded_of_sendable {msg : Message} (h : (OutFrame.feed msg).Sendable) : msg.Worded := by
  obtain ⟨htype, hmsgId, horigin, _⟩ := h
  intro field hfield
  rcases List.mem_cons.mp hfield with rfl | hfield
  · exact htype.field
  · rcases List.mem_pair.mp hfield with rfl | rfl
    · exact hmsgId.field
    · exact horigin.field

/-- The messages of items that deliver messages. -/
theorem messages_deliver (msgs : List Message) :
    (msgs.map Outbound.deliver).filterMap Outbound.message? = msgs := by
  rw [List.filterMap_map]
  exact List.filterMap_some

/-- What a connection has taken from its queue are messages that survive the wire. -/
theorem taken_of_run (hrun : Run (fun n a => n.step C a) clocked (initial C) n past) (i : ι) (id : ℕ) :
    ∃ msgs : List Message, Daemon.takenBy (lifeOf past i) id = msgs.map .deliver ∧
      ∀ msg ∈ msgs, msg.Worded ∧ ∃ j, PublishedAt C past j msg := by
  obtain ⟨s, hcluster, hR⟩ := refines_of_run hrun
  have hlife : Run _ anyStep _ _ _ := (hR.life i).weaken fun _ _ _ _ => trivial
  obtain ⟨msgs, rest, _, htaken, _⟩ :=
    List.map_eq_append_iff.mp ((Daemon.queueInvariant_of_run hlife).queue id).symm
  refine ⟨msgs, htaken.symm, fun msg hmsg => ?_⟩
  have htook : .deliver msg ∈ Daemon.takenBy (lifeOf past i) id := by
    rw [← htaken]
    exact List.mem_map_of_mem hmsg
  obtain ⟨_, hqueued, heq⟩ := queued_of_mem hrun (List.mem_append_left _ htook)
  obtain rfl := Outbound.deliver.inj heq
  have hpublished := (onlyPublished_of_run hcluster).queued i id msg hqueued
  exact ⟨worded_of_sendable (sendable_of_wasPublished hcluster hpublished),
    publishedAt_of_run hrun hpublished⟩

/-- **Where there is a client**, its connection was greeted, and has been written units that a
client can read; their pushes account for what was offered to the connection. -/
theorem wrote_of_run (hrun : Run (fun n a => n.step C a) clocked (initial C) n past)
    {io : BufReader UInt8} {k : Client}
    (hio : io.remaining <+: outputOf (Daemon.effectsOf id (lifeOf past i)))
    (hclient : Client.fromStream io = .ok k) :
    ∃ (c : Conn) (daemonId : Str) (units : List OutUnit), (n.daemon i).conn id = some c ∧
      '\n' ∉ daemonId ∧ outputOf (Daemon.effectsOf id (lifeOf past i)) =
        wireLine (greeting daemonId) ++ outStream units ∧
      c.phase.Wrote (Daemon.takenBy (lifeOf past i) id) units ∧ (∀ u ∈ units, u.Legible) ∧
      c.Accounts ((n.daemon i).hub.chan id) (Daemon.offeredTo (lifeOf past i) id)
        (OutUnit.pushes units) := by
  obtain ⟨s, _, hR⟩ := refines_of_run hrun
  obtain ⟨ps, htold, hacc⟩ := Daemon.told_of_run (C.token i).newline (hR.life i)
  have hsome : outputOf (Daemon.effectsOf id (lifeOf past i)) ≠ [] := by
    intro hnothing
    rw [hnothing, List.prefix_nil] at hio
    unfold Client.fromStream Client.readLine at hclient
    rw [Client.readLineFrom_none (BufReader.readByte_nil hio)] at hclient
    cases hclient
  cases hconn : (n.daemon i).conn id with
  | none =>
    rw [(htold.fresh id hconn).2.2] at hsome
    exact absurd rfl hsome
  | some c =>
    cases htold.conn id c hconn with
    | nothing _ _ _ houtput => exact absurd houtput hsome
    | greeted daemonId units hname houtput hsaid hw =>
      have haccounts := hacc.conn id c hconn
      rw [← hsaid] at haccounts
      refine ⟨c, daemonId, units, rfl, hname, houtput, hw, fun u hu => ⟨hw.framed u hu, ?_⟩,
        haccounts⟩
      rintro p rfl
      cases p with
      | message msg =>
        obtain ⟨msgs, htaken, hmsgs⟩ := taken_of_run hrun i id
        obtain ⟨lost, hmessages, _⟩ := hw.messages
        refine (hmsgs msg ?_).1
        rw [← messages_deliver msgs, ← htaken, hmessages]
        exact List.mem_append_left _ (List.mem_filterMap.mpr ⟨_, hu, rfl⟩)
      | drop typeName count =>
        have hcounted : (Push.drop typeName count).Counted :=
          haccounts.told _ (List.mem_filterMap.mpr ⟨_, hu, rfl⟩)
        exact ⟨(isToken_of_isValidType hcounted.1).field.2, hcounted.2⟩
      | note text => trivial

/-- **What a client of a daemon hears** are messages that its connection has taken. -/
theorem heard_of_run (hrun : Run (fun n a => n.step C a) clocked (initial C) n past)
    {msgs : List Message} (htaken : Daemon.takenBy (lifeOf past i) id = msgs.map .deliver)
    {io : BufReader UInt8} {k : Client}
    (hio : io.remaining <+: outputOf (Daemon.effectsOf id (lifeOf past i)))
    (hclient : Client.fromStream io = .ok k) (calls : List Client.Call) :
    (k.heard calls).filterMap Client.Event.message? <+: msgs := by
  obtain ⟨c, daemonId, units, _, hname, houtput, hw, hlegible, _⟩ := wrote_of_run hrun hio hclient
  obtain ⟨lost, hmessages, _⟩ := hw.messages
  rw [htaken, messages_deliver] at hmessages
  rw [houtput] at hio
  have hheard := (Client.heard_greeted hname hlegible hio hclient calls).filterMap
    Client.Event.message?
  rw [Client.messages_ofPush, ← OutUnit.messages_pushes] at hheard
  exact hheard.trans ⟨_, hmessages.symm⟩

end Network

section Result

variable {ι : Type} [DecidableEq ι] {C : Cluster ι} {n : Network ι} {past : List (Network.Event ι)}

/-- **A client hears what was published, in order.** In every run of the network, whether
connections are lost or daemons restart: let a client be made from what its daemon has written to
its connection, or from as much of it as has arrived, in whatever pieces. Whatever it calls, until a
call fails without a reply, the messages it is handed are those that its connection has taken from
its queue, in the same order, none left out and none twice; and each of them was published by a
client, at the daemon that its origin names, under the key of its type. -/
theorem client_hears_what_was_published
    (hrun : Run (fun n a => n.step C a) Network.clocked (Network.initial C) n past) {i : ι} {id : ℕ}
    {io : BufReader UInt8} {k : Client}
    (hio : io.remaining <+: outputOf (Daemon.effectsOf id (Network.lifeOf past i)))
    (hclient : Client.fromStream io = .ok k) (calls : List Client.Call) :
    ((k.heard calls).filterMap Client.Event.message?).map Outbound.deliver <+:
        Daemon.takenBy (Network.lifeOf past i) id ∧
      ∀ msg ∈ (k.heard calls).filterMap Client.Event.message?, ∃ j, Network.PublishedAt C past j msg := by
  obtain ⟨msgs, htaken, hmsgs⟩ := Network.taken_of_run hrun i id
  have hheard : (k.heard calls).filterMap Client.Event.message? <+: msgs :=
    Network.heard_of_run hrun htaken hio hclient calls
  rw [htaken]
  exact ⟨hheard.map _, fun msg hmsg => (hmsgs msg (hheard.subset hmsg)).2⟩

/-- The units that are written to the subscriber of the pair. -/
def deliveredUnits : List OutUnit :=
  [.reply ⟨status.SUBSCRIBED, "subscribed t".toList, none⟩, .push (.message Network.delivered)]

/-- A message is delivered, and written. -/
theorem exists_written : ∃ (n : Network Bool) (past : List (Network.Event Bool)),
    Run (fun n a => n.step pair a) Network.clocked (Network.initial pair) n past ∧
      outputOf (Daemon.effectsOf 1 (Network.lifeOf past true)) =
        wireLine (greeting "d2".toList) ++ outStream deliveredUnits := by
  obtain ⟨n, past, hrun, houtput⟩ := exists_run (fun n a => n.step pair a)
    (fun _ _ a => Network.onTime a) (Network.initial pair)
    (Network.deliveryTrace ++ [.task true 1 0 .go])
    (P := fun _ past => outputOf (Daemon.effectsOf 1 (Network.lifeOf past true)) =
      wireLine (greeting "d2".toList) ++ outStream deliveredUnits) (by decide +kernel)
  exact ⟨n, past, hrun.weaken fun _ _ _ hok => Network.clocked_of_onTime hok, houtput⟩

/-- What a client calls there. -/
def subscriberCalls : List Client.Call := [.subscribe "t".toList, .nextEvent]

/-- A client is made from these units, and makes these calls. -/
theorem exists_calls (calls : List Client.Call) {output : Bytes} {units : List OutUnit}
    (houtput : output = wireLine (greeting "d2".toList) ++ outStream units)
    (hfits : ∀ u ∈ units, u.Fits DEFAULT_MAX_LINE)
    (hconsistent : Client.consistent calls 0 units = true) :
    ∃ k k', Client.fromStream (.ofList output) = .ok k ∧
      k.run calls = (Client.answers calls (OutUnit.replies units)
        ((OutUnit.pushes units).map Client.ofPush), k') := by
  obtain ⟨io, hclient, hrest⟩ := Client.fromStream_greeting
    ((BufReader.remaining_ofList output).trans houtput) (by decide)
  generalize Str.splitFirst ' ' ("d2".toList ++ " macro-bus MBP/1.0 ready".toList) = name at hclient
  obtain ⟨k', _, hcalls, _⟩ := Client.run_units (c := { io := io, daemonId := name }) hrest hfits
    hconsistent
  exact ⟨_, k', hclient, hcalls⟩

/-- A client hears the message. -/
theorem client_hears_what_was_published_delivered :
    ∃ (n : Network Bool) (past : List (Network.Event Bool)) (k : Client),
      Run (fun n a => n.step pair a) Network.clocked (Network.initial pair) n past ∧
      k.heard subscriberCalls = [.message Network.delivered] ∧
      (((k.heard subscriberCalls).filterMap Client.Event.message?).map Outbound.deliver <+:
          Daemon.takenBy (Network.lifeOf past true) 1 ∧
        ∀ msg ∈ (k.heard subscriberCalls).filterMap Client.Event.message?,
          ∃ j, Network.PublishedAt pair past j msg) := by
  obtain ⟨n, past, hrun, houtput⟩ := exists_written
  obtain ⟨k, k', hclient, hcalls⟩ := exists_calls subscriberCalls houtput (by decide) (by decide)
  have hall : ∀ outcome ∈ (k.run subscriberCalls).1, outcome.goesOn = true := by
    rw [hcalls]
    dsimp only
    decide
  refine ⟨n, past, k, hrun, ?_, ?_⟩
  · rw [Client.heard_eq_run hall, hcalls]
    dsimp only
    decide
  · refine client_hears_what_was_published hrun ?_ hclient _
    rw [BufReader.remaining_ofList]

/-- What a client was told is what its calls have returned, what it keeps, and what it has still to
read. -/
theorem read_of_run
    (hrun : Run (fun n a => n.step C a) Network.clocked (Network.initial C) n past) {i : ι} {id : ℕ}
    {io : BufReader UInt8} {k k' : Client} {outcomes : List (Client.Outcome Client.Answer)}
    (hio : io.remaining = outputOf (Daemon.effectsOf id (Network.lifeOf past i)))
    (hclient : Client.fromStream io = .ok k) {calls : List Client.Call}
    (hcalls : k.run calls = (outcomes, k')) (hgoes : ∀ outcome ∈ outcomes, outcome.goesOn = true) :
    ∃ (c : Conn) (units unread : List OutUnit), (n.daemon i).conn id = some c ∧
      c.phase.Wrote (Daemon.takenBy (Network.lifeOf past i) id) units ∧
      c.Accounts ((n.daemon i).hub.chan id) (Daemon.offeredTo (Network.lifeOf past i) id)
        (OutUnit.pushes units) ∧
      k'.io.remaining = outStream unread ∧
      (OutUnit.pushes units).map Client.ofPush = outcomes.filterMap Client.Outcome.event ++
        (k'.pending ++ (OutUnit.pushes unread).map Client.ofPush) := by
  have hwhole : io.remaining <+: outputOf (Daemon.effectsOf id (Network.lifeOf past i)) := by
    rw [hio]
  obtain ⟨c, daemonId, units, hconn, hname, houtput, hw, hlegible, haccounts⟩ :=
    Network.wrote_of_run hrun hwhole hclient
  obtain ⟨hfaces, hpending⟩ := Client.faces_greeted hname hlegible (hio.trans houtput) hclient
  have hgoes' : ∀ outcome ∈ (k.run calls).1, outcome.goesOn = true := by rwa [hcalls]
  obtain ⟨unread, hfaces', htold⟩ := Client.told_run hfaces hgoes'
  rw [Client.heard_eq_run hgoes', hcalls, Client.told, Client.told, hpending, List.nil_append] at htold
  rw [hcalls] at hfaces'
  exact ⟨c, units, unread, hconn, hw, haccounts, hfaces'.remaining, htold⟩

/-- **A message that was queued for a connection is in one place.** In every run of the network,
let a client be made from all that its daemon has written to its connection, and let no call of it
fail without a reply. Then what has been queued for the connection, in this order, are the messages
that calls have returned, those that the client has kept, those that it has still to read, the one
that the task is about to write, those lost with a task that has ended, and those in the queue. -/
theorem queued_message_is_in_one_place
    (hrun : Run (fun n a => n.step C a) Network.clocked (Network.initial C) n past) {i : ι} {id : ℕ}
    {io : BufReader UInt8} {k k' : Client} {outcomes : List (Client.Outcome Client.Answer)}
    (hio : io.remaining = outputOf (Daemon.effectsOf id (Network.lifeOf past i)))
    (hclient : Client.fromStream io = .ok k) {calls : List Client.Call}
    (hcalls : k.run calls = (outcomes, k')) (hgoes : ∀ outcome ∈ outcomes, outcome.goesOn = true) :
    ∃ (c : Conn) (unread : List OutUnit) (lost : List Message),
      (n.daemon i).conn id = some c ∧ k'.io.remaining = outStream unread ∧
      (c.phase.isOver = false → lost = []) ∧
      Daemon.queuedTo (Network.lifeOf past i) id =
        (outcomes.filterMap Client.Outcome.event).filterMap Client.Event.message? ++
        k'.pending.filterMap Client.Event.message? ++ unread.filterMap OutUnit.message? ++
        c.phase.inHand.filterMap Outbound.message? ++ lost ++
        ((n.daemon i).hub.chan id).queue.filterMap Outbound.message? := by
  obtain ⟨c, units, unread, hconn, hw, _, hremaining, htold⟩ :=
    read_of_run hrun hio hclient hcalls hgoes
  obtain ⟨lost, hmessages, hlost⟩ := hw.messages
  -- The daemon: from the queue to what was written.
  obtain ⟨s, _, hR⟩ := Network.refines_of_run hrun
  have hlife : Run _ anyStep _ _ _ := (hR.life i).weaken fun _ _ _ _ => trivial
  have hqueue := congrArg (List.filterMap Outbound.message?)
    ((Daemon.queueInvariant_of_run hlife).queue id)
  rw [Network.messages_deliver, List.filterMap_append, hmessages] at hqueue
  -- The client: from what was written to what calls have returned.
  have hread := congrArg (List.filterMap Client.Event.message?) htold
  rw [Client.messages_ofPush, ← OutUnit.messages_pushes, List.filterMap_append,
    List.filterMap_append, Client.messages_ofPush, ← OutUnit.messages_pushes] at hread
  refine ⟨c, unread, lost, hconn, hremaining, hlost, ?_⟩
  rw [← hqueue, hread]
  simp only [List.append_assoc]

/-- The message was queued for the subscriber of the pair, and the call behind its subscription
returns it. -/
theorem queued_message_is_in_one_place_delivered :
    ∃ (n : Network Bool) (past : List (Network.Event Bool)) (k k' : Client)
      (outcomes : List (Client.Outcome Client.Answer)),
      Run (fun n a => n.step pair a) Network.clocked (Network.initial pair) n past ∧
      k.run subscriberCalls = (outcomes, k') ∧
      outcomes.filterMap Client.Outcome.event = [.message Network.delivered] ∧
      ∃ (c : Conn) (unread : List OutUnit) (lost : List Message),
        (n.daemon true).conn 1 = some c ∧ k'.io.remaining = outStream unread ∧
        (c.phase.isOver = false → lost = []) ∧
        Daemon.queuedTo (Network.lifeOf past true) 1 =
          (outcomes.filterMap Client.Outcome.event).filterMap Client.Event.message? ++
          k'.pending.filterMap Client.Event.message? ++ unread.filterMap OutUnit.message? ++
          c.phase.inHand.filterMap Outbound.message? ++ lost ++
          ((n.daemon true).hub.chan 1).queue.filterMap Outbound.message? := by
  obtain ⟨n, past, hrun, houtput⟩ := exists_written
  obtain ⟨k, k', hclient, hcalls⟩ := exists_calls subscriberCalls houtput (by decide) (by decide)
  exact ⟨n, past, k, k', _, hrun, hcalls, by decide,
    queued_message_is_in_one_place hrun (BufReader.remaining_ofList _) hclient hcalls (by decide)⟩

/-- How many messages of the type an event tells of: the one it delivers, or those it counts. -/
def Client.Event.tells (typeName : Str) : Client.Event → ℕ
  | .message msg => msg.countOf typeName
  | .drop typeName' count => if typeName' = typeName then count else 0
  | .note _ => 0

/-- An event tells of what its push tells of. -/
theorem tells_ofPush (ps : List Push) (typeName : Str) :
    ((ps.map Client.ofPush).map (Client.Event.tells typeName)).sum =
      (ps.map (Push.tells typeName)).sum := by
  rw [List.map_map]
  congr 1
  refine List.map_congr_left fun p _ => ?_
  cases p <;> rfl

/-- **Nothing is lost without notice.** In every run of the network, let a client be made from all
that its daemon has written to its connection, and let no call of it fail without a reply. As long as
the task of the connection lives, the messages of a type that the daemon fanned out while the
connection listened to the type are told of: by the events that calls have returned and those that the
client has kept, by the pushes that it has still to read, or by what the daemon holds for it, in its
queue, in hand, or counted as dropped. The counts are exact as long as there were fewer than 2^64
messages of the type. -/
theorem nothing_is_lost_without_notice
    (hrun : Run (fun n a => n.step C a) Network.clocked (Network.initial C) n past) {i : ι} {id : ℕ}
    {io : BufReader UInt8} {k k' : Client} {outcomes : List (Client.Outcome Client.Answer)}
    (hio : io.remaining = outputOf (Daemon.effectsOf id (Network.lifeOf past i)))
    (hclient : Client.fromStream io = .ok k) {calls : List Client.Call}
    (hcalls : k.run calls = (outcomes, k')) (hgoes : ∀ outcome ∈ outcomes, outcome.goesOn = true) :
    ∃ (c : Conn) (unread : List OutUnit), (n.daemon i).conn id = some c ∧
      k'.io.remaining = outStream unread ∧ (c.phase.isLive = true → ∀ typeName,
        let offered := ((Daemon.offeredTo (Network.lifeOf past i) id).map
          (Message.countOf typeName)).sum
        let told := ((outcomes.filterMap Client.Outcome.event ++ k'.pending).map
          (Client.Event.tells typeName)).sum + ((OutUnit.pushes unread).map (Push.tells typeName)).sum +
          c.held ((n.daemon i).hub.chan id) typeName
        offered % u64Values = told % u64Values ∧ (offered < u64Values → offered = told)) := by
  obtain ⟨c, units, unread, hconn, _, haccounts, hremaining, htold⟩ :=
    read_of_run hrun hio hclient hcalls hgoes
  refine ⟨c, unread, hconn, hremaining, fun hlive typeName => ?_⟩
  obtain ⟨rounds, hrounds⟩ := haccounts.account hlive typeName
  have hread := congrArg (fun events => (events.map (Client.Event.tells typeName)).sum) htold
  rw [tells_ofPush, ← List.append_assoc, List.map_append, List.sum_append, tells_ofPush] at hread
  rw [hread] at hrounds
  dsimp only
  rw [hrounds]
  refine ⟨Nat.add_mul_mod_self_left _ _ _, fun hbound => ?_⟩
  cases rounds with
  | zero => rw [Nat.mul_zero, Nat.add_zero]
  | succ rounds =>
    have hround : u64Values ≤ u64Values * (rounds + 1) := Nat.le_mul_of_pos_right _ (Nat.succ_pos _)
    omega

/-- Two daemons that dial each other, with queues of one message. -/
def shallow : Cluster Bool where
  config i := { pair.config i with limits := { queueDepth := 1 } }
  peers := pair.peers
  valid i := by cases i <;> rfl
  named := pair.named
  nodup := pair.nodup
  token := pair.token
  distinct := pair.distinct
  machine := pair.machine

/-- A client subscribes, and two messages are published before its task takes the first one. -/
def dropTrace : List (Network.Action Bool) :=
  (Daemon.arrival 1 ++ Daemon.arrives 1 (Str.asBytes "SUBSCRIBE t\r\n".toList) 4 ++
    Daemon.arrival 2 ++ Daemon.arrives 2 (Str.asBytes "REGISTER t k\r\n".toList) 4 ++
    Daemon.arrives 2 (Str.asBytes "PUBLISH t k\r\nhi\r\n.\r\n".toList) 6 ++
    Daemon.arrives 2 (Str.asBytes "PUBLISH t k\r\nho\r\n.\r\n".toList) 6 ++
    Daemon.Action.task 1 0 .recv :: List.replicate 3 (.task 1 0 .go)).filterMap
      (Network.clientDoes true)

/-- The units that are written to the subscriber: the second message is dropped. -/
def droppedUnits : List OutUnit :=
  [.reply ⟨status.SUBSCRIBED, "subscribed t".toList, none⟩,
    .push (.message ⟨"t".toList, "d2-1".toList, "d2".toList, ["hi".toList]⟩),
    .push (.drop "t".toList 1)]

/-- Two messages are fanned out, and one of them is dropped. -/
theorem exists_dropped : ∃ (n : Network Bool) (past : List (Network.Event Bool)),
    Run (fun n a => n.step shallow a) Network.clocked (Network.initial shallow) n past ∧
      outputOf (Daemon.effectsOf 1 (Network.lifeOf past true)) =
        wireLine (greeting "d2".toList) ++ outStream droppedUnits ∧
      ((Daemon.offeredTo (Network.lifeOf past true) 1).map (Message.countOf "t".toList)).sum = 2 ∧
      (((n.daemon true).conn 1).map fun c => c.phase.isLive) = some true := by
  obtain ⟨n, past, hrun, hdropped⟩ := exists_run (fun n a => n.step shallow a)
    (fun _ _ a => Network.onTime a) (Network.initial shallow) dropTrace
    (P := fun n past => outputOf (Daemon.effectsOf 1 (Network.lifeOf past true)) =
        wireLine (greeting "d2".toList) ++ outStream droppedUnits ∧
      ((Daemon.offeredTo (Network.lifeOf past true) 1).map (Message.countOf "t".toList)).sum = 2 ∧
      (((n.daemon true).conn 1).map fun c => c.phase.isLive) = some true) (by decide +kernel)
  exact ⟨n, past, hrun.weaken fun _ _ _ hok => Network.clocked_of_onTime hok, hdropped⟩

/-- One of the messages is told of by the event that delivers it, and the other by the notice that
comes next. -/
theorem nothing_is_lost_without_notice_dropped :
    ∃ (n : Network Bool) (past : List (Network.Event Bool)) (k k' : Client)
      (outcomes : List (Client.Outcome Client.Answer)),
      Run (fun n a => n.step shallow a) Network.clocked (Network.initial shallow) n past ∧
      k.run (subscriberCalls ++ [.nextEvent]) = (outcomes, k') ∧
      outcomes.filterMap Client.Outcome.event =
        [.message ⟨"t".toList, "d2-1".toList, "d2".toList, ["hi".toList]⟩, .drop "t".toList 1] ∧
      ((Daemon.offeredTo (Network.lifeOf past true) 1).map (Message.countOf "t".toList)).sum = 2 ∧
      ∃ (c : Conn) (unread : List OutUnit), (n.daemon true).conn 1 = some c ∧
        k'.io.remaining = outStream unread ∧ c.phase.isLive = true ∧ ∀ typeName,
          let offered := ((Daemon.offeredTo (Network.lifeOf past true) 1).map
            (Message.countOf typeName)).sum
          let told := ((outcomes.filterMap Client.Outcome.event ++ k'.pending).map
            (Client.Event.tells typeName)).sum +
            ((OutUnit.pushes unread).map (Push.tells typeName)).sum +
            c.held ((n.daemon true).hub.chan 1) typeName
          offered % u64Values = told % u64Values ∧ (offered < u64Values → offered = told) := by
  obtain ⟨n, past, hrun, houtput, hoffered, hlive⟩ := exists_dropped
  obtain ⟨k, k', hclient, hcalls⟩ :=
    exists_calls (subscriberCalls ++ [.nextEvent]) houtput (by decide) (by decide)
  obtain ⟨c, unread, hconn, hremaining, htold⟩ :=
    nothing_is_lost_without_notice hrun (BufReader.remaining_ofList _) hclient hcalls (by decide)
  rw [hconn, Option.map_some] at hlive
  have hphase : c.phase.isLive = true := Option.some.inj hlive
  exact ⟨n, past, k, k', _, hrun, hcalls, by decide, hoffered, c, unread, hconn, hremaining, hphase,
    htold hphase⟩

/-- **A subscriber prints what was published, in order.** In every run of the network, let the tool
be started to subscribe to some types, on a connection over which it is reached by what its daemon
has written, or by as much of it as has arrived. Whenever it is interrupted, and however it ends, its
standard output is made of messages that the connection has taken from its queue, from the first on,
in order and none left out; and each of them was published by a client, at the daemon that its
origin names, under the key of its type. -/
theorem subscriber_prints_what_was_published
    (hrun : Run (fun n a => n.step C a) Network.clocked (Network.initial C) n past) {i : ι} {id : ℕ}
    {io : BufReader UInt8}
    (hio : io.remaining <+: outputOf (Daemon.effectsOf id (Network.lifeOf past i)))
    (stdin : Option Str) (interrupt : ℕ) (types : List Str) :
    ∃ msgs : List Message,
      Cli.stdout (Cli.main (some io) stdin interrupt (.subscribe types)).printed =
        Cli.transcript msgs ∧
      msgs.map Outbound.deliver <+: Daemon.takenBy (Network.lifeOf past i) id ∧
      ∀ msg ∈ msgs, ∃ j, Network.PublishedAt C past j msg := by
  obtain ⟨taken, htaken, hall⟩ := Network.taken_of_run hrun i id
  obtain ⟨msgs, hprinted, hmsgs⟩ := Cli.printed_heard io stdin interrupt types
  have hinitial : msgs <+: taken := by
    rcases hmsgs with rfl | ⟨k, calls, hclient, hheard⟩
    · exact List.nil_prefix
    · exact hheard.trans (Network.heard_of_run hrun htaken hio hclient calls)
  rw [htaken]
  exact ⟨msgs, hprinted, hinitial.map _, fun msg hmsg => (hall msg (hinitial.subset hmsg)).2⟩

/-- The tool is started where the message is delivered, and interrupted behind it. -/
theorem printed_delivered :
    Cli.stdout (Cli.main (some (.ofList (wireLine (greeting "d2".toList) ++
      outStream deliveredUnits))) none 1 (.subscribe ["t".toList])).printed =
        "--- t [d1-1] from d1\nhi\n".toList := by
  have hgreeting : LineFits DEFAULT_MAX_LINE (greeting "d2".toList) := by decide
  obtain ⟨io, hconnect, hrest⟩ := Cli.connect_greeting
    (BufReader.remaining_ofList (wireLine (greeting "d2".toList) ++ outStream deliveredUnits))
    hgreeting
  generalize Str.splitFirst ' ' ("d2".toList ++ " macro-bus MBP/1.0 ready".toList) = name at hconnect
  have hcodes : (OutUnit.replies deliveredUnits).map Reply.code =
      ["t".toList].map fun _ => status.SUBSCRIBED := by decide
  obtain ⟨sent, io', pending, ps, hall, hrest', hfits, hevents⟩ :=
    Cli.subscribeAll_units (c := { io := io, daemonId := name }) hrest
      (show ∀ u ∈ deliveredUnits, u.Fits DEFAULT_MAX_LINE by decide) hcodes
  have hloop : Cli.runSubscribe 1 { io := io', pending := pending, daemonId := name } = _ :=
    Cli.runSubscribe_pushes 1 hrest' hfits
  dsimp only at hloop
  rw [hevents] at hloop
  simp only [Cli.main, hconnect, hall, hloop]
  rfl

/-- The subscriber of the pair prints the message. -/
theorem subscriber_prints_what_was_published_delivered :
    ∃ (n : Network Bool) (past : List (Network.Event Bool)) (io : BufReader UInt8),
      Run (fun n a => n.step pair a) Network.clocked (Network.initial pair) n past ∧
      Cli.stdout (Cli.main (some io) none 1 (.subscribe ["t".toList])).printed =
        "--- t [d1-1] from d1\nhi\n".toList ∧
      ∃ msgs : List Message,
        Cli.stdout (Cli.main (some io) none 1 (.subscribe ["t".toList])).printed =
          Cli.transcript msgs ∧
        msgs.map Outbound.deliver <+: Daemon.takenBy (Network.lifeOf past true) 1 ∧
        ∀ msg ∈ msgs, ∃ j, Network.PublishedAt pair past j msg := by
  obtain ⟨n, past, hrun, houtput⟩ := exists_written
  have hio : (BufReader.ofList (wireLine (greeting "d2".toList) ++
      outStream deliveredUnits)).remaining <+:
        outputOf (Daemon.effectsOf 1 (Network.lifeOf past true)) := by
    rw [BufReader.remaining_ofList, houtput]
  exact ⟨n, past, _, hrun, printed_delivered,
    subscriber_prints_what_was_published hrun hio none 1 ["t".toList]⟩

end Result

end MacroBus
