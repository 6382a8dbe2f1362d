import MacroBus.Busd.Lockstep
import MacroBus.Busd.Publishing
import MacroBus.Busd.Receivable

/-!
# Every text in a daemon is a line

All that a daemon holds was cut out of lines: of its clients' command lines and bodies, and of
what its peer links have read. So where its own id is a line, every push of a connection is made
of lines, the task of a connection never finds a hub where it would not be, and a call on any
connection of a daemon is one command.
-/

namespace MacroBus

/-- The texts that a peer link hands to the registry are lines. -/
def Section.Framed : Section → Prop
  | .recordSeen msg | .fanOut msg => (Push.message msg).Framed
  | .applyRemoteRegistration typeName _ => '\n' ∉ typeName

/-- The texts of a call that the registry keeps are lines. -/
def Call.Framed : Call → Prop
  | .registerLocal typeName _ _ => '\n' ∉ typeName
  | .publishLocal typeName _ body => '\n' ∉ typeName ∧ ∀ line ∈ body, '\n' ∉ line
  | _ => True

/-- The texts in a channel are lines. -/
structure Chan.Framed (ch : Chan) : Prop where
  /-- The queue. -/
  queue : ∀ out ∈ ch.queue, out.push.Framed
  /-- The drop counters. -/
  drops : ∀ notice ∈ ch.drops.entries, '\n' ∉ notice.1

/-- The texts in a hub are lines. -/
structure Hub.AllFramed (h : Hub) : Prop where
  /-- The id of the daemon. -/
  daemonId : '\n' ∉ h.registry.daemonId
  /-- The registered types. -/
  types : ∀ typeName ∈ h.registry.types.keys, '\n' ∉ typeName
  /-- The channels. -/
  chan : ∀ id, (h.chan id).Framed

/-- What the connection has read of a publish are lines. -/
def Conn.Framed (c : Conn) : Prop :=
  ∀ typeName key acc, c.phase = .body typeName key acc ∨ c.phase = .bodyRead typeName key acc →
    '\n' ∉ typeName ∧ ∀ line ∈ acc.lines, '\n' ∉ line

/-- The texts in a daemon are lines. -/
structure Daemon.Framed (d : Daemon) : Prop where
  /-- The hub. -/
  hub : d.hub.AllFramed
  /-- The connections. -/
  conn : ∀ id c, d.conn id = some c → c.Framed

/-- What the peer links hand to the registry are lines. -/
def framedLinks (_ : Daemon) (_ : List Daemon.Event) (a : Daemon.Action) : Prop :=
  ∀ made, a = .inbound made → made.Framed

section Lines

variable {limits : Limits} {line rest : Str}

/-- One more line of a body is a line. -/
theorem framed_push {acc : BodyAcc} (hacc : ∀ l ∈ acc.lines, '\n' ∉ l) (hline : '\n' ∉ line) :
    ∀ l ∈ (acc.push limits line).lines, '\n' ∉ l := by
  unfold BodyAcc.push
  dsimp only
  split
  · exact hacc
  · intro l hl
    rcases List.mem_append.mp hl with hl | hl
    · exact hacc l hl
    · rw [List.mem_singleton.mp hl]
      exact newline_notMem_unstuffLine hline

/-- What is returned of a body is what was collected. -/
theorem BodyAcc.lines_of_result {acc : BodyAcc} {lines : List Str} (h : acc.result = some lines) :
    lines = acc.lines := by
  unfold BodyAcc.result at h
  split at h
  · cases h
  · exact (Option.some.inj h).symm

/-- What is decoded of a line is a line. -/
theorem newline_notMem_stripped {raw : Bytes} (h : LF ∉ raw) :
    '\n' ∉ fromUtf8Lossy (stripCr raw) :=
  newline_notMem_fromUtf8Lossy fun hmem => h ((stripCr_sublist raw).subset hmem)

/-- A field of a line is a line. -/
theorem newline_notMem_field (h : '\n' ∉ rest) (k : ℕ) :
    '\n' ∉ ((Str.split ' ' rest)[k]?).getD [] := by
  cases hfield : (Str.split ' ' rest)[k]? with
  | none => exact List.not_mem_nil
  | some field =>
    have hpart := (Words.mem_splitOn (List.mem_of_getElem? hfield)).2
    exact fun hmem => h (hpart.subset hmem)

/-- What stands behind the first field of a line is a line. -/
theorem newline_notMem_splitSecond (h : '\n' ∉ line) : '\n' ∉ Str.splitSecond ' ' line := by
  intro hmem
  exact h ((List.dropWhile_sublist _).subset ((List.drop_sublist 1 _).subset hmem))

/-- The first line of a push is one line where its fields are. -/
theorem framed_message {msg : Message} (htype : '\n' ∉ msg.typeName) (hmsgId : '\n' ∉ msg.msgId)
    (horigin : '\n' ∉ msg.origin) (hbody : ∀ line ∈ msg.body, '\n' ∉ line) :
    (Push.message msg).Framed := by
  refine ⟨?_, hbody⟩
  simp [Push.text, htype, hmsgId, horigin]

/-- The type of a message that is pushed as lines is a line. -/
theorem newline_notMem_typeName {msg : Message} (h : (Push.message msg).Framed) :
    '\n' ∉ msg.typeName := by
  intro hmem
  exact h.1 (by simp [Push.text, hmem])

end Lines

section Links

variable {br br' : federation.Reader} {limits : Limits} {line : Str}

/-- A peer link reads lines. -/
theorem newline_notMem_readLine (h : federation.readLine br = (some line, br')) : '\n' ∉ line := by
  cases hcut : Lines.cut LF br.remaining with
  | some p =>
    obtain ⟨hsplit, hraw⟩ := Lines.cut_eq_some_iff.mp hcut
    obtain ⟨_, hread, _⟩ := federation.readLine_line hsplit hraw
    obtain ⟨hline, _⟩ := Prod.mk.inj (hread.symm.trans h)
    rw [← Option.some.inj hline]
    exact newline_notMem_stripped hraw
  | none =>
    have hraw := Lines.cut_eq_none_iff.mp hcut
    by_cases hne : br.remaining = []
    · obtain ⟨_, hread, _⟩ := federation.readLine_eof hne
      cases (Prod.mk.inj (hread.symm.trans h)).1
    · obtain ⟨_, hread, _⟩ := federation.readLine_last hraw hne
      obtain ⟨hline, _⟩ := Prod.mk.inj (hread.symm.trans h)
      rw [← Option.some.inj hline]
      exact newline_notMem_stripped hraw

/-- The body that a peer link reads is made of lines. -/
theorem framed_readBodyFrom {acc : BodyAcc} {lines : List Str} (hacc : ∀ l ∈ acc.lines, '\n' ∉ l)
    (h : federation.readBodyFrom limits acc br = (some (some lines), br')) :
    ∀ l ∈ lines, '\n' ∉ l := by
  induction hn : br.remaining.length using Nat.strong_induction_on generalizing acc br with
  | _ n ih =>
    rcases hread : federation.readLine br with ⟨_ | line, br₁⟩
    · rw [federation.readBodyFrom_none hread] at h
      cases (Prod.mk.inj h).1
    · rw [federation.readBodyFrom_some hread] at h
      split at h
      · rw [BodyAcc.lines_of_result (Option.some.inj (Prod.mk.inj h).1)]
        exact hacc
      · have hlt := federation.readLine_lt hread
        exact ih _ (hn ▸ hlt) (framed_push hacc (newline_notMem_readLine hread)) h rfl

/-- The call for a message that was read. -/
theorem framed_feedCall {rest : Str} {body : Option (List Str)} {made : Inbound}
    (hrest : '\n' ∉ rest) (hbody : ∀ lines, body = some lines → ∀ line ∈ lines, '\n' ∉ line)
    (hmade : made ∈ (federation.feedCall rest body).toList) : made.first.Framed := by
  unfold federation.feedCall at hmade
  dsimp only at hmade
  split at hmade
  · cases hmade
  · obtain ⟨lines, hlines, rfl⟩ := Option.map_eq_some_iff.mp (Option.mem_toList.mp hmade)
    exact framed_message (newline_notMem_field hrest 0) (newline_notMem_field hrest 1)
      (newline_notMem_field hrest 2) (hbody lines hlines)

/-- The call for a registration that was read. -/
theorem framed_rregCall {rest : Str} {made : Inbound} (hrest : '\n' ∉ rest)
    (hmade : made ∈ (federation.rregCall rest).toList) : made.first.Framed := by
  unfold federation.rregCall at hmade
  dsimp only at hmade
  split at hmade
  · cases hmade
  · split at hmade
    · cases hmade
    · obtain rfl := Option.some.inj (Option.mem_toList.mp hmade)
      exact newline_notMem_field hrest 0

/-- **A peer link calls with lines only**, whatever it reads. -/
theorem framed_readLoop (limits : Limits) (br : federation.Reader) :
    ∀ made ∈ (federation.readLoop limits br).1, made.first.Framed := by
  induction hn : br.remaining.length using Nat.strong_induction_on generalizing br with
  | _ n ih =>
    rcases hread : federation.readLine br with ⟨_ | line, br₁⟩
    · rw [federation.readLoop_none hread]
      exact fun made hmade => by cases hmade
    · have hlt := federation.readLine_lt hread
      have hline := newline_notMem_readLine hread
      have hrest := newline_notMem_splitSecond hline
      by_cases hfeed : Str.splitFirst ' ' line = "FEED".toList
      · rcases hbody : federation.readBody limits br₁ with ⟨_ | body, br₂⟩
        · rw [federation.readLoop_midBody hread hfeed hbody]
          exact fun made hmade => by cases hmade
        · rw [federation.readLoop_feed hread hfeed hbody]
          have hle := federation.readBodyFrom_le limits {} br₁
          rw [show federation.readBodyFrom limits {} br₁ = _ from hbody] at hle
          intro made hmade
          rcases List.mem_append.mp hmade with hmade | hmade
          · refine framed_feedCall hrest ?_ hmade
            rintro lines rfl
            exact framed_readBodyFrom (by simp) hbody
          · exact ih _ (by dsimp only at hle; omega) br₂ rfl made hmade
      · by_cases hrreg : Str.splitFirst ' ' line = "RREG".toList
        · rw [federation.readLoop_rreg hread hrreg]
          intro made hmade
          rcases List.mem_append.mp hmade with hmade | hmade
          · exact framed_rregCall hrest hmade
          · exact ih _ (hn ▸ hlt) br₁ rfl made hmade
        · rw [federation.readLoop_skip hread hfeed hrreg]
          exact ih _ (hn ▸ hlt) br₁ rfl

end Links

section Hubs

variable {h h' : Hub} {ch : Chan} {msg : Message} {typeName key : Str} {body : List Str} {id : ℕ}

/-- The texts that a connection may write are those of its channel, and the registered types. -/
theorem Hub.AllFramed.framed (hall : h.AllFramed) (id : ℕ) : h.Framed id :=
  ⟨(hall.chan id).queue, (hall.chan id).drops, hall.types⟩

/-- A hub with the same channels, and no new type that is not a line. -/
theorem Hub.AllFramed.of_chan (hall : h.AllFramed)
    (hid : h'.registry.daemonId = h.registry.daemonId)
    (htypes : ∀ typeName ∈ h'.registry.types.keys,
      typeName ∈ h.registry.types.keys ∨ '\n' ∉ typeName) (hchan : h'.chan = h.chan) :
    h'.AllFramed := by
  refine ⟨hid ▸ hall.daemonId, fun typeName hmem => ?_, fun id => hchan ▸ hall.chan id⟩
  rcases htypes typeName hmem with hold | hline
  · exact hall.types typeName hold
  · exact hline

/-- A type is registered. -/
theorem Hub.AllFramed.insert {reg : TypeReg} (hall : h.AllFramed) (htype : '\n' ∉ typeName) :
    Hub.AllFramed
      { h with registry := { h.registry with types := h.registry.types.insert typeName reg } } := by
  refine hall.of_chan rfl (fun t ht => ?_) rfl
  rcases (AList.mem_insert _).mp (AList.mem_keys.mpr ht) with rfl | hold
  · exact Or.inr htype
  · exact Or.inl (AList.mem_keys.mp hold)

/-- One channel of a hub changes. -/
theorem Hub.AllFramed.update (hall : h.AllFramed) (id : ℕ) (hch : ch.Framed) :
    Hub.AllFramed { h with chan := Function.update h.chan id ch } := by
  refine ⟨hall.daemonId, hall.types, fun i => ?_⟩
  dsimp only
  by_cases hi : i = id
  · rw [hi, Function.update_self]
    exact hch
  · rw [Function.update_of_ne hi]
    exact hall.chan i

/-- A message is offered to a channel. -/
theorem Chan.Framed.offer (hch : ch.Framed) (hmsg : (Push.message msg).Framed) :
    (ch.offer msg).Framed := by
  unfold Chan.offer
  split
  · refine ⟨fun out hout => ?_, hch.drops⟩
    rcases List.mem_append.mp hout with hout | hout
    · exact hch.queue out hout
    · rw [List.mem_singleton.mp hout]
      exact hmsg
  · split
    · refine ⟨hch.queue, fun notice hnotice => ?_⟩
      simp only [Chan.recordDrop, AList.entries_insert, List.mem_cons] at hnotice
      rcases hnotice with rfl | hnotice
      · exact newline_notMem_typeName hmsg
      · exact hch.drops notice ((List.kerase_sublist _ _).subset hnotice)
    · exact hch

/-- A message is fanned out. -/
theorem Hub.AllFramed.fanoutLocked (hall : h.AllFramed) (hmsg : (Push.message msg).Framed) :
    (h.fanoutLocked msg).AllFramed := by
  refine ⟨?_, ?_, fun id => ?_⟩
  · rw [Hub.fanoutLocked_registry]
    exact hall.daemonId
  · rw [Hub.fanoutLocked_registry]
    exact hall.types
  · rw [Hub.fanoutLocked_chan]
    split
    · exact (hall.chan id).offer hmsg
    · exact hall.chan id

/-- **A section that a peer link runs** keeps the texts lines. -/
theorem Hub.AllFramed.perform {made : Section} (hall : h.AllFramed) (hmade : made.Framed) :
    (h.perform made).1.AllFramed := by
  cases made with
  | recordSeen msg => exact hall.of_chan rfl (fun _ hmem => Or.inl hmem) rfl
  | fanOut msg => exact hall.fanoutLocked hmade
  | applyRemoteRegistration typeName incoming =>
    simp only [Hub.perform]
    rcases hres : h.registry.applyRemoteRegistration typeName incoming with ⟨_ | effective, r⟩
    · obtain ⟨_, rfl⟩ := Registry.applyRemoteRegistration_eq_none_iff.mp hres
      exact hall
    · obtain ⟨_, _, rfl⟩ := Registry.applyRemoteRegistration_eq_some_iff.mp hres
      exact hall.insert hmade

/-- **A call by a connection** keeps the texts lines. -/
theorem Hub.AllFramed.execute {made : Call} (hall : h.AllFramed) (hmade : made.Framed) (id : ℕ) :
    (h.execute id made).AllFramed := by
  cases made with
  | registerLocal typeName key nowMs =>
    simp only [Hub.execute]
    rcases hlookup : h.registry.types.lookup typeName with _ | reg
    · rw [Registry.registerLocal_created_iff.mpr ⟨hlookup, rfl, rfl⟩]
      exact hall.insert hmade
    · rw [Registry.registerLocal_unchanged (by simp [hlookup])]
      exact hall
  | publishLocal typeName key body =>
    simp only [Hub.execute]
    rcases hres : h.publishLocal typeName key body with ⟨e | msg, h'⟩
    · obtain rfl := Hub.publishLocal_error hres
      exact hall
    · obtain ⟨_, rfl, rfl⟩ := Hub.publishLocal_eq_ok_iff.mp hres
      have hmsgId : '\n' ∉ h.registry.msgId :=
        notMem_msgId hall.daemonId (by decide) (by decide) h.registry.seq
      refine .fanoutLocked (hall.of_chan rfl (fun _ hmem => Or.inl hmem) rfl) ?_
      exact framed_message hmade.1 hmsgId hall.daemonId hmade.2
  | subscribe => exact hall.of_chan rfl (fun _ hmem => Or.inl hmem) rfl
  | unsubscribe typeName =>
    have hsame := Cluster.sameTables_unsubscribe h.registry typeName id
    exact hall.of_chan hsame.daemonId (fun _ hmem => Or.inl (hsame.types ▸ hmem)) rfl
  | removeConn types =>
    have hsame := Cluster.sameTables_removeConn h.registry id types
    have hkept : Hub.AllFramed { h with registry := h.registry.removeConn id types } :=
      hall.of_chan hsame.daemonId (fun _ hmem => Or.inl (hsame.types ▸ hmem)) rfl
    exact hkept.update id ⟨(hall.chan id).queue, (hall.chan id).drops⟩
  | listTypes | publishPrecheck => exact hall

end Hubs

section Tasks

variable {limits : Limits} {fwd : Bool} {nowMs : ℕ} {wake : Conn.Wake} {c c' : Conn} {h h' : Hub}
  {done : List Effect} {typeName key : Str}

/-- Outside a body nothing of one is held. -/
theorem Conn.framed_outside (hout : c.phase.inBody = false) : c.Framed := by
  rintro typeName key acc (hphase | hphase) <;>
  · rw [hphase] at hout
    cases hout

/-- A command that was parsed calls with lines, and its body is kept under one. -/
theorem framed_execute {cmd : Command} {line : Str} (hparse : command.parse line = .ok cmd) :
    (Conn.execute limits fwd nowMs c h cmd).1.Framed ∧
      ∀ made ∈ calls (Conn.execute limits fwd nowMs c h cmd).2.2, made.Framed := by
  cases cmd with
  | register typeName key =>
    have htype := newline_notMem_of_parse hparse (show typeName ∈ some typeName from rfl)
    have hcalls : calls (Conn.execute limits fwd nowMs c h (.register typeName key)).2.2 =
        [.registerLocal typeName key nowMs] := by
      unfold Conn.execute
      dsimp only
      split
      · next reg _ _ => cases reg.changed <;> cases fwd <;> rfl
      · rfl
    rw [hcalls]
    refine ⟨Conn.framed_outside ?_, fun made hmade => ?_⟩
    · unfold Conn.execute
      dsimp only
      split <;> rfl
    · rw [List.mem_singleton.mp hmade]
      exact htype
  | publish typeName key =>
    have htype := newline_notMem_of_parse hparse (show typeName ∈ some typeName from rfl)
    have hcalls : calls (Conn.execute limits fwd nowMs c h (.publish typeName key)).2.2 =
        [.publishPrecheck typeName key] := by
      unfold Conn.execute Conn.beginPublish
      dsimp only
      split <;> rfl
    rw [hcalls]
    refine ⟨?_, fun made hmade => ?_⟩
    · unfold Conn.execute Conn.beginPublish
      dsimp only
      split
      · exact Conn.framed_outside rfl
      · rintro _ _ _ (⟨rfl, rfl, rfl⟩ | hphase)
        · exact ⟨htype, by simp⟩
        · cases hphase
    · rw [List.mem_singleton.mp hmade]
      trivial
  | quit | capabilities | help => exact ⟨Conn.framed_outside rfl, fun made hmade => by cases hmade⟩
  | listTypes | subscribe | unsubscribe =>
    refine ⟨Conn.framed_outside rfl, fun made hmade => ?_⟩
    rw [List.mem_singleton.mp hmade]
    trivial

/-- A body that was collected is published with lines. -/
theorem framed_finishPublish {body : Option (List Str)} (htype : '\n' ∉ typeName)
    (hbody : ∀ lines, body = some lines → ∀ line ∈ lines, '\n' ∉ line) :
    ∀ made ∈ calls (Conn.finishPublish fwd c h typeName key body).2.2, made.Framed := by
  unfold Conn.finishPublish
  cases body with
  | none => exact fun made hmade => by cases hmade
  | some lines =>
    have hmade : Call.Framed (.publishLocal typeName key lines) := ⟨htype, hbody lines rfl⟩
    dsimp only
    split <;> intro made hmem
    · have hone : made ∈ [Call.publishLocal typeName key lines] := by cases fwd <;> exact hmem
      rw [List.mem_singleton.mp hone]
      exact hmade
    · rw [List.mem_singleton.mp hmem]
      exact hmade

/-- **An internal step** calls with lines, and what it reads of a body are lines. -/
theorem Conn.Framed.go (hc : c.Framed)
    (hgo : Conn.go limits fwd nowMs c h = some (c', h', done)) :
    c'.Framed ∧ ∀ made ∈ calls done, made.Framed := by
  cases Conn.go_goes hgo with
  | greet | noDrops | drain | flushed | notice | commandTooLong | commandNeed | bodyTooLong =>
    exact ⟨Conn.framed_outside rfl, fun made hmade => by cases hmade⟩
  | @deliver out =>
    cases out <;> exact ⟨Conn.framed_outside rfl, fun made hmade => by cases hmade⟩
  | @command line rest =>
    rw [Conn.handleCommand_eq]
    split
    · next cmd hparse => exact framed_execute hparse
    · exact ⟨Conn.framed_outside rfl, fun made hmade => by cases hmade⟩
  | @terminator typeName key acc line rest hphase =>
    obtain ⟨htype, hlines⟩ := hc typeName key acc (Or.inl hphase)
    refine ⟨Conn.framed_outside ?_, framed_finishPublish htype fun lines hresult => ?_⟩
    · rw [Conn.finishPublish_fst]
      rfl
    · rw [BodyAcc.lines_of_result hresult]
      exact hlines
  | @bodyLine typeName key acc line rest hphase htake =>
    obtain ⟨htype, hlines⟩ := hc typeName key acc (Or.inl hphase)
    refine ⟨?_, fun made hmade => by cases hmade⟩
    rintro _ _ _ (⟨rfl, rfl, rfl⟩ | hother)
    · obtain ⟨raw, _, hraw, rfl, _⟩ := takeLine_eq_line_iff.mp htake
      exact ⟨htype, framed_push hlines (newline_notMem_stripped hraw)⟩
    · cases hother
  | @bodyNeed typeName key acc rest hphase =>
    refine ⟨?_, fun made hmade => by cases hmade⟩
    rintro _ _ _ (hother | ⟨rfl, rfl, rfl⟩)
    · cases hother
    · exact hc typeName key acc (Or.inl hphase)
  | remove =>
    refine ⟨Conn.framed_outside rfl, fun made hmade => ?_⟩
    rw [List.mem_singleton.mp hmade]
    trivial

/-- **Every step** calls with lines, and what it reads of a body are lines. -/
theorem Conn.Framed.step (hc : c.Framed)
    (hstep : Conn.step limits fwd nowMs wake c h = some (c', h', done)) :
    c'.Framed ∧ ∀ made ∈ calls done, made.Framed := by
  cases Conn.step_steps hstep with
  | go hgo => exact hc.go hgo
  | writeErr hgo =>
    obtain ⟨_, hcalls⟩ := hc.go hgo
    refine ⟨Conn.framed_outside rfl, fun made hmade => hcalls made ?_⟩
    exact mem_calls.mpr ((List.takeWhile_sublist _).subset (mem_calls.mp hmade))
  | @readBody _ typeName key acc hphase =>
    refine ⟨?_, fun made hmade => by cases hmade⟩
    rintro _ _ _ (⟨rfl, rfl, rfl⟩ | hother)
    · exact hc typeName key acc (Or.inr hphase)
    · cases hother
  | read | closed | closedBody | recv | notified =>
    exact ⟨Conn.framed_outside rfl, fun made hmade => by cases hmade⟩

/-- **A step of a task** keeps the texts of the hub lines. -/
theorem Hub.AllFramed.step (hall : h.AllFramed) (hc : c.Framed)
    (hstep : Conn.step limits fwd nowMs wake c h = some (c', h', done)) : h'.AllFramed := by
  obtain ⟨_, hcalls⟩ := hc.step hstep
  obtain ⟨_, huses⟩ := Conn.step_uses hstep
  cases huses with
  | alone => exact hall
  | channel _ _ hown =>
    have hch := hall.chan c.id
    refine hall.update c.id ?_
    cases hown with
    | drain => exact ⟨hch.queue, by simp⟩
    | recv hqueue =>
      exact ⟨fun out hout => hch.queue out (hqueue ▸ List.mem_cons_of_mem _ hout), hch.drops⟩
    | notified => exact ⟨hch.queue, hch.drops⟩
  | call made _ hone =>
    rw [hone] at hcalls
    exact hall.execute (hcalls made (List.mem_singleton_self made)) c.id

end Tasks

namespace Daemon

variable {limits : Limits} {fwd : Bool} {daemonId : Str} {d d' : Daemon} {a : Action}
  {es past : List Event} {id : ℕ} {c : Conn}

/-- **Every step of the daemon** keeps its texts lines. -/
theorem Framed.step (hd : d.Framed) (ha : framedLinks d past a)
    (hstep : Daemon.step limits fwd d a = some (d', es)) : d'.Framed := by
  cases a with
  | accept i =>
    obtain ⟨_, rfl, _⟩ := step_accept_eq_some_iff.mp hstep
    refine ⟨hd.hub.update i ⟨by simp, by simp⟩, fun id c hc => ?_⟩
    dsimp only at hc
    by_cases hi : id = i
    · rw [hi, Function.update_self] at hc
      obtain rfl := Option.some.inj hc
      exact Conn.framed_outside rfl
    · rw [Function.update_of_ne hi] at hc
      exact hd.conn id c hc
  | inbound made =>
    simp only [Daemon.step, Option.some.injEq, Prod.mk.injEq] at hstep
    obtain ⟨rfl, _⟩ := hstep
    exact ⟨hd.hub.perform (ha made rfl), hd.conn⟩
  | task i nowMs wake =>
    obtain ⟨c₁, c', h', done, hconn, hconnStep, rfl, _⟩ := step_task_eq_some_iff.mp hstep
    have hc₁ := hd.conn i c₁ hconn
    refine ⟨hd.hub.step hc₁ hconnStep, fun id c hc => ?_⟩
    dsimp only at hc
    by_cases hi : id = i
    · rw [hi, Function.update_self] at hc
      obtain rfl := Option.some.inj hc
      exact (hc₁.step hconnStep).1
    · rw [Function.update_of_ne hi] at hc
      exact hd.conn id c hc

/-- A daemon starts with its own id. -/
theorem framed_start (hid : '\n' ∉ daemonId) : (start daemonId limits).Framed :=
  ⟨⟨hid, by simp [start, Registry.new], fun _ => ⟨by simp [start], by simp [start]⟩⟩,
    fun _ _ hc => by cases hc⟩

/-- **All texts in a daemon are lines**, in every run in which its peer links hand it what they
have read. -/
theorem framed_of_run (hid : '\n' ∉ daemonId)
    (hrun : Transition.Run (Daemon.step limits fwd) framedLinks (start daemonId limits) d past) :
    d.Framed :=
  hrun.invariant (I := fun d _ => d.Framed) (framed_start hid)
    fun _ _ _ _ _ hd ha hstep => hd.step ha hstep

/-- **A connection of a daemon goes on as its task does by itself**, and never finds a hub that
holds more than lines. -/
theorem framedTask_of_run (hid : '\n' ∉ daemonId)
    (hbefore : Transition.Run (Daemon.step limits fwd) framedLinks (start daemonId limits) d past)
    (hconn : d.conn id = some c)
    (hrun : Transition.Run (Daemon.step limits fwd) framedLinks d d' es) :
    ∃ c' io, d'.conn id = some c' ∧ Conn.reads io = readsOf id es ∧
      Conn.effects io = effectsOf id es ∧
      Transition.Run (Conn.task limits fwd) framedHub c c' io := by
  have hd := framed_of_run hid hbefore
  have hids := (subscriptionInvariant_of_run (hbefore.weaken fun _ _ _ _ => trivial)).ids
  -- Every state of the run that goes on is made of lines.
  have hreached : ∀ {d' es}, Transition.Run (Daemon.step limits fwd) framedLinks d d' es →
      d'.Framed := fun h => h.invariant (I := fun d _ => d.Framed) hd
        fun _ _ _ _ _ hd ha hstep => hd.step ha hstep
  have hframed : Transition.Run (Daemon.step limits fwd) (fun d _ _ => d.Framed) d d' es :=
    hrun.of_reached fun _ _ _ hreach _ => hreached hreach
  obtain ⟨c', io, hc', _, hreads, heffects, htask⟩ := task_of_run framedHub
    (fun d _ _ _ c _ hd _ _ => hd.hub.framed c.id) (hids id) hconn hframed
  exact ⟨c', io, hc', hreads, heffects, htask⟩

/-- **A call on a connection of a daemon** is one command: the client reads what the daemon writes
to the connection, and the daemon reads from it what the client sends. -/
theorem oneCommand_of_run {k k' : Client} {request : Request} {outcome : Client.Outcome Unit}
    {stream : BufReader UInt8} (hid : '\n' ∉ daemonId)
    (hbefore : Transition.Run (Daemon.step limits fwd) framedLinks (start daemonId limits) d past)
    (hconn : d.conn id = some c) (hlock : Lockstep c k) (hsend : request.Sendable limits)
    (hrun : Transition.Run (Daemon.step limits fwd) framedLinks d d' es)
    (hstream : stream.remaining = k.io.remaining ++ outputOf (effectsOf id es))
    (hcall : Client.perform { k with io := stream } request = (outcome, k'))
    (hreads : (readsOf id es).flatten <+: outcome.sent) :
    ∃ c' io, d'.conn id = some c' ∧ Conn.effects io = effectsOf id es ∧
      OneCommand request io c' k' outcome := by
  obtain ⟨c', io, hc', hread, heffect, htask⟩ := framedTask_of_run hid hbefore hconn hrun
  rw [← heffect] at hstream
  rw [← hread] at hreads
  have hx : Exchange limits fwd c k request io c' k' outcome :=
    ⟨htask, ⟨stream, hstream, hcall⟩, hreads⟩
  exact ⟨c', io, hc', heffect, hx.oneCommand hlock hsend⟩

end Daemon

end MacroBus
