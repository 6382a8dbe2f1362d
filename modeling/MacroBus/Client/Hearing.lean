import MacroBus.Client.Growth

/-!
# What a client hears

A client that gives up on the first error that is no reply hears, by whatever calls, what was
pushed to it: in the order in which it was written, each push once, and up to the error none is
left out. This is so wherever its stream ends.
-/

namespace MacroBus

/-- The message of a push. -/
def Push.message? : Push → Option Message
  | .message msg => some msg
  | _ => none

/-- The message that a unit delivers. -/
def OutUnit.message? : OutUnit → Option Message
  | .push p => p.message?
  | .reply _ => none

/-- The message of an event. -/
def Client.Event.message? : Client.Event → Option Message
  | .message msg => some msg
  | _ => none

/-- The fields of the header of a message are words. -/
def Message.Worded (msg : Message) : Prop :=
  ∀ field ∈ [msg.typeName, msg.msgId, msg.origin], field ≠ [] ∧ ' ' ∉ field

/-- A push that a client takes for what it is, if its lines arrive. -/
def Push.Worded : Push → Prop
  | .message msg => msg.Worded
  | .drop typeName count => ' ' ∉ typeName ∧ count < u64Values
  | .note _ => True

/-- The lines of a unit hold no line end. -/
def OutUnit.Framed : OutUnit → Prop
  | .push p => p.Framed
  | .reply r => r.Framed

/-- A unit that is read as what it is, if it is read. -/
structure OutUnit.Legible (u : OutUnit) : Prop where
  /-- It is made of lines. -/
  framed : u.Framed
  /-- A push has words for fields. -/
  worded : ∀ p, u = .push p → p.Worded

/-- The pushes of units that follow each other. -/
theorem OutUnit.pushes_append (units more : List OutUnit) :
    OutUnit.pushes (units ++ more) = OutUnit.pushes units ++ OutUnit.pushes more :=
  List.filterMap_append

/-- The messages in units are those of their pushes. -/
theorem OutUnit.messages_pushes (units : List OutUnit) :
    units.filterMap OutUnit.message? = (OutUnit.pushes units).filterMap Push.message? := by
  unfold OutUnit.pushes
  rw [List.filterMap_filterMap]
  refine List.filterMap_congr fun u _ => ?_
  cases u <;> rfl

namespace Client

variable {c c' : Client} {units : List OutUnit} {p : Push} {r : Reply} {rest : Bytes}

/-- The events that calls return, up to the first error that is no reply. -/
def heard (c : Client) : List Call → List Event
  | [] => []
  | call :: calls =>
    let (outcome, c') := c.call call
    outcome.event.toList ++ if outcome.goesOn then heard c' calls else []

/-- The client stands in front of these units. -/
structure Faces (c : Client) (units : List OutUnit) : Prop where
  /-- They are what it has still to read. -/
  remaining : c.io.remaining = outStream units
  /-- They can be read. -/
  legible : ∀ u ∈ units, u.Legible

/-- The events that the client has kept, or has still to read. -/
def told (c : Client) (units : List OutUnit) : List Event :=
  c.pending ++ (OutUnit.pushes units).map ofPush

/-- The client comes to stand in front of other units, and of the events it was told it has lost
none: the first was returned, if any, and the others are still there. -/
def Keeps (c : Client) (units : List OutUnit) (returned : Option Event) (c' : Client) : Prop :=
  ∃ units', c'.Faces units' ∧ c.told units = returned.toList ++ c'.told units'

/-- The messages of the events that pushes become. -/
theorem messages_ofPush (ps : List Push) :
    (ps.map ofPush).filterMap Event.message? = ps.filterMap Push.message? := by
  rw [List.filterMap_map]
  refine List.filterMap_congr fun p _ => ?_
  cases p <;> rfl

section Reading

/-- A notice whose type is a word is read. -/
theorem readPush_drop {typeName : Str} {count : ℕ} (htype : ' ' ∉ typeName)
    (hcount : count < u64Values) :
    c.readPush status.DROP (Push.drop typeName count).text = (.ok (.drop typeName count), c) := by
  have hsplit : Str.split ' ' (Push.drop typeName count).text =
      ["DROP".toList, typeName, decimal count] := by
    rw [Push.text, Str.split_append_cons (by decide), Str.split_append_cons htype,
      Str.split_eq_singleton (notMem_decimal (by decide) count)]
  unfold readPush
  rw [hsplit]
  have hparse := parseUnsigned_decimal hcount
  refine (if_neg (show ¬status.DROP = status.MSG by decide)).trans
    ((if_pos rfl).trans ((if_neg (not_not.mpr rfl)).trans ?_))
  simp only [List.getElem?_cons_succ, List.getElem?_cons_zero, Option.bind_some, hparse]
  rfl

/-- **A push** is read as what it is, or there is an error. -/
theorem readPush_legible (hp : (OutUnit.push p).Legible) (htwo : 2 ≤ c.maxLine)
    (h : c.io.remaining = Str.asBytes p.block ++ rest) :
    (∃ io, c.readPush p.code p.text = (.ok (ofPush p), { c with io := io }) ∧
        io.remaining = rest) ∨
      ∃ e c', c.readPush p.code p.text = (.error e, c') ∧ e.isReply = false := by
  have hwords := hp.worded p rfl
  have hframed : p.Framed := hp.framed
  cases p with
  | message msg =>
    rw [Push.code, readPush_message hwords]
    rcases readBlock_wire htwo h hframed.2 with ⟨io, hblock, hrest⟩ | ⟨c', hblock⟩
    · rw [hblock]
      exact Or.inl ⟨io, rfl, hrest⟩
    · rw [hblock]
      exact Or.inr ⟨_, c', rfl, rfl⟩
  | drop typeName count =>
    exact Or.inl ⟨c.io, readPush_drop hwords.1 hwords.2, by simpa [Push.block] using h⟩
  | note text =>
    refine Or.inl ⟨c.io, ?_, by simpa [Push.block] using h⟩
    have hmsg : ¬(Push.note text).code = status.MSG := show ¬status.NOTE = status.MSG by decide
    have hdrop : ¬(Push.note text).code = status.DROP := show ¬status.NOTE = status.DROP by decide
    unfold readPush
    dsimp only
    rw [if_neg hmsg, if_neg hdrop]
    rfl

/-- **The line of a push** is read, and what is behind it, or there is an error. -/
theorem readLine_push (hp : (OutUnit.push p).Legible)
    (h : c.io.remaining = Str.asBytes p.serialize ++ rest) :
    (∃ e c', c.readLine = (.error e, c') ∧ e.isReply = false) ∨
      ∃ line c₁, c.readLine = (.ok line, c₁) ∧ splitStatus line = .ok (p.code, p.text) ∧
        ((∃ io, c₁.readPush p.code p.text = (.ok (ofPush p), { c with io := io }) ∧
            io.remaining = rest) ∨
          ∃ e c', c₁.readPush p.code p.text = (.error e, c') ∧ e.isReply = false) := by
  obtain ⟨hlow, hhigh⟩ := code_range p
  rw [asBytes_push, List.append_assoc] at h
  rcases readLine_wire h (newline_notMem_pushLine hp.framed) with
    ⟨io, hline, hrest, hlen⟩ | ⟨c', hline⟩
  · have hsplit := splitStatus_statusLine hlow (lt_trans hhigh (by decide)) p.text
    have htwo : 2 ≤ ({ c with io := io } : Client).maxLine :=
      two_le_of_line hlow (lt_trans hhigh (by decide)) hlen
    exact Or.inr ⟨_, _, hline, hsplit, readPush_legible hp htwo hrest⟩
  · exact Or.inl ⟨_, c', hline, rfl⟩

/-- **A push in front** is kept in front of a reply, or there is no reply. -/
theorem readResponse_legible (hp : (OutUnit.push p).Legible)
    (h : c.io.remaining = Str.asBytes p.serialize ++ rest) :
    c.NoReply ∨ ∃ io, c.readResponse =
        readResponse { c with io := io, pending := c.pending ++ [ofPush p] } ∧
      io.remaining = rest := by
  have hasync : status.isAsync p.code = true := (status.isAsync_iff _).mpr (code_range p)
  rcases readLine_push hp h with ⟨e, c', hline, he⟩ | ⟨line, c₁, hline, hsplit, hblock⟩
  · exact Or.inl ⟨e, c', readResponse_error hline, he⟩
  · rcases hblock with ⟨io, hpush, hrest⟩ | ⟨e, c', hpush, he⟩
    · exact Or.inr ⟨io, readResponse_of_push hline hsplit hasync hpush, hrest⟩
    · refine Or.inl ⟨e, c', ?_, he⟩
      rw [readResponse_ok hline, hsplit]
      dsimp only
      rw [if_pos hasync, hpush]

/-- **A reply that is awaited**: there is none, or the pushes in front of it are kept. -/
theorem readResponse_faces (hfaces : c.Faces units) :
    c.NoReply ∨ ∃ r c', c.readResponse = (.ok r, c') ∧ c.Keeps units none c' := by
  induction units generalizing c with
  | nil => exact Or.inl (noReply_eof hfaces.remaining)
  | cons u units ih =>
    have hmore : ∀ v ∈ units, v.Legible := fun v hv => hfaces.legible v (List.mem_cons_of_mem u hv)
    have hio := hfaces.remaining
    rw [outStream_cons] at hio
    have hu := hfaces.legible u List.mem_cons_self
    cases u with
    | push p =>
      rcases readResponse_legible hu hio with hnone | ⟨io, hread, hrest⟩
      · exact Or.inl hnone
      · have htold : c.told (.push p :: units) =
            told { c with io := io, pending := c.pending ++ [ofPush p] } units := by
          simp [told]
        rcases ih (c := { c with io := io, pending := c.pending ++ [ofPush p] }) ⟨hrest, hmore⟩ with
          ⟨e, c', hnone, he⟩ | ⟨r, c', hreply, units', hfaces', hkept⟩
        · exact Or.inl ⟨e, c', hread.trans hnone, he⟩
        · exact Or.inr ⟨r, c', hread.trans hreply, units', hfaces', htold.trans hkept⟩
    | reply r =>
      rcases readResponse_reply_framed hu.framed hio with hnone | ⟨io, hread, hrest⟩
      · exact Or.inl hnone
      · exact Or.inr ⟨r, _, hread, units, ⟨hrest, hmore⟩, rfl⟩

/-- A reply that is expected. -/
theorem expect_faces (hfaces : c.Faces units) (expected : Code) :
    (∃ e c', c.expect expected = (.error e, c') ∧ e.isReply = false) ∨
      ∃ result c', c.expect expected = (result, c') ∧ c.Keeps units none c' := by
  rcases readResponse_faces hfaces with hnone | ⟨r, c', hread, hkeeps⟩
  · exact Or.inl (expect_noReply hnone expected)
  · exact Or.inr ⟨_, c', expect_reply hread expected, hkeeps⟩

/-- Calls after calls. -/
theorem Keeps.trans {units' : List OutUnit} {c'' : Client} (htold : c.told units = c'.told units')
    (h : c'.Keeps units' none c'') : c.Keeps units none c'' := by
  obtain ⟨units'', hfaces, hkept⟩ := h
  exact ⟨units'', hfaces, htold.trans hkept⟩

/-- **The next event** is that of the next push, or there is an error. -/
theorem nextEvent_faces (hfaces : c.Faces units) :
    (∃ e c', c.nextEvent = (.error e, c') ∧ e.isReply = false) ∨
      ∃ ev c', c.nextEvent = (.ok ev, c') ∧ c.Keeps units (some ev) c' := by
  cases hpending : c.pending with
  | cons ev pending =>
    refine Or.inr ⟨ev, _, nextEvent_kept hpending, units, ⟨hfaces.remaining, hfaces.legible⟩, ?_⟩
    unfold told
    rw [hpending]
    rfl
  | nil =>
    have hio := hfaces.remaining
    rw [nextEvent_eq hpending]
    cases units with
    | nil =>
      have hline : c.readLine = (.error .closed, c) := by
        unfold readLine
        rw [readLineFrom_none (BufReader.readByte_nil hio)]
      rw [hline]
      exact Or.inl ⟨.closed, c, rfl, rfl⟩
    | cons u units =>
      rw [outStream_cons] at hio
      have hmore : ∀ v ∈ units, v.Legible := fun v hv => hfaces.legible v (List.mem_cons_of_mem u hv)
      have hu := hfaces.legible u List.mem_cons_self
      cases u with
      | push p =>
        have hasync : status.isAsync p.code = true := (status.isAsync_iff _).mpr (code_range p)
        rcases readLine_push hu hio with ⟨e, c', hline, he⟩ | ⟨line, c₁, hline, hsplit, hblock⟩
        · rw [hline]
          exact Or.inl ⟨e, c', rfl, he⟩
        · rw [hline]
          simp only [andThen, hsplit, hasync, if_true]
          rcases hblock with ⟨io, hpush, hrest⟩ | ⟨e, c', hpush, he⟩
          · refine Or.inr ⟨ofPush p, { c with io := io }, hpush, units, ⟨hrest, hmore⟩, ?_⟩
            unfold told
            rw [hpending]
            rfl
          · exact Or.inl ⟨e, c', hpush, he⟩
      | reply r =>
        -- A reply where a push is awaited is an error, and the client gives up.
        have hreply : r.Framed := hu.framed
        obtain ⟨hlow, hhigh⟩ := hreply.range
        have hfirst : '\n' ∉ decimal r.code ++ ' ' :: r.text := by
          simp [hreply.text, notMem_decimal (show '\n'.isDigit = false by decide)]
        change c.io.remaining = Str.asBytes r.serialize ++ _ at hio
        rw [asBytes_reply, List.append_assoc] at hio
        rcases readLine_wire hio hfirst with ⟨io, hline, _⟩ | ⟨c', hline⟩
        · have hsplit := splitStatus_statusLine (le_trans (by decide) hlow) hhigh r.text
          have hasync : ¬status.isAsync r.code = true := by
            rw [status.isAsync_iff]
            exact fun h => absurd h.2 (not_lt.mpr hlow)
          rw [hline]
          simp only [andThen, hsplit, if_neg hasync]
          exact Or.inl ⟨_, _, rfl, rfl⟩
        · rw [hline]
          exact Or.inl ⟨_, c', rfl, rfl⟩

/-- A value that is no event. -/
theorem event_map {α : Type} (o : Outcome α) {f : α → Answer} (hf : ∀ a ev, f a ≠ .event ev) :
    (o.map f).event = none := by
  obtain ⟨sent, e | a⟩ := o
  · rfl
  · unfold Outcome.event Outcome.map
    dsimp only [Except.map]
    split
    · next ev heq => exact absurd (Except.ok.inj heq) (hf a ev)
    · rfl

/-- Only `next_event` returns events. -/
theorem call_event {call : Call} (hcall : call ≠ .nextEvent) : (c.call call).1.event = none := by
  cases call with
  | nextEvent => exact absurd rfl hcall
  | _ => exact event_map _ fun _ _ => Answer.noConfusion

/-- **What a call returns**, and what it keeps. -/
theorem call_faces (hfaces : c.Faces units) (call : Call) :
    (c.call call).1.goesOn = false ∧ (c.call call).1.event = none ∨
      c.Keeps units (c.call call).1.event (c.call call).2 := by
  cases hrequest : call.asRequest with
  | some request =>
    -- One command and one reply.
    obtain ⟨line, expected, value⟩ := request
    have hcall := call_asRequest (c := c) hrequest
    have hnone : (c.call call).1.event = none := by
      refine call_event fun heq => ?_
      subst heq
      cases hrequest
    rcases expect_faces hfaces expected with ⟨e, c', hexpect, he⟩ | ⟨result, c', hexpect, hkeeps⟩
    · rw [hcall, Client.request, hexpect]
      exact Or.inl (goesOn_error rfl he)
    · rw [hnone, hcall, Client.request, hexpect]
      exact Or.inr hkeeps
  | none =>
    cases call with
    | nextEvent =>
      rcases nextEvent_faces hfaces with ⟨e, c', hnext, he⟩ | ⟨ev, c', hnext, hkeeps⟩
      · simp only [Client.call, hnext]
        exact Or.inl (goesOn_error rfl he)
      · simp only [Client.call, hnext]
        exact Or.inr hkeeps
    | publish typeName key body =>
      have hnone : (c.call (.publish typeName key body)).1.event = none :=
        call_event Call.noConfusion
      rcases readResponse_faces hfaces with ⟨e, c', hread, he⟩ | ⟨r, c', hread, hkeeps⟩
      · simp only [Client.call, Client.publish, hread]
        exact Or.inl (goesOn_error rfl he)
      · by_cases hcode : r.code ≠ status.START_BODY
        · rw [hnone]
          simp only [Client.call, Client.publish, hread, if_pos hcode]
          exact Or.inr hkeeps
        · -- The body is sent, and answered.
          obtain ⟨units', hfaces', hkept⟩ := hkeeps
          rcases expect_faces hfaces' status.ACCEPTED with
            ⟨e, c'', hexpect, he⟩ | ⟨result, c'', hexpect, hkeeps⟩
          · simp only [Client.call, Client.publish, hread, if_neg hcode, hexpect]
            exact Or.inl (goesOn_error rfl he)
          · rw [hnone]
            simp only [Client.call, Client.publish, hread, if_neg hcode, hexpect]
            exact Or.inr (Keeps.trans hkept hkeeps)
    | _ => cases hrequest

/-- The events that calls return, one call after another. -/
theorem heard_cons (c : Client) (call : Call) (calls : List Call) :
    c.heard (call :: calls) = (c.call call).1.event.toList ++
      if (c.call call).1.goesOn then (c.call call).2.heard calls else [] := rfl

/-- Where no call fails without a reply, these are the events of all calls. -/
theorem heard_eq_run {calls : List Call} (h : ∀ outcome ∈ (c.run calls).1, outcome.goesOn = true) :
    c.heard calls = (c.run calls).1.filterMap Outcome.event := by
  induction calls generalizing c with
  | nil => rfl
  | cons call calls ih =>
    have hrun : (c.run (call :: calls)).1 = (c.call call).1 :: ((c.call call).2.run calls).1 := rfl
    rw [hrun] at h ⊢
    rw [heard_cons, h _ List.mem_cons_self, if_pos rfl,
      ih fun outcome hmem => h outcome (List.mem_cons_of_mem _ hmem), List.filterMap_cons]
    cases (c.call call).1.event with
    | none => rfl
    | some ev => rfl

/-- **A client hears what is pushed to it**, in order and each push once. -/
theorem heard_prefix (hfaces : c.Faces units) (calls : List Call) :
    c.heard calls <+: c.told units := by
  induction calls generalizing c units with
  | nil => exact List.nil_prefix
  | cons call calls ih =>
    rw [heard_cons]
    rcases call_faces hfaces call with ⟨hstops, hnone⟩ | ⟨units', hfaces', hkept⟩
    · rw [hstops, hnone]
      exact List.nil_prefix
    · rw [hkept, List.prefix_append_right_inj]
      split
      · exact ih hfaces'
      · exact List.nil_prefix

/-- **Nothing is lost on the way**: where no call fails without a reply, what a client was told and
has not heard, it has kept or has still to read. -/
theorem told_run (hfaces : c.Faces units) {calls : List Call}
    (h : ∀ outcome ∈ (c.run calls).1, outcome.goesOn = true) :
    ∃ units', (c.run calls).2.Faces units' ∧
      c.told units = c.heard calls ++ (c.run calls).2.told units' := by
  induction calls generalizing c units with
  | nil => exact ⟨units, hfaces, rfl⟩
  | cons call calls ih =>
    have hrun : c.run (call :: calls) = ((c.call call).1 :: ((c.call call).2.run calls).1,
        ((c.call call).2.run calls).2) := rfl
    rw [hrun] at h ⊢
    have hgoes := h _ List.mem_cons_self
    rcases call_faces hfaces call with ⟨hstops, _⟩ | ⟨units₁, hfaces₁, hkept⟩
    · rw [hstops] at hgoes
      cases hgoes
    · obtain ⟨units', hfaces', htold⟩ :=
        ih hfaces₁ fun outcome hmem => h outcome (List.mem_cons_of_mem _ hmem)
      refine ⟨units', hfaces', ?_⟩
      rw [hkept, htold, heard_cons, hgoes, if_pos rfl, List.append_assoc]

/-- A client with more to read hears more. -/
theorem Grows.heard {d : Client} (h : Grows c d) (calls : List Call) :
    c.heard calls <+: d.heard calls := by
  induction calls generalizing c d with
  | nil => exact List.nil_prefix
  | cons call calls ih =>
    rw [heard_cons, heard_cons]
    rcases h.call call with ⟨hstops, hnone⟩ | ⟨hsame, hgrows⟩
    · rw [hstops, hnone]
      exact List.nil_prefix
    · rw [hsame, List.prefix_append_right_inj]
      split
      · exact ih hgrows
      · exact List.nil_prefix

/-- **A client that is made** behind the greeting stands in front of the units. -/
theorem faces_greeted {id : Str} {io : BufReader UInt8} {k : Client} (hid : '\n' ∉ id)
    (hunits : ∀ u ∈ units, u.Legible) (hio : io.remaining = wireLine (greeting id) ++ outStream units)
    (hclient : fromStream io = .ok k) : k.Faces units ∧ k.pending = [] := by
  have hgreeting : '\n' ∉ greeting id := by
    have hdigits := notMem_decimal (show '\n'.isDigit = false by decide) status.SERVICE_READY
    have hproto : '\n' ∉ PROTOCOL_ID := by decide
    simp [greeting, hid, hdigits, hproto]
  by_cases hlen : (greeting id).len + 1 ≤ DEFAULT_MAX_LINE
  · obtain ⟨io', hstream, hrest⟩ := fromStream_greeting hio ⟨hgreeting, hlen⟩
    obtain rfl := Except.ok.inj (hclient.symm.trans hstream)
    exact ⟨⟨hrest, hunits⟩, rfl⟩
  · have hread := readLine_tooLong (c := { io := io }) hio hgreeting (Nat.lt_of_not_le hlen)
    unfold fromStream at hclient
    split at hclient
    · cases hclient
    · next heq =>
      rw [heq] at hread
      cases hread

/-- **Whatever part of a daemon's output reaches a client**, it hears the pushes in it. -/
theorem heard_greeted {id : Str} {io : BufReader UInt8} {k : Client} (hid : '\n' ∉ id)
    (hunits : ∀ u ∈ units, u.Legible) (hio : io.remaining <+: wireLine (greeting id) ++ outStream units)
    (hclient : fromStream io = .ok k) (calls : List Call) :
    k.heard calls <+: (OutUnit.pushes units).map ofPush := by
  -- Compare with a client that receives all of it.
  rw [← BufReader.remaining_ofList (wireLine (greeting id) ++ outStream units)] at hio
  obtain ⟨d, hwhole, hgrows⟩ := fromStream_grows hio hclient
  obtain ⟨hfaces, hpending⟩ := faces_greeted hid hunits (BufReader.remaining_ofList _) hwhole
  have htold := heard_prefix hfaces calls
  rw [told, hpending] at htold
  exact (hgrows.heard calls).trans htold

end Reading

end Client

end MacroBus
