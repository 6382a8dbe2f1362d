import MacroBus.Client.Reading

/-!
# The client inverts the daemon's output

A daemon writes pushes and replies in one stream. A client that calls its methods in any
order that the stream has answers for gets the replies in the order of its commands, and
the pushes in the order of the stream, as if they had come over two streams.
-/

namespace MacroBus

namespace OutUnit

/-- The replies of a stream. -/
def replies (units : List OutUnit) : List Reply :=
  units.filterMap fun
    | .reply r => some r
    | .push _ => none

/-- The pushes of a stream. -/
def pushes (units : List OutUnit) : List Push :=
  units.filterMap fun
    | .reply _ => none
    | .push p => some p

/-- The pushes in front of the first reply, that reply, and what follows it. -/
def untilReply : List OutUnit → Option (List Push × Reply × List OutUnit)
  | [] => none
  | .reply r :: units => some ([], r, units)
  | .push p :: units => (untilReply units).map fun (ps, r, rest) => (p :: ps, r, rest)

/-- What stands up to the first reply. -/
theorem untilReply_eq_some {units rest : List OutUnit} {ps : List Push} {r : Reply}
    (h : untilReply units = some (ps, r, rest)) : units = ps.map .push ++ .reply r :: rest := by
  induction units generalizing ps with
  | nil => cases h
  | cons u units ih =>
    cases u with
    | reply r' =>
      obtain ⟨rfl, h2⟩ := Prod.mk.inj (Option.some.inj h)
      obtain ⟨rfl, rfl⟩ := Prod.mk.inj h2
      rfl
    | push p =>
      obtain ⟨⟨ps', r', rest'⟩, h', heq⟩ := Option.map_eq_some_iff.mp h
      obtain ⟨rfl, h2⟩ := Prod.mk.inj heq
      obtain ⟨rfl, rfl⟩ := Prod.mk.inj h2
      rw [List.map_cons, List.cons_append, ← ih h']

@[simp] theorem replies_nil : replies [] = [] := rfl

@[simp] theorem replies_reply (r : Reply) (units : List OutUnit) :
    replies (.reply r :: units) = r :: replies units := rfl

@[simp] theorem replies_push (p : Push) (units : List OutUnit) :
    replies (.push p :: units) = replies units := rfl

@[simp] theorem pushes_nil : pushes [] = [] := rfl

@[simp] theorem pushes_reply (r : Reply) (units : List OutUnit) :
    pushes (.reply r :: units) = pushes units := rfl

@[simp] theorem pushes_push (p : Push) (units : List OutUnit) :
    pushes (.push p :: units) = p :: pushes units := rfl

/-- Pushes in front add no reply. -/
@[simp] theorem replies_map_push_append (ps : List Push) (units : List OutUnit) :
    replies (ps.map .push ++ units) = replies units := by
  induction ps with
  | nil => rfl
  | cons p ps ih => exact ih

/-- Pushes in front come first. -/
@[simp] theorem pushes_map_push_append (ps : List Push) (units : List OutUnit) :
    pushes (ps.map .push ++ units) = ps ++ pushes units := by
  induction ps with
  | nil => rfl
  | cons p ps ih => exact congrArg (p :: ·) ih

end OutUnit

namespace Client

/-- A call of a client. -/
inductive Call
  | register (typeName key : Str)
  | subscribe (typeName : Str)
  | unsubscribe (typeName : Str)
  | publish (typeName key : Str) (body : List Str)
  | listTypes
  | capabilities
  | help
  | quit
  | nextEvent
  deriving DecidableEq

/-- What a call returns when it succeeds. -/
inductive Answer
  | done
  | lines (lines : List Str)
  | event (ev : Event)
  deriving DecidableEq

/-- Make a call. -/
def call (c : Client) : Call → Outcome Answer × Client
  | .register typeName key => (c.register typeName key).map (Outcome.map fun _ => .done) id
  | .subscribe typeName => (c.subscribe typeName).map (Outcome.map fun _ => .done) id
  | .unsubscribe typeName => (c.unsubscribe typeName).map (Outcome.map fun _ => .done) id
  | .publish typeName key body => (c.publish typeName key body).map (Outcome.map fun _ => .done) id
  | .listTypes => c.listTypes.map (Outcome.map .lines) id
  | .capabilities => c.capabilities.map (Outcome.map .lines) id
  | .help => c.help.map (Outcome.map .lines) id
  | .quit => c.quit.map (Outcome.map fun _ => .done) id
  | .nextEvent => c.nextEvent.map (fun result => ⟨[], result.map .event⟩) id

/-- Make calls one after another. -/
def run (c : Client) : List Call → List (Outcome Answer) × Client
  | [] => ([], c)
  | call :: calls =>
    let (outcome, c') := c.call call
    let (outcomes, c'') := run c' calls
    (outcome :: outcomes, c'')

/-- The command line of a call that is one request, the code it expects, and what it returns
of the reply. -/
def Call.asRequest : Call → Option (Str × Code × (Response → Answer))
  | .register typeName key =>
    some ("REGISTER ".toList ++ typeName ++ ' ' :: key, status.REGISTERED, fun _ => .done)
  | .subscribe typeName => some ("SUBSCRIBE ".toList ++ typeName, status.SUBSCRIBED, fun _ => .done)
  | .unsubscribe typeName =>
    some ("UNSUBSCRIBE ".toList ++ typeName, status.UNSUBSCRIBED, fun _ => .done)
  | .listTypes => some ("LIST TYPES".toList, status.TYPE_LIST, fun r => .lines (r.block.getD []))
  | .capabilities =>
    some ("CAPABILITIES".toList, status.INFO_FOLLOWS, fun r => .lines (r.block.getD []))
  | .help => some ("HELP".toList, status.INFO_FOLLOWS, fun r => .lines (r.block.getD []))
  | .quit => some ("QUIT".toList, status.CLOSING, fun _ => .done)
  | .publish .. | .nextEvent => none

/-- What a command returns for its own reply. -/
def verdict (expected : Code) (value : Response → Answer) (r : Reply) : Except Error Answer :=
  if r.code = expected then .ok (value r) else .error (.server r.code r.text)

/-- What a call returns where replies and events come over two streams, and what it leaves of
them. -/
def Call.answer (call : Call) (replies : List Reply) (events : List Event) :
    Option (Outcome Answer × List Reply × List Event) :=
  match call, replies, events with
  | .nextEvent, replies, ev :: events => some (⟨[], .ok (.event ev)⟩, replies, events)
  | .nextEvent, _, [] => none
  | .publish typeName key body, r :: replies, events =>
    let line := send ("PUBLISH ".toList ++ typeName ++ ' ' :: key)
    if r.code ≠ status.START_BODY then
      some (⟨line, .error (.server r.code r.text)⟩, replies, events)
    else
      match replies with
      | [] => none
      | r :: replies =>
        some (⟨line ++ Str.asBytes (frame.encodeBody body),
          verdict status.ACCEPTED (fun _ => .done) r⟩, replies, events)
  | call, r :: replies, events =>
    call.asRequest.map fun (line, expected, value) =>
      (⟨send line, verdict expected value r⟩, replies, events)
  | _, [], _ => none

/-- The event a call returned, if it did. -/
def Outcome.event (outcome : Outcome Answer) : Option Event :=
  match outcome.result with
  | .ok (.event ev) => some ev
  | _ => none

/-- What calls return where replies and events come over two streams. -/
def answers : List Call → List Reply → List Event → List (Outcome Answer)
  | [], _, _ => []
  | call :: calls, replies, events =>
    match call.answer replies events with
    | none => []
    | some (outcome, replies', events') => outcome :: answers calls replies' events'

/-- How far a call reads: the number of pushes that are kept after it, and the units that are
left. `none` where the stream has nothing for it: a command needs a reply, `next_event` a
push that is kept or comes next. -/
def Call.advance (call : Call) (kept : ℕ) (units : List OutUnit) : Option (ℕ × List OutUnit) :=
  match call with
  | .nextEvent =>
    match kept, units with
    | kept + 1, units => some (kept, units)
    | 0, .push _ :: units => some (0, units)
    | 0, _ => none
  | .publish .. =>
    match OutUnit.untilReply units with
    | none => none
    | some (ps, r, units) =>
      if r.code ≠ status.START_BODY then some (kept + ps.length, units)
      else
        (OutUnit.untilReply units).map fun (ps', _, units) =>
          (kept + ps.length + ps'.length, units)
  | _ => (OutUnit.untilReply units).map fun (ps, _, units) => (kept + ps.length, units)

/-- Whether a stream has an answer for every call, in the order in which they are made. -/
def consistent : List Call → ℕ → List OutUnit → Bool
  | [], _, _ => true
  | call :: calls, kept, units =>
    match call.advance kept units with
    | none => false
    | some (kept', units') => consistent calls kept' units'

section Simulation

variable {c : Client} {units : List OutUnit}

/-- A call that is one request. -/
theorem call_asRequest {call : Call} {line : Str} {expected : Code} {value : Response → Answer}
    (h : call.asRequest = some (line, expected, value)) :
    c.call call = c.request line expected value := by
  cases call with
  | publish typeName key body => cases h
  | nextEvent => cases h
  | _ =>
    obtain ⟨rfl, h2⟩ := Prod.mk.inj (Option.some.inj h)
    obtain ⟨rfl, rfl⟩ := Prod.mk.inj h2
    simp only [Client.call, register, subscribe, unsubscribe, listTypes, capabilities, help, quit,
      request, Prod.map, Outcome.map, id]
    cases (c.expect _).1 <;> rfl

/-- **The next reply of a stream.** The pushes in front of it are kept. -/
theorem readResponse_units {rest : List OutUnit} {ps : List Push} {r : Reply}
    (hio : c.io.remaining = outStream units) (hfits : ∀ u ∈ units, u.Fits c.maxLine)
    (hunits : OutUnit.untilReply units = some (ps, r, rest)) :
    ∃ io, c.readResponse = (.ok r, { c with io := io, pending := c.pending ++ ps.map ofPush }) ∧
      io.remaining = outStream rest := by
  obtain rfl := OutUnit.untilReply_eq_some hunits
  clear hunits
  induction ps generalizing c with
  | nil =>
    rw [List.map_nil, List.nil_append, outStream_cons] at hio
    obtain ⟨io, hread, hrest⟩ := readResponse_reply (hfits (.reply r) (by simp)) hio
    exact ⟨io, by rw [hread, List.map_nil, List.append_nil], hrest⟩
  | cons p ps ih =>
    rw [List.map_cons, List.cons_append, outStream_cons] at hio
    obtain ⟨io₁, hread, hrest₁⟩ := readResponse_push (hfits (.push p) (by simp)) hio
    obtain ⟨io, hread', hrest⟩ :=
      ih (c := { c with io := io₁, pending := c.pending ++ [ofPush p] }) hrest₁
        fun u hu => hfits u (by simp only [List.map_cons, List.cons_append, List.mem_cons, hu, or_true])
    refine ⟨io, ?_, hrest⟩
    rw [hread, hread', List.map_cons, List.append_assoc, List.singleton_append]

/-- A reply that is expected, or not. -/
theorem expect_units {rest : List OutUnit} {ps : List Push} {r : Reply} (expected : Code)
    (hio : c.io.remaining = outStream units) (hfits : ∀ u ∈ units, u.Fits c.maxLine)
    (hunits : OutUnit.untilReply units = some (ps, r, rest)) :
    ∃ io, c.expect expected =
        (if r.code = expected then .ok r else .error (.server r.code r.text),
          { c with io := io, pending := c.pending ++ ps.map ofPush }) ∧
      io.remaining = outStream rest := by
  obtain ⟨io, hread, hrest⟩ := readResponse_units hio hfits hunits
  refine ⟨io, ?_, hrest⟩
  unfold expect
  rw [hread]
  dsimp only
  split <;> rfl

/-- What is returned for an expected reply. -/
theorem map_expected (expected : Code) (value : Response → Answer) (r : Reply) :
    (if r.code = expected then .ok r else .error (.server r.code r.text) :
      Except Error Response).map value = verdict expected value r := by
  unfold verdict
  split <;> rfl

/-- How far a request reads. -/
theorem advance_asRequest {call : Call} {kept : ℕ} (h : call.asRequest ≠ none) :
    call.advance kept units =
      (OutUnit.untilReply units).map fun (ps, _, units) => (kept + ps.length, units) := by
  cases call with
  | publish typeName key body => exact absurd rfl h
  | nextEvent => exact absurd rfl h
  | _ => rfl

/-- What a request returns. -/
theorem answer_asRequest {call : Call} {line : Str} {expected : Code} {value : Response → Answer}
    (h : call.asRequest = some (line, expected, value)) (r : Reply) (replies : List Reply)
    (events : List Event) : call.answer (r :: replies) events =
      some (⟨send line, verdict expected value r⟩, replies, events) := by
  cases call with
  | publish typeName key body => cases h
  | nextEvent => cases h
  | _ =>
    obtain ⟨rfl, h2⟩ := Prod.mk.inj (Option.some.inj h)
    obtain ⟨rfl, rfl⟩ := Prod.mk.inj h2
    rfl

/-- A request returns no event. -/
theorem verdict_event (line : Bytes) (expected : Code) (value : Response → Answer) (r : Reply)
    (hvalue : ∀ ev, value r ≠ .event ev) : Outcome.event ⟨line, verdict expected value r⟩ = none := by
  unfold Outcome.event verdict
  split
  · next ev heq =>
    split at heq
    · exact absurd (Except.ok.inj heq) (hvalue ev)
    · cases heq
  · rfl

/-- **No event is lost**: a call takes an event off its stream exactly where it returns it. -/
theorem answer_event {call : Call} {replies replies' : List Reply} {events events' : List Event}
    {outcome : Outcome Answer} (h : call.answer replies events = some (outcome, replies', events')) :
    events = outcome.event.toList ++ events' := by
  cases hrequest : call.asRequest with
  | some request =>
    obtain ⟨line, expected, value⟩ := request
    cases replies with
    | nil =>
      cases call with
      | publish typeName key body => cases hrequest
      | nextEvent => cases hrequest
      | _ => cases h
    | cons r replies =>
      rw [answer_asRequest hrequest] at h
      obtain ⟨rfl, h2⟩ := Prod.mk.inj (Option.some.inj h)
      obtain ⟨rfl, rfl⟩ := Prod.mk.inj h2
      rw [verdict_event]
      · rfl
      · intro ev
        cases call with
        | publish typeName key body => cases hrequest
        | nextEvent => cases hrequest
        | _ =>
          obtain ⟨_, h3⟩ := Prod.mk.inj (Option.some.inj hrequest)
          obtain ⟨_, rfl⟩ := Prod.mk.inj h3
          exact fun heq => by cases heq
  | none =>
    cases call with
    | nextEvent =>
      cases events with
      | nil => cases h
      | cons ev events =>
        obtain ⟨rfl, h2⟩ := Prod.mk.inj (Option.some.inj h)
        obtain ⟨_, rfl⟩ := Prod.mk.inj h2
        rfl
    | publish typeName key body =>
      cases replies with
      | nil => cases h
      | cons r replies =>
        unfold Call.answer at h
        dsimp only at h
        split at h
        · obtain ⟨rfl, h2⟩ := Prod.mk.inj (Option.some.inj h)
          obtain ⟨_, rfl⟩ := Prod.mk.inj h2
          rfl
        · cases replies with
          | nil => cases h
          | cons r' replies =>
            obtain ⟨rfl, h2⟩ := Prod.mk.inj (Option.some.inj h)
            obtain ⟨_, rfl⟩ := Prod.mk.inj h2
            rw [verdict_event _ _ _ _ fun ev heq => by cases heq]
            rfl
    | _ => cases hrequest

/-- How a client stands behind a call: what it returned is what the two streams have for it. -/
structure Follows (c : Client) (units : List OutUnit) (call : Call) (outcome : Outcome Answer)
    (c' : Client) (units' : List OutUnit) : Prop where
  /-- What is left of the stream. -/
  remaining : c'.io.remaining = outStream units'
  /-- The cap stays. -/
  maxLine : c'.maxLine = c.maxLine
  /-- The units are read in order. -/
  suffix : units' <:+ units
  /-- What is returned, and what is left of the two streams. -/
  answer : call.answer (OutUnit.replies units) (c.pending ++ (OutUnit.pushes units).map ofPush) =
    some (outcome, OutUnit.replies units', c'.pending ++ (OutUnit.pushes units').map ofPush)

/-- **One call.** -/
theorem call_units {call : Call} {kept' : ℕ} {units' : List OutUnit}
    (hio : c.io.remaining = outStream units) (hfits : ∀ u ∈ units, u.Fits c.maxLine)
    (hadvance : call.advance c.pending.length units = some (kept', units')) :
    ∃ outcome c', c.call call = (outcome, c') ∧ c'.pending.length = kept' ∧
      Follows c units call outcome c' units' := by
  have hsuffix : ∀ {before after : List OutUnit} {ps : List Push} {r : Reply},
      OutUnit.untilReply before = some (ps, r, after) → after <:+ before := by
    intro before after ps r h
    rw [OutUnit.untilReply_eq_some h]
    exact ⟨ps.map .push ++ [.reply r], by simp⟩
  cases hrequest : call.asRequest with
  | some request =>
    -- One command and one reply.
    obtain ⟨line, expected, value⟩ := request
    rw [advance_asRequest (by rw [hrequest]; exact Option.some_ne_none _)] at hadvance
    obtain ⟨⟨ps, r, rest⟩, hunits, heq⟩ := Option.map_eq_some_iff.mp hadvance
    obtain ⟨rfl, rfl⟩ := Prod.mk.inj heq
    obtain ⟨io, hexpect, hrest⟩ := expect_units expected hio hfits hunits
    refine ⟨⟨send line, verdict expected value r⟩,
      { c with io := io, pending := c.pending ++ ps.map ofPush }, ?_, by simp, hrest, rfl,
      hsuffix hunits, ?_⟩
    · rw [call_asRequest hrequest, Client.request, hexpect]
      dsimp only
      rw [map_expected]
    · rw [OutUnit.untilReply_eq_some hunits, OutUnit.replies_map_push_append,
        OutUnit.pushes_map_push_append, OutUnit.replies_reply, OutUnit.pushes_reply,
        answer_asRequest hrequest, List.map_append, ← List.append_assoc]
  | none =>
    cases call with
    | nextEvent =>
      cases hpending : c.pending with
      | cons ev pending =>
        rw [hpending] at hadvance
        obtain ⟨rfl, rfl⟩ := Prod.mk.inj (Option.some.inj hadvance)
        refine ⟨⟨[], .ok (.event ev)⟩, { c with pending := pending }, ?_, rfl, hio, rfl,
          List.suffix_refl _, ?_⟩
        · simp only [Client.call, Client.nextEvent, hpending]
          rfl
        · rw [hpending]
          rfl
      | nil =>
        rw [hpending] at hadvance
        cases units with
        | nil => cases hadvance
        | cons u units =>
          cases u with
          | reply r => cases hadvance
          | push p =>
            obtain ⟨rfl, rfl⟩ := Prod.mk.inj (Option.some.inj hadvance)
            rw [outStream_cons] at hio
            obtain ⟨io, hread, hrest⟩ := nextEvent_push hpending (hfits (.push p) (by simp)) hio
            refine ⟨⟨[], .ok (.event (ofPush p))⟩, { c with io := io }, ?_,
              by rw [hpending]; rfl, hrest, rfl, List.suffix_cons _ _, ?_⟩
            · simp only [Client.call, hread]
              rfl
            · simp only [hpending]
              rfl
    | publish typeName key body =>
      unfold Call.advance at hadvance
      dsimp only at hadvance
      cases hunits : OutUnit.untilReply units with
      | none =>
        rw [hunits] at hadvance
        cases hadvance
      | some p =>
        obtain ⟨ps, r, rest⟩ := p
        rw [hunits] at hadvance
        dsimp only at hadvance
        obtain ⟨io, hread, hrest⟩ := readResponse_units hio hfits hunits
        by_cases hcode : r.code ≠ status.START_BODY
        · -- The command was refused.
          rw [if_pos hcode] at hadvance
          obtain ⟨rfl, rfl⟩ := Prod.mk.inj (Option.some.inj hadvance)
          refine ⟨⟨send ("PUBLISH ".toList ++ typeName ++ ' ' :: key),
            .error (.server r.code r.text)⟩,
            { c with io := io, pending := c.pending ++ ps.map ofPush }, ?_, by simp, hrest, rfl,
            hsuffix hunits, ?_⟩
          · unfold Client.call Client.publish
            dsimp only
            rw [hread]
            dsimp only
            rw [if_pos hcode]
            rfl
          · rw [OutUnit.untilReply_eq_some hunits, OutUnit.replies_map_push_append,
              OutUnit.pushes_map_push_append, OutUnit.replies_reply, OutUnit.pushes_reply,
              List.map_append, ← List.append_assoc]
            unfold Call.answer
            dsimp only
            rw [if_pos hcode]
        · -- The body is sent, and answered.
          rw [if_neg hcode] at hadvance
          obtain ⟨⟨ps', r', rest'⟩, hunits', heq⟩ := Option.map_eq_some_iff.mp hadvance
          obtain ⟨rfl, rfl⟩ := Prod.mk.inj heq
          have hfits' : ∀ u ∈ rest, u.Fits c.maxLine := fun u hu =>
            hfits u ((hsuffix hunits).subset hu)
          obtain ⟨io', hexpect, hrest'⟩ := expect_units
            (c := { c with io := io, pending := c.pending ++ ps.map ofPush }) status.ACCEPTED hrest
            hfits' hunits'
          refine ⟨⟨send ("PUBLISH ".toList ++ typeName ++ ' ' :: key) ++
              Str.asBytes (frame.encodeBody body), verdict status.ACCEPTED (fun _ => .done) r'⟩,
            { c with io := io', pending := c.pending ++ ps.map ofPush ++ ps'.map ofPush }, ?_,
            by simp [Nat.add_assoc], hrest', rfl, (hsuffix hunits').trans (hsuffix hunits), ?_⟩
          · unfold Client.call Client.publish
            dsimp only
            rw [hread]
            dsimp only
            rw [if_neg hcode, hexpect]
            unfold verdict
            dsimp only [Prod.map, Outcome.map, id]
            split <;> rfl
          · rw [OutUnit.untilReply_eq_some hunits, OutUnit.untilReply_eq_some hunits']
            simp only [OutUnit.replies_map_push_append, OutUnit.pushes_map_push_append,
              OutUnit.replies_reply, OutUnit.pushes_reply, List.map_append, List.append_assoc]
            unfold Call.answer
            dsimp only
            rw [if_neg hcode]
            simp only [List.append_assoc]
    | _ => cases hrequest

/-- The first of several calls. -/
theorem run_cons {call : Call} {calls : List Call} {outcome : Outcome Answer} {c' : Client}
    (h : c.call call = (outcome, c')) :
    c.run (call :: calls) = (outcome :: (c'.run calls).1, (c'.run calls).2) := by
  simp only [run, h]

/-- **Several calls.** -/
theorem run_units {calls : List Call} (hio : c.io.remaining = outStream units)
    (hfits : ∀ u ∈ units, u.Fits c.maxLine)
    (hcalls : consistent calls c.pending.length units = true) :
    ∃ c' units', c.run calls = (answers calls (OutUnit.replies units)
        (c.pending ++ (OutUnit.pushes units).map ofPush), c') ∧
      c'.io.remaining = outStream units' ∧ units' <:+ units ∧
      c.pending ++ (OutUnit.pushes units).map ofPush =
        (c.run calls).1.filterMap Outcome.event ++ c'.pending ++
          (OutUnit.pushes units').map ofPush := by
  induction calls generalizing c units with
  | nil => exact ⟨c, units, rfl, hio, List.suffix_refl _, rfl⟩
  | cons call calls ih =>
    unfold consistent at hcalls
    cases hadvance : call.advance c.pending.length units with
    | none =>
      rw [hadvance] at hcalls
      cases hcalls
    | some p =>
      obtain ⟨kept', units₁⟩ := p
      rw [hadvance] at hcalls
      obtain ⟨outcome, c₁, hcall, rfl, hfollows⟩ := call_units hio hfits hadvance
      have hfits₁ : ∀ u ∈ units₁, u.Fits c₁.maxLine := by
        intro u hu
        rw [hfollows.maxLine]
        exact hfits u (hfollows.suffix.subset hu)
      obtain ⟨c', units', hrun, hrest, hsuffix, hevents⟩ := ih hfollows.remaining hfits₁ hcalls
      refine ⟨c', units', ?_, hrest, hsuffix.trans hfollows.suffix, ?_⟩
      · unfold answers
        rw [run_cons hcall, hfollows.answer, hrun]
      · rw [answer_event hfollows.answer, hevents, run_cons hcall, List.filterMap_cons]
        cases outcome.event with
        | none => rfl
        | some ev => rfl

/-- **The client inverts the daemon's output.** On the greeting and any units whose lines fit,
the calls that the stream has answers for return what they would if the replies and the
pushes came over two streams: each command its own reply, `next_event` the pushes in order.
Every push has been returned, is kept, or is still to be read, and the client stands between
two units. -/
theorem inverts_daemon_output {id : Str} {units : List OutUnit} {calls : List Call}
    {io : BufReader UInt8} (hio : io.remaining = wireLine (greeting id) ++ outStream units)
    (hgreeting : LineFits DEFAULT_MAX_LINE (greeting id))
    (hunits : ∀ u ∈ units, u.Fits DEFAULT_MAX_LINE) (hcalls : consistent calls 0 units = true) :
    ∃ c c' units', fromStream io = .ok c ∧
      c.run calls = (answers calls (OutUnit.replies units) ((OutUnit.pushes units).map ofPush), c') ∧
      c'.io.remaining = outStream units' ∧ units' <:+ units ∧
      (OutUnit.pushes units).map ofPush = (c.run calls).1.filterMap Outcome.event ++ c'.pending ++
        (OutUnit.pushes units').map ofPush := by
  obtain ⟨io', hstream, hrest⟩ := fromStream_greeting hio hgreeting
  obtain ⟨c', units', hrun, hrest', hsuffix, hevents⟩ := run_units
    (c := { io := io', daemonId := Str.splitFirst ' ' (id ++ " macro-bus MBP/1.0 ready".toList) })
    hrest hunits hcalls
  exact ⟨_, c', units', hstream, hrun, hrest', hsuffix, hevents⟩

/-- Two pushes around a reply, one of them with a body that imitates replies; a list of types;
and a `PUBLISH` in two steps. -/
def alternating : List OutUnit :=
  [.push (.message ⟨"t".toList, "d-1".toList, "d".toList,
      ["211 subscribed t".toList, ".".toList, "250 message accepted".toList]⟩),
    .reply ⟨status.SUBSCRIBED, "subscribed t".toList, none⟩,
    .push (.drop "t".toList 3),
    .reply ⟨status.TYPE_LIST, "type list follows".toList, some ["t".toList]⟩,
    .reply ⟨status.START_BODY, "enter message body".toList, none⟩,
    .reply ⟨status.ACCEPTED, "message accepted".toList, none⟩]

/-- A client that subscribes, lists the types, publishes, and takes both pushes at the end. -/
theorem inverts_daemon_output_alternating :
    ∃ c c' units', fromStream (.ofList (wireLine (greeting "d".toList) ++ outStream alternating)) =
        .ok c ∧
      c.run [.subscribe "t".toList, .listTypes, .publish "t".toList "k".toList [], .nextEvent,
          .nextEvent] =
        (answers [.subscribe "t".toList, .listTypes, .publish "t".toList "k".toList [], .nextEvent,
          .nextEvent] (OutUnit.replies alternating) ((OutUnit.pushes alternating).map ofPush), c') ∧
      c'.io.remaining = outStream units' ∧ units' <:+ alternating ∧
      (OutUnit.pushes alternating).map ofPush =
        (c.run [.subscribe "t".toList, .listTypes, .publish "t".toList "k".toList [], .nextEvent,
          .nextEvent]).1.filterMap Outcome.event ++ c'.pending ++
          (OutUnit.pushes units').map ofPush :=
  inverts_daemon_output (BufReader.remaining_ofList _) (by decide) (by decide) (by decide)

end Simulation

end Client

end MacroBus
