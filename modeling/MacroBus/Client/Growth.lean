import MacroBus.Client.Calls
import MacroBus.Client.Demux

/-!
# A client with more to read

What a client makes of the octets it has read does not depend on those behind them. Of two
clients one of which has more to read, the other one returns the same from a call, or its stream
ends in it.
-/

namespace MacroBus

namespace Client

/-- The other client has at least as much to read, and is the same otherwise. -/
structure Grows (c d : Client) : Prop where
  /-- Only the stream may differ. -/
  same : d = { c with io := d.io }
  /-- It goes on. -/
  octets : c.io.remaining <+: d.io.remaining

/-- Both return the same, and may be called again, unless the first one has an error that is no
reply. -/
def Agrees {α : Type} (p q : Except Error α × Client) : Prop :=
  (∃ e, p.1 = .error e ∧ e.isReply = false) ∨ q.1 = p.1 ∧ Grows p.2 q.2

/-- Whether a client goes on after a call: it succeeds, or it is refused by a reply. -/
def Outcome.goesOn (outcome : Outcome Answer) : Bool :=
  match outcome.result with
  | .ok _ => true
  | .error e => e.isReply

/-- What follows where a value was read. -/
def andThen {α β : Type} (p : Except Error α × Client)
    (f : α → Client → Except Error β × Client) : Except Error β × Client :=
  match p with
  | (.error e, c) => (.error e, c)
  | (.ok a, c) => f a c

section Agreement

variable {α β : Type} {c d : Client} {p q : Except Error α × Client}

/-- An error that is no reply agrees with anything. -/
theorem Agrees.of_error {e : Error} (he : e.isReply = false) (c : Client) :
    Agrees (.error e, c) q := Or.inl ⟨e, rfl, he⟩

/-- The same result agrees with itself. -/
theorem Agrees.of_grows (h : Grows c d) (result : Except Error α) :
    Agrees (result, c) (result, d) := Or.inr ⟨rfl, h⟩

/-- **What follows agrees**, where what was read agrees. -/
theorem Agrees.andThen {f : α → Client → Except Error β × Client} (h : Agrees p q)
    (hf : ∀ a c' d', p = (.ok a, c') → Grows c' d' → Agrees (f a c') (f a d')) :
    Agrees (Client.andThen p f) (Client.andThen q f) := by
  obtain ⟨result, c'⟩ := p
  obtain ⟨result', d'⟩ := q
  rcases h with ⟨e, rfl, he⟩ | ⟨rfl, hgrows⟩
  · exact Agrees.of_error he c'
  · cases result' with
    | error e => exact Agrees.of_grows hgrows _
    | ok a => exact hf a c' d' rfl hgrows

end Agreement

section Reading

variable {c d : Client}

/-- A line that was read is read where there is more behind it. -/
theorem readLineFrom_grows {maxLine : ℕ} {io io' : BufReader UInt8} {line : Str} (buf : Bytes)
    (h : io.remaining <+: io'.remaining) (hline : (readLineFrom maxLine buf io).1 = .ok line) :
    (readLineFrom maxLine buf io').1 = .ok line ∧
      (readLineFrom maxLine buf io).2.remaining <+: (readLineFrom maxLine buf io').2.remaining := by
  induction hn : io.remaining.length using Nat.strong_induction_on generalizing buf io io' with
  | _ n ih =>
    have hspec := io.readByte_remaining
    cases hread : io.readByte with
    | none =>
      rw [readLineFrom_none hread] at hline
      cases hline
    | some p =>
      obtain ⟨byte, rest⟩ := p
      rw [hread] at hspec
      obtain ⟨more, hmore⟩ := h
      have hio' : io'.remaining = byte :: (rest.remaining ++ more) := by
        rw [← hmore, hspec, List.cons_append]
      obtain ⟨rest', hread', hrest'⟩ := BufReader.readByte_cons hio'
      have hgrows : rest.remaining <+: rest'.remaining := hrest' ▸ List.prefix_append _ _
      rw [readLineFrom_some hread] at hline ⊢
      rw [readLineFrom_some hread']
      by_cases hend : byte = LF
      · rw [if_pos hend] at hline ⊢
        rw [if_pos hend]
        exact ⟨hline, hgrows⟩
      · rw [if_neg hend] at hline ⊢
        rw [if_neg hend]
        by_cases hlong : (buf ++ [byte]).length > maxLine
        · rw [if_pos hlong] at hline
          cases hline
        · rw [if_neg hlong] at hline ⊢
          rw [if_neg hlong]
          exact ih _ (hn ▸ BufReader.readByte_lt hread) (buf ++ [byte]) hgrows hline rfl

/-- The errors of a line are no replies. -/
theorem isReply_readLineFrom {maxLine : ℕ} {buf : Bytes} {io : BufReader UInt8} {e : Error}
    (h : (readLineFrom maxLine buf io).1 = .error e) : e.isReply = false := by
  induction hn : io.remaining.length using Nat.strong_induction_on generalizing buf io with
  | _ n ih =>
    cases hread : io.readByte with
    | none =>
      rw [readLineFrom_none hread] at h
      cases h
      rfl
    | some p =>
      obtain ⟨byte, rest⟩ := p
      rw [readLineFrom_some hread] at h
      split at h
      · cases h
      · split at h
        · cases h
          rfl
        · exact ih _ (hn ▸ BufReader.readByte_lt hread) h rfl

/-- **A line.** -/
theorem Grows.readLine (h : Grows c d) : Agrees c.readLine d.readLine := by
  obtain ⟨hsame, hoctets⟩ := h
  cases hline : (readLineFrom c.maxLine [] c.io).1 with
  | error e => exact Or.inl ⟨e, hline, isReply_readLineFrom hline⟩
  | ok line =>
    obtain ⟨hline', hrest⟩ := readLineFrom_grows [] hoctets hline
    have hmax : d.maxLine = c.maxLine := by rw [hsame]
    refine Or.inr ⟨?_, ?_, ?_⟩
    · simp only [Client.readLine, hmax]
      rw [hline', hline]
    · rw [hsame]
      rfl
    · simp only [Client.readLine, hmax]
      exact hrest

/-- A block, line by line. -/
theorem readBlockFrom_eq (out : List Str) (c : Client) :
    readBlockFrom out c = andThen c.readLine fun line c' =>
      if line = frame.TERMINATOR then (.ok out, c')
      else readBlockFrom (out ++ [frame.unstuffLine line]) c' := by
  rcases hread : c.readLine with ⟨e | line, c'⟩
  · rw [readBlockFrom_error hread]
    rfl
  · rw [readBlockFrom_ok hread]
    rfl

/-- **A block.** -/
theorem Grows.readBlockFrom (h : Grows c d) (out : List Str) :
    Agrees (readBlockFrom out c) (readBlockFrom out d) := by
  induction hn : c.io.remaining.length using Nat.strong_induction_on generalizing out c d with
  | _ n ih =>
    rw [readBlockFrom_eq, readBlockFrom_eq]
    refine h.readLine.andThen fun line c' d' hread hgrows => ?_
    have hlt := readLine_lt hread
    split
    · exact Agrees.of_grows hgrows _
    · exact ih _ (hn ▸ hlt) hgrows _ rfl

/-- **A push**, behind its first line. -/
theorem Grows.readPush (h : Grows c d) (code : Code) (rest : Str) :
    Agrees (c.readPush code rest) (d.readPush code rest) := by
  unfold Client.readPush
  dsimp only
  split
  · split
    · exact Agrees.of_grows h _
    · split
      · exact Agrees.of_grows h _
      · have hblock : Agrees c.readBlock d.readBlock := h.readBlockFrom []
        generalize c.readBlock = p, d.readBlock = q at hblock ⊢
        obtain ⟨result, c'⟩ := p
        obtain ⟨result', d'⟩ := q
        rcases hblock with ⟨e, rfl, he⟩ | ⟨rfl, hgrows⟩
        · exact Agrees.of_error he c'
        · cases result' <;> exact Agrees.of_grows hgrows _
  · split
    · split
      · exact Agrees.of_grows h _
      · split <;> exact Agrees.of_grows h _
    · split <;> exact Agrees.of_grows h _

/-- A reply, line by line. -/
theorem readResponse_eq (c : Client) :
    c.readResponse = andThen c.readLine fun line c' =>
      match splitStatus line with
      | .error e => (.error e, c')
      | .ok (code, rest) =>
        if status.isAsync code then
          andThen (c'.readPush code rest) fun ev c'' =>
            readResponse { c'' with pending := c''.pending ++ [ev] }
        else if code = status.TYPE_LIST ∨ code = status.INFO_FOLLOWS then
          andThen c'.readBlock fun block c'' => (.ok ⟨code, rest, some block⟩, c'')
        else (.ok ⟨code, rest, none⟩, c') := by
  rcases hread : c.readLine with ⟨e | line, c'⟩
  · rw [readResponse_error hread]
    rfl
  · rw [readResponse_ok hread]
    unfold andThen
    dsimp only
    rcases splitStatus line with e | ⟨code, rest⟩
    · rfl
    · dsimp only
      split
      · rcases c'.readPush code rest with ⟨e | ev, c''⟩ <;> rfl
      · split
        · rcases c'.readBlock with ⟨e | block, c''⟩ <;> rfl
        · rfl

/-- What is kept is kept by both. -/
theorem Grows.keep (h : Grows c d) (pending : List Event) :
    Grows { c with pending := c.pending ++ pending } { d with pending := d.pending ++ pending } := by
  refine ⟨?_, h.octets⟩
  rw [h.same]

/-- **A reply.** -/
theorem Grows.readResponse (h : Grows c d) : Agrees c.readResponse d.readResponse := by
  induction hn : c.io.remaining.length using Nat.strong_induction_on generalizing c d with
  | _ n ih =>
    rw [readResponse_eq, readResponse_eq]
    refine h.readLine.andThen fun line c' d' hread hgrows => ?_
    have hlt := readLine_lt hread
    split
    · exact Agrees.of_grows hgrows _
    · next code rest hsplit =>
      split
      · refine (hgrows.readPush code rest).andThen fun ev c'' d'' hpush hmore => ?_
        have hle := readPush_le c' code rest
        rw [hpush] at hle
        exact ih _ (hn ▸ lt_of_le_of_lt hle hlt) (hmore.keep [ev]) rfl
      · split
        · exact (hgrows.readBlockFrom []).andThen fun block c'' d'' _ hmore =>
            Agrees.of_grows hmore _
        · exact Agrees.of_grows hgrows _

/-- **A reply that is expected.** -/
theorem Grows.expect (h : Grows c d) (expected : Code) :
    Agrees (c.expect expected) (d.expect expected) := by
  have heq : ∀ c : Client, c.expect expected = andThen c.readResponse fun resp c' =>
      if resp.code = expected then (.ok resp, c') else (.error (.server resp.code resp.text), c') := by
    intro c
    unfold Client.expect
    rcases c.readResponse with ⟨e | resp, c'⟩ <;> rfl
  rw [heq, heq]
  refine h.readResponse.andThen fun resp c' d' _ hgrows => ?_
  split <;> exact Agrees.of_grows hgrows _

/-- An event that is kept. -/
theorem nextEvent_kept {ev : Event} {pending : List Event} (h : c.pending = ev :: pending) :
    c.nextEvent = (.ok ev, { c with pending := pending }) := by
  unfold Client.nextEvent
  rw [h]

/-- Where none is kept, the next line begins one. -/
theorem nextEvent_eq (h : c.pending = []) :
    c.nextEvent = andThen c.readLine fun line c' =>
      match splitStatus line with
      | .error e => (.error e, c')
      | .ok (code, rest) =>
        if status.isAsync code then c'.readPush code rest
        else
          (.error (.protocol "unexpected non-1xx line while awaiting a push: ".toList line), c') := by
  unfold Client.nextEvent
  rw [h]
  rcases c.readLine with ⟨e | line, c'⟩ <;> rfl

/-- **The next event.** -/
theorem Grows.nextEvent (h : Grows c d) : Agrees c.nextEvent d.nextEvent := by
  have hpending : d.pending = c.pending := by rw [h.same]
  cases hkept : c.pending with
  | cons ev pending =>
    rw [nextEvent_kept hkept, nextEvent_kept (hpending.trans hkept)]
    have hrest : Grows { c with pending := pending } { d with pending := pending } := by
      refine ⟨?_, h.octets⟩
      rw [h.same]
    exact Agrees.of_grows hrest _
  | nil =>
    rw [nextEvent_eq hkept, nextEvent_eq (hpending.trans hkept)]
    refine h.readLine.andThen fun line c' d' _ hgrows => ?_
    split
    · exact Agrees.of_grows hgrows _
    · split
      · exact hgrows.readPush _ _
      · exact Agrees.of_grows hgrows _

end Reading

section Calls

variable {c d : Client}

/-- An error that is no reply ends it. -/
theorem goesOn_error {outcome : Outcome Answer} {e : Error} (h : outcome.result = .error e)
    (he : e.isReply = false) : outcome.goesOn = false ∧ outcome.event = none := by
  unfold Outcome.goesOn Outcome.event
  rw [h]
  exact ⟨he, rfl⟩

/-- **A call** sends and returns the same, unless the client does not go on. -/
theorem Grows.call (h : Grows c d) (call : Call) :
    (c.call call).1.goesOn = false ∧ (c.call call).1.event = none ∨
      (d.call call).1 = (c.call call).1 ∧ Grows (c.call call).2 (d.call call).2 := by
  cases hrequest : call.asRequest with
  | some request =>
    -- One command and one reply.
    obtain ⟨line, expected, value⟩ := request
    rw [call_asRequest hrequest, call_asRequest hrequest]
    unfold Client.request
    rcases h.expect expected with ⟨e, hresult, he⟩ | ⟨hresult, hgrows⟩
    · refine Or.inl (goesOn_error (e := e) ?_ he)
      dsimp only
      rw [hresult]
      rfl
    · refine Or.inr ⟨?_, hgrows⟩
      dsimp only
      rw [hresult]
  | none =>
    cases call with
    | nextEvent =>
      rcases h.nextEvent with ⟨e, hresult, he⟩ | ⟨hresult, hgrows⟩
      · refine Or.inl (goesOn_error (e := e) ?_ he)
        simp only [Client.call, Prod.map, hresult]
        rfl
      · refine Or.inr ⟨?_, hgrows⟩
        simp only [Client.call, Prod.map, hresult]
    | publish typeName key body =>
      have hread := h.readResponse
      simp only [Client.call, Client.publish]
      generalize c.readResponse = p, d.readResponse = q at hread ⊢
      obtain ⟨result, c'⟩ := p
      obtain ⟨result', d'⟩ := q
      rcases hread with ⟨e, rfl, he⟩ | ⟨rfl, hgrows⟩
      · exact Or.inl (goesOn_error rfl he)
      · cases result' with
        | error e => exact Or.inr ⟨rfl, hgrows⟩
        | ok resp =>
          dsimp only
          split
          · exact Or.inr ⟨rfl, hgrows⟩
          · -- The body is sent, and answered.
            rcases hgrows.expect status.ACCEPTED with ⟨e, hresult, he⟩ | ⟨hresult, hmore⟩
            · refine Or.inl (goesOn_error (e := e) ?_ he)
              simp only [Prod.map, Outcome.map, hresult]
              rfl
            · refine Or.inr ⟨?_, hmore⟩
              simp only [Prod.map, Outcome.map, hresult]
    | _ => cases hrequest

/-- **The greeting**: a client that was made is made where there is more behind it. -/
theorem fromStream_grows {io io' : BufReader UInt8} (h : io.remaining <+: io'.remaining)
    (hclient : fromStream io = .ok c) : ∃ d, fromStream io' = .ok d ∧ Grows c d := by
  have hstart : Grows { io := io } { io := io' } := ⟨rfl, h⟩
  have hread := hstart.readLine
  unfold fromStream at hclient ⊢
  generalize Client.readLine { io := io } = p, Client.readLine { io := io' } = q at *
  obtain ⟨result, c'⟩ := p
  obtain ⟨result', d'⟩ := q
  rcases hread with ⟨e, rfl, he⟩ | ⟨rfl, hgrows⟩
  · cases hclient
  · cases result' with
    | error e => cases hclient
    | ok greeting =>
      dsimp only at hclient hgrows ⊢
      split at hclient
      · cases hclient
      · split at hclient
        · cases hclient
        · next code text _ hcode =>
          obtain rfl := Except.ok.inj hclient
          rw [if_neg hcode]
          refine ⟨_, rfl, ?_, hgrows.octets⟩
          rw [hgrows.same]

end Calls

end Client

end MacroBus
