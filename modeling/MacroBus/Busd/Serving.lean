import MacroBus.Busd.Idling
import MacroBus.Busd.Identity

/-!
# How a request is served

The line of a request is answered by one reply, or its body is invited and then answered. The
reply that the client takes for success is written only where the command of the line was
performed.
-/

namespace MacroBus

/-- The calls with which a command, and the body behind it, are performed. -/
def Command.Served (cmd : Command) (body : List Str) (called : List Call) : Prop :=
  match cmd with
  | .register typeName key => ∃ nowMs, called = [.registerLocal typeName key nowMs]
  | .subscribe typeName => called = [.subscribe typeName]
  | .unsubscribe typeName => called = [.unsubscribe typeName]
  | .publish typeName key =>
    called = [.publishPrecheck typeName key, .publishLocal typeName key body]
  | .listTypes => called = [.listTypes]
  | .capabilities | .help | .quit => called = []

/-- The command that the line of the request is parsed to was performed. -/
def Request.Performed (request : Request) (called : List Call) : Prop :=
  ∃ cmd, command.parse request.line = .ok cmd ∧ cmd.Served request.body called

/-- The daemon can tell the line of the request from what follows it, and the lines of a body
from each other. -/
structure Request.Sendable (request : Request) (limits : Limits) : Prop where
  /-- The type. -/
  typeName : ∀ typeName ∈ request.command.typeName?, '\n' ∉ typeName
  /-- The key. -/
  key : ∀ key ∈ request.command.key?, '\n' ∉ key
  /-- The body of a publish. -/
  body : request.Publishes → BlockFits limits.maxBodyLineBytes request.body

section Replies

variable {r : Reply} {code : Code} {text : Str} {lines : List Str}

/-- The codes of final replies. -/
theorem range_of_class (h : status.classOf code = .positive ∨ status.classOf code = .transient ∨
    status.classOf code = .permanent) : 200 ≤ code ∧ code < 1000 := by
  have hdiv : code / 100 = 2 ∨ code / 100 = 4 ∨ code / 100 = 5 := by
    unfold status.classOf at h
    split at h <;> simp_all
  have hbound : ∀ n : ℕ, n / 100 = 2 ∨ n / 100 = 4 ∨ n / 100 = 5 → 200 ≤ n ∧ n < 1000 :=
    fun n hn => by omega
  exact hbound code hdiv

/-- A final reply of lines. -/
theorem Reply.Final.framed (h : r.Final) (htext : '\n' ∉ r.text)
    (hlines : ∀ lines, r.block = some lines → ∀ line ∈ lines, '\n' ∉ line) : r.Framed :=
  ⟨range_of_class h.code, htext, hlines, h.block⟩

/-- A final reply invites no body. -/
theorem Reply.Final.code_ne (h : r.Final) : r.code ≠ status.START_BODY := by
  intro hcode
  have hclass := h.code
  rw [hcode] at hclass
  exact absurd hclass (by decide)

/-- The invitation is a line. -/
theorem framed_invitation : invitation.Framed :=
  ⟨by decide, by decide, fun _ h => (by cases h), by decide⟩

/-- The refusal of an over-long line is a final reply of lines. -/
theorem final_refusal : refusal.Final ∧ refusal.Framed := by
  have hfinal : refusal.Final := ⟨by decide, by decide⟩
  exact ⟨hfinal, hfinal.framed (by decide) fun _ h => by cases h⟩

end Replies

section Requests

variable {request : Request} {limits : Limits} {cmd : Command}

/-- No line end in what is sent as one line. -/
theorem Request.Sendable.line (h : request.Sendable limits) : '\n' ∉ request.line := by
  obtain ⟨command, body⟩ := request
  obtain ⟨htype, hkey, _⟩ := h
  unfold Request.line Command.render
  cases command with
  | register typeName key | publish typeName key =>
    have ht : '\n' ∉ typeName := htype typeName rfl
    have hk : '\n' ∉ key := hkey key rfl
    simp [Command.tokens, ht, hk]
  | subscribe typeName | unsubscribe typeName =>
    have ht : '\n' ∉ typeName := htype typeName rfl
    simp [Command.tokens, ht]
  | _ =>
    dsimp only [Command.tokens]
    decide

/-- A command of the same kind has the same success. -/
theorem Command.SameKind.expected {c c' : Command} (h : c.SameKind c') :
    c.expected = c'.expected := by
  cases c <;> cases c' <;> first | rfl | cases h

/-- No success has a code of another class. -/
theorem Command.expected_ne (cmd : Command) {code : Code} (h : status.classOf code ≠ .positive) :
    cmd.expected ≠ code := by
  rintro rfl
  refine h ?_
  cases cmd <;>
  · dsimp only [Command.expected]
    decide

/-- Only a publish is read as a publish. -/
theorem Request.publishes_of_parse {typeName key : Str}
    (h : command.parse request.line = .ok (.publish typeName key)) : request.Publishes := by
  obtain ⟨command, body⟩ := request
  have hkind : command.SameKind (.publish typeName key) := (parse_request h).1
  cases command with
  | publish typeName' key' => exact ⟨typeName', key', rfl⟩
  | _ => cases hkind

/-- A request that publishes is read as a publish. -/
theorem Request.Publishes.parse (h : request.Publishes) (hparse : command.parse request.line = .ok cmd) :
    ∃ typeName key, cmd = .publish typeName key := by
  obtain ⟨command, body⟩ := request
  obtain ⟨typeName, key, rfl⟩ := h
  have hkind : (Command.publish typeName key).SameKind cmd := (parse_request hparse).1
  cases cmd with
  | publish typeName' key' => exact ⟨typeName', key', rfl⟩
  | _ => cases hkind

/-- The type of a command that was parsed is a line. -/
theorem newline_notMem_of_parse {line typeName : Str} (h : command.parse line = .ok cmd)
    (htype : typeName ∈ cmd.typeName?) : '\n' ∉ typeName :=
  (isField_of_isValidType (isValidType_iff.mpr
    ((command.from_of_parse h).typeName typeName htype).1)).2

end Requests

section Answers

variable {limits : Limits} {fwd : Bool} {nowMs : ℕ} {c c' : Conn} {h h' : Hub}
  {done : List Effect} {request : Request} {cmd : Command} {typeName key : Str}

/-- The reply that ends the exchange of a request: where it stands for success, the command was
performed. -/
structure Request.Ends (request : Request) (called : List Call) (r : Reply) : Prop where
  /-- It is final. -/
  final : r.Final
  /-- It is made of lines. -/
  framed : r.Framed
  /-- It stands for success only where the command was performed. -/
  performed : r.code = request.command.expected → request.Performed called

/-- How a task reacts to the line of a request that it has consumed. -/
inductive Request.Reacts (request : Request) (c' : Conn) (done : List Effect) : Prop
  /-- It replies, and closes the connection at most behind the reply that announces it. A publish
  is not taken for success before its body. -/
  | replied (r : Reply) : request.Ends (calledOf done) r →
      (request.Publishes → r.code ≠ status.ACCEPTED) → outputOf done = outStream [.reply r] →
      c'.phase = .top ∧ r.code ≠ status.CLOSING ∨ c'.phase = .ended .ok → Reacts request c' done
  /-- It invites the body of a publish. -/
  | invited (typeName key : Str) : command.parse request.line = .ok (.publish typeName key) →
      outputOf done = outStream [.reply invitation] →
      calledOf done = [.publishPrecheck typeName key] → c'.phase = .body typeName key {} →
      Reacts request c' done

/-- Why a `REGISTER` is refused. -/
theorem registerLocal_error {e : RegisterError} {r r' : Registry}
    (he : r.registerLocal typeName key nowMs = (.error e, r')) :
    e = ⟨status.ALREADY_REGISTERED, typeName ++ " already registered".toList⟩ := by
  unfold Registry.registerLocal at he
  split at he
  · cases he
  · split at he
    · cases he
    · cases he
      rfl

/-- Why a `PUBLISH` is refused. -/
theorem publishPrecheck_error {e : PublishError}
    (he : h.registry.publishPrecheck typeName key = some e) :
    e = ⟨status.UNKNOWN_TYPE, typeName ++ " not registered".toList⟩ ∨
      e = ⟨status.KEY_MISMATCH, "authorization key mismatch".toList⟩ := by
  unfold Registry.publishPrecheck at he
  split at he
  · exact Or.inl (Option.some.inj he).symm
  · split at he
    · exact Or.inr (Option.some.inj he).symm
    · cases he

/-- Why it is refused after its body. -/
theorem publishLocal_error {body : List Str} {e : PublishError}
    (he : h.publishLocal typeName key body = (.error e, h')) :
    e = ⟨status.UNKNOWN_TYPE, typeName ++ " not registered".toList⟩ ∨
      e = ⟨status.KEY_MISMATCH, "authorization key mismatch".toList⟩ := by
  unfold Hub.publishLocal at he
  split at he
  · cases he
    exact Or.inl rfl
  · split at he
    · cases he
      exact Or.inr rfl
    · cases he

/-- A refused publish is answered with a line. -/
theorem ends_publishError {e : PublishError} (called : List Call) (htype : '\n' ∉ typeName)
    (hexpected : request.command.expected = status.ACCEPTED)
    (he : e = ⟨status.UNKNOWN_TYPE, typeName ++ " not registered".toList⟩ ∨
      e = ⟨status.KEY_MISMATCH, "authorization key mismatch".toList⟩) :
    request.Ends called { code := e.code, text := e.reason } ∧ e.code ≠ status.ACCEPTED ∧
      e.code ≠ status.CLOSING := by
  have hcode : e.code = status.UNKNOWN_TYPE ∨ e.code = status.KEY_MISMATCH := by
    rcases he with rfl | rfl
    · exact Or.inl rfl
    · exact Or.inr rfl
  have hne : e.code ≠ status.ACCEPTED := by
    rcases hcode with hcode | hcode
    · rw [hcode]
      decide
    · rw [hcode]
      decide
  have hreason : '\n' ∉ e.reason := by
    rcases he with rfl | rfl
    · simp [htype]
    · decide
  obtain ⟨hfinal, hopen⟩ := plain_publishError hcode
  refine ⟨⟨hfinal, hfinal.framed hreason fun _ hb => (by cases hb), fun heq => ?_⟩, hne, hopen⟩
  exact absurd (heq.trans hexpected) hne

/-- A line that is not parsed is answered with a line. -/
theorem ends_parseError {e : ParseError} (called : List Call)
    (he : command.parse request.line = .error e) :
    request.Ends called { code := e.code, text := e.reason } ∧ e.code ≠ status.ACCEPTED ∧
      e.code ≠ status.CLOSING := by
  have hall : ∀ e ∈ command.errors, '\n' ∉ e.reason ∧ e.code ≠ status.ACCEPTED := by
    decide +kernel
  obtain ⟨hreason, hne⟩ := hall e (command.listed_parse _ e he)
  have hpermanent := command.permanent_parse _ e he
  obtain ⟨hfinal, hopen⟩ := plain_permanent e.reason hpermanent
  refine ⟨⟨hfinal, hfinal.framed hreason fun _ hb => (by cases hb), fun heq => ?_⟩, hne, hopen⟩
  exact absurd heq.symm (request.command.expected_ne (by rw [hpermanent]; decide))

/-- A reply that tells of success. -/
theorem ends_done {called : List Call} {r : Reply} (hparse : command.parse request.line = .ok cmd)
    (hfinal : r.Final) (htext : '\n' ∉ r.text)
    (hlines : ∀ lines, r.block = some lines → ∀ line ∈ lines, '\n' ∉ line)
    (hserved : cmd.Served request.body called) : request.Ends called r :=
  ⟨hfinal, hfinal.framed htext hlines, fun _ => ⟨cmd, hparse, hserved⟩⟩

/-- **A command is reacted to** with the reply of its kind, where it is performed. -/
theorem execute_reacts (hparse : command.parse request.line = .ok cmd)
    (htypes : ∀ typeName ∈ h.registry.types.keys, '\n' ∉ typeName) :
    request.Reacts (Conn.execute limits fwd nowMs c h cmd).1
      (Conn.execute limits fwd nowMs c h cmd).2.2 := by
  have hkind := (parse_request hparse).1
  have hexpected : request.command.expected = cmd.expected := hkind.expected
  have hother : (∀ typeName key, cmd ≠ .publish typeName key) → ¬request.Publishes := by
    intro hne hpublishes
    obtain ⟨typeName, key, heq⟩ := hpublishes.parse hparse
    exact hne typeName key heq
  cases cmd with
  | quit =>
    refine .replied { code := status.CLOSING, text := "closing connection".toList }
      (ends_done hparse ⟨Or.inl rfl, by decide⟩ (by decide) (fun _ hb => (by cases hb)) rfl)
      (fun _ => by decide) (outputOf_writeLine _ _) (Or.inr rfl)
  | capabilities =>
    have hlines : ∀ line ∈ capabilityLines limits, '\n' ∉ line := by
      have hdigits : ∀ n, '\n' ∉ decimal n := notMem_decimal (by decide)
      have hproto : '\n' ∉ PROTOCOL_ID := by decide
      simp [capabilityLines, hdigits, hproto]
    refine .replied { code := status.INFO_FOLLOWS, text := "capabilities follow".toList
                      block := some (capabilityLines limits) }
      (ends_done hparse (plain_block _ _ (Or.inr rfl)).1
        (show '\n' ∉ "capabilities follow".toList by decide) ?_ rfl)
      (fun _ => show status.INFO_FOLLOWS ≠ status.ACCEPTED by decide) ?_
        (Or.inl ⟨rfl, show status.INFO_FOLLOWS ≠ status.CLOSING by decide⟩)
    · rintro _ ⟨rfl⟩
      exact hlines
    · simp [Conn.execute, outputOf, writeLine, OutUnit.serialize, Reply.serialize]
  | help =>
    have hlines : ∀ line ∈ helpLines, '\n' ∉ line := by decide +kernel
    refine .replied { code := status.INFO_FOLLOWS, text := "help follows".toList
                      block := some helpLines }
      (ends_done hparse (plain_block _ _ (Or.inr rfl)).1 (by decide) ?_ rfl)
      (fun _ => by decide) ?_ (Or.inl ⟨rfl, by decide⟩)
    · rintro _ ⟨rfl⟩
      exact hlines
    · simp [Conn.execute, outputOf, writeLine, OutUnit.serialize, Reply.serialize]
  | listTypes =>
    refine .replied { code := status.TYPE_LIST, text := "type list follows".toList
                      block := some h.registry.listTypes }
      (ends_done hparse (plain_block _ _ (Or.inl rfl)).1
        (show '\n' ∉ "type list follows".toList by decide) ?_ rfl)
      (fun _ => show status.TYPE_LIST ≠ status.ACCEPTED by decide) ?_
        (Or.inl ⟨rfl, show status.TYPE_LIST ≠ status.CLOSING by decide⟩)
    · rintro _ ⟨rfl⟩ line hline
      exact htypes line ((List.mem_insertionSort _).mp hline)
    · simp [Conn.execute, outputOf, writeLine, OutUnit.serialize, Reply.serialize]
  | register typeName key =>
    have htype := newline_notMem_of_parse hparse (show typeName ∈ some typeName from rfl)
    have hnot := hother (by simp)
    unfold Conn.execute
    dsimp only
    split
    · next reg registry heq =>
      refine .replied { code := status.REGISTERED, text := typeName ++ " registered".toList }
        (ends_done hparse (plain_statusLine _ (Or.inl rfl) (by decide)).1 ?_
          (fun _ hb => (by cases hb)) ⟨nowMs, ?_⟩)
        (fun hpublishes => absurd hpublishes hnot) ?_
        (Or.inl ⟨rfl, show status.REGISTERED ≠ status.CLOSING by decide⟩)
      · simp [htype]
      · cases reg.changed <;> cases fwd <;> rfl
      · cases reg.changed <;> cases fwd <;>
          simp [outputOf, writeLine, OutUnit.serialize, Reply.serialize]
    · next e registry heq =>
      obtain rfl := registerLocal_error heq
      have hfinal : Reply.Final { code := status.ALREADY_REGISTERED
                                  text := typeName ++ " already registered".toList } :=
        (plain_statusLine _ (Or.inr (Or.inl rfl)) (by decide)).1
      refine .replied _ ⟨hfinal, hfinal.framed ?_ fun _ hb => (by cases hb), fun hcode => ?_⟩
        (fun hpublishes => absurd hpublishes hnot) ?_
        (Or.inl ⟨rfl, show status.ALREADY_REGISTERED ≠ status.CLOSING by decide⟩)
      · simp [htype]
      · exact absurd (hcode.trans hexpected)
          (show ¬status.ALREADY_REGISTERED = status.REGISTERED by decide)
      · simp [outputOf, writeLine, OutUnit.serialize, Reply.serialize]
  | subscribe typeName =>
    have htype := newline_notMem_of_parse hparse (show typeName ∈ some typeName from rfl)
    refine .replied { code := status.SUBSCRIBED, text := "subscribed ".toList ++ typeName }
      (ends_done hparse (plain_statusLine _ (Or.inl rfl) (by decide)).1 (by simp [htype])
        (fun _ hb => (by cases hb)) rfl)
      (fun hpublishes => absurd hpublishes (hother (by simp))) ?_
        (Or.inl ⟨rfl, show status.SUBSCRIBED ≠ status.CLOSING by decide⟩)
    simp [Conn.execute, outputOf, writeLine, OutUnit.serialize, Reply.serialize]
  | unsubscribe typeName =>
    have htype := newline_notMem_of_parse hparse (show typeName ∈ some typeName from rfl)
    refine .replied { code := status.UNSUBSCRIBED, text := "unsubscribed ".toList ++ typeName }
      (ends_done hparse (plain_statusLine _ (Or.inl rfl) (by decide)).1 (by simp [htype])
        (fun _ hb => (by cases hb)) rfl)
      (fun hpublishes => absurd hpublishes (hother (by simp))) ?_
        (Or.inl ⟨rfl, show status.UNSUBSCRIBED ≠ status.CLOSING by decide⟩)
    simp [Conn.execute, outputOf, writeLine, OutUnit.serialize, Reply.serialize]
  | publish typeName key =>
    have htype := newline_notMem_of_parse hparse (show typeName ∈ some typeName from rfl)
    unfold Conn.execute Conn.beginPublish
    dsimp only
    split
    · next e heq =>
      obtain ⟨hends, hne, hopen⟩ := ends_publishError
        [.publishPrecheck typeName key] htype hexpected (publishPrecheck_error heq)
      refine .replied { code := e.code, text := e.reason } hends (fun _ => hne) ?_
        (Or.inl ⟨rfl, hopen⟩)
      simp [outputOf, writeLine, OutUnit.serialize, Reply.serialize]
    · refine .invited typeName key hparse ?_ rfl rfl
      simp [outputOf, writeLine, OutUnit.serialize, Reply.serialize, invitation]

/-- **The line of a request is reacted to** with one reply, or with an invitation. -/
theorem handleCommand_reacts (htypes : ∀ typeName ∈ h.registry.types.keys, '\n' ∉ typeName) :
    request.Reacts (Conn.handleCommand limits fwd nowMs c h (Str.asBytes request.line)).1
      (Conn.handleCommand limits fwd nowMs c h (Str.asBytes request.line)).2.2 := by
  rw [Conn.handleCommand_eq, fromUtf8Lossy_asBytes]
  cases hparse : command.parse request.line with
  | ok cmd => exact execute_reacts hparse htypes
  | error e =>
    obtain ⟨hends, hne, hopen⟩ := ends_parseError [] hparse
    exact .replied { code := e.code, text := e.reason } hends (fun _ => hne)
      (outputOf_writeLine _ _) (Or.inl ⟨rfl, hopen⟩)

/-- A command takes nothing more than its line. -/
theorem handleCommand_notTaking (limits : Limits) (fwd : Bool) (nowMs : ℕ) (c : Conn) (h : Hub)
    (line : Bytes) : ∀ e ∈ (Conn.handleCommand limits fwd nowMs c h line).2.2,
      e.isTaking = false := by
  rw [Conn.handleCommand_eq]
  cases command.parse (fromUtf8Lossy line) with
  | ok cmd => exact Conn.execute_notTaking limits fwd nowMs c h cmd
  | error e => simp [Effect.isTaking, writeLine]

/-- **A body is answered** by one reply; it tells of success only where the body was published. -/
theorem finishPublish_answers {before : List Effect} {body : Option (List Str)}
    (hparse : command.parse request.line = .ok (.publish typeName key))
    (hbody : ∀ lines, body = some lines → lines = request.body)
    (hbefore : calledOf before = [.publishPrecheck typeName key]) :
    ∃ r, request.Ends
        (calledOf (before ++ (Conn.finishPublish fwd c h typeName key body).2.2)) r ∧
      outputOf (Conn.finishPublish fwd c h typeName key body).2.2 = outStream [.reply r] := by
  have htype := newline_notMem_of_parse hparse (show typeName ∈ some typeName from rfl)
  have hexpected : request.command.expected = status.ACCEPTED :=
    (parse_request hparse).1.expected
  unfold Conn.finishPublish
  cases body with
  | none =>
    have hfinal : Reply.Final { code := status.TOO_LARGE, text := "message too large".toList } :=
      (plain_statusLine _ (Or.inr (Or.inl rfl)) (by decide)).1
    refine ⟨_, ⟨hfinal, hfinal.framed (by decide) fun _ hb => (by cases hb), fun hcode => ?_⟩,
      outputOf_writeLine _ _⟩
    exact absurd (hcode.trans hexpected) (show ¬status.TOO_LARGE = status.ACCEPTED by decide)
  | some lines =>
    obtain rfl := hbody lines rfl
    dsimp only
    split
    · refine ⟨{ code := status.ACCEPTED, text := "message accepted".toList },
        ends_done hparse (plain_statusLine _ (Or.inl rfl) (by decide)).1 (by decide)
          (fun _ hb => (by cases hb)) ?_, ?_⟩
      · rw [calledOf_append, hbefore]
        cases fwd <;> rfl
      · cases fwd <;> simp [outputOf, writeLine, OutUnit.serialize, Reply.serialize]
    · next e h' heq =>
      refine ⟨{ code := e.code, text := e.reason },
        (ends_publishError _ htype hexpected (publishLocal_error heq)).1, ?_⟩
      simp [outputOf, writeLine, OutUnit.serialize, Reply.serialize]

end Answers

end MacroBus
