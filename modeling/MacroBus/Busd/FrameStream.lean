import MacroBus.Busd.FrameReader
import MacroBus.Busd.FederationSteps

/-!
# Frames round-trip as a stream

Every frame that is written is read back as the call it stands for, and the reader is
left at the next frame, whatever the body lines of a message look like.
-/

namespace MacroBus

/-- A frame whose fields survive the wire: tokens in the header, body lines without a
newline, a timestamp of 64 bits. -/
def OutFrame.Sendable : OutFrame → Prop
  | .feed msg => IsToken msg.typeName ∧ IsToken msg.msgId ∧ IsToken msg.origin ∧
    ∀ line ∈ msg.body, '\n' ∉ line
  | .rreg typeName reg => IsToken typeName ∧ IsToken reg.key ∧ IsToken reg.originDaemon ∧
    reg.ts < u64Values

instance : DecidablePred OutFrame.Sendable
  | .feed msg => inferInstanceAs (Decidable (IsToken msg.typeName ∧ IsToken msg.msgId ∧
      IsToken msg.origin ∧ ∀ line ∈ msg.body, '\n' ∉ line))
  | .rreg typeName reg => inferInstanceAs (Decidable (IsToken typeName ∧ IsToken reg.key ∧
      IsToken reg.originDaemon ∧ reg.ts < u64Values))

/-- The call a frame stands for; a message that is too large stands for none. -/
def OutFrame.call (limits : Limits) : OutFrame → Option Inbound
  | .feed msg =>
    if limits.maxMessageBytes < bodySize msg.body then none else some (.ingestRemote msg)
  | .rreg typeName reg => some (.applyRemoteRegistration typeName reg)

/-- Frames as `write_loop` sends them. -/
def frameStream (frames : List OutFrame) : Bytes :=
  frames.flatMap fun f => Str.asBytes f.serialize

@[simp] theorem frameStream_cons (f : OutFrame) (frames : List OutFrame) :
    frameStream (f :: frames) = Str.asBytes f.serialize ++ frameStream frames := by
  simp [frameStream]

/-- A name that is one field of a line of fields: not empty and without spaces. -/
def IsField (name : Str) : Prop := name ≠ [] ∧ ' ' ∉ name

namespace IsToken

variable {name : Str}

/-- A token has no space. -/
theorem space (h : IsToken name) : ' ' ∉ name := fun hmem => (h.2 _ hmem).1 rfl

/-- A token is a field. -/
theorem field (h : IsToken name) : IsField name := ⟨h.1, h.space⟩

/-- A token has no newline. -/
theorem newline (h : IsToken name) : '\n' ∉ name := fun hmem => (h.2 _ hmem).2.1 rfl

end IsToken

namespace federation

variable {br : Reader} {rest : Bytes} {typeName key origin : Str}

/-- A sent line is read back. -/
theorem readLine_wireLine {s : Str} (h : br.remaining = wireLine s ++ rest) (hs : '\n' ∉ s) :
    ∃ br', readLine br = (some s, br') ∧ br'.remaining = rest := by
  rw [wireLine_eq, List.append_assoc] at h
  obtain ⟨br', hread, hrest⟩ := readLine_line h (LF_notMem_wire hs)
  rw [stripCr_append, fromUtf8Lossy_asBytes] at hread
  exact ⟨br', hread, hrest⟩

/-- Collecting the lines of a body. -/
theorem readBodyFrom_lines (limits : Limits) {lines : List Str} (acc : BodyAcc)
    (h : br.remaining = Str.asBytes (frame.encodeLines lines) ++ rest)
    (hlines : ∀ line ∈ lines, '\n' ∉ line) :
    ∃ br', readBodyFrom limits acc br =
        readBodyFrom limits ((lines.map frame.stuffLine).foldl (BodyAcc.push limits) acc) br' ∧
      br'.remaining = rest := by
  induction lines generalizing acc br with
  | nil => exact ⟨br, rfl, by simpa using h⟩
  | cons line lines ih =>
    rw [asBytes_encodeLines_cons, List.append_assoc] at h
    obtain ⟨br₁, hread, hrest⟩ :=
      readLine_wireLine h (newline_notMem_stuffLine (hlines line List.mem_cons_self))
    obtain ⟨br', hfold, hrest'⟩ := ih (acc.push limits (frame.stuffLine line)) hrest
      fun l hl => hlines l (List.mem_cons_of_mem _ hl)
    refine ⟨br', ?_, hrest'⟩
    rw [readBodyFrom_some hread, if_neg (frame.stuffLine_ne_terminator line), hfold, List.map_cons,
      List.foldl_cons]

/-- **A body is read back**, or found too large, and the reader stops behind its terminator. -/
theorem readBody_encodeBody (limits : Limits) {lines : List Str}
    (h : br.remaining = Str.asBytes (frame.encodeBody lines) ++ rest)
    (hlines : ∀ line ∈ lines, '\n' ∉ line) :
    ∃ br', readBody limits br =
        (some (if limits.maxMessageBytes < bodySize lines then none else some lines), br') ∧
      br'.remaining = rest := by
  rw [asBytes_encodeBody, List.append_assoc] at h
  obtain ⟨br₁, hfold, hrest⟩ := readBodyFrom_lines limits {} h hlines
  obtain ⟨br', hread, hrest'⟩ := readLine_wireLine hrest (by decide)
  refine ⟨br', ?_, hrest'⟩
  rw [readBody, hfold, readBodyFrom_some hread, if_pos rfl, BodyAcc.result_stuffed]

/-- The header of a message and its fields. -/
theorem feedHeader_eq (msg : Message) : msg.feedHeader =
    "FEED".toList ++ ' ' :: (msg.typeName ++ ' ' :: (msg.msgId ++ ' ' :: msg.origin)) := by
  have hverb : "FEED ".toList = "FEED".toList ++ [' '] := by decide
  unfold Message.feedHeader
  rw [hverb]
  simp only [List.append_assoc, List.cons_append, List.nil_append]

/-- The header of a message is one line. -/
theorem newline_notMem_feedHeader {msg : Message} (h : (OutFrame.feed msg).Sendable) :
    '\n' ∉ msg.feedHeader := by
  obtain ⟨htype, hid, horigin, _⟩ := h
  simp [feedHeader_eq, htype.newline, hid.newline, horigin.newline]

/-- The call for the fields of a message and its body. -/
theorem feedCall_fields {msgId : Str} (htype : IsField typeName) (hid : IsField msgId)
    (horigin : IsField origin) (body : Option (List Str)) :
    feedCall (typeName ++ ' ' :: (msgId ++ ' ' :: origin)) body =
      body.map fun lines => .ingestRemote ⟨typeName, msgId, origin, lines⟩ := by
  unfold feedCall
  rw [Str.split_append_cons htype.2, Str.split_append_cons hid.2, Str.split_eq_singleton horigin.2]
  simp [htype.1, hid.1, horigin.1]

/-- The call for the header of a message and its body. -/
theorem feedCall_feedHeader {msg : Message} (h : (OutFrame.feed msg).Sendable)
    (body : Option (List Str)) :
    feedCall (Str.splitSecond ' ' msg.feedHeader) body =
      body.map fun lines => .ingestRemote { msg with body := lines } := by
  obtain ⟨htype, hid, horigin, _⟩ := h
  rw [feedHeader_eq, Str.splitSecond_append_cons (by decide),
    feedCall_fields htype.field hid.field horigin.field]

/-- A registration and its fields. -/
theorem serialize_rreg (typeName : Str) (reg : TypeReg) :
    (OutFrame.rreg typeName reg).serialize = "RREG".toList ++ ' ' ::
      (typeName ++ ' ' :: (reg.key ++ ' ' :: (reg.originDaemon ++ ' ' :: decimal reg.ts))) ++
        frame.CRLF := by
  have hverb : "RREG ".toList = "RREG".toList ++ [' '] := by decide
  unfold OutFrame.serialize
  dsimp only
  rw [hverb]
  simp only [List.append_assoc, List.cons_append, List.nil_append]

/-- A registration is one line. -/
theorem newline_notMem_rreg {reg : TypeReg} (h : (OutFrame.rreg typeName reg).Sendable) :
    '\n' ∉ "RREG".toList ++ ' ' ::
      (typeName ++ ' ' :: (reg.key ++ ' ' :: (reg.originDaemon ++ ' ' :: decimal reg.ts))) := by
  obtain ⟨htype, hkey, horigin, _⟩ := h
  have hdigits := notMem_decimal (c := '\n') (by decide) reg.ts
  simp [htype.newline, hkey.newline, horigin.newline, hdigits]

/-- The call for the fields of a registration. -/
theorem rregCall_fields {digits : Str} (htype : IsField typeName) (hkey : IsField key)
    (horigin : IsField origin) (hdigits : ' ' ∉ digits) :
    rregCall (typeName ++ ' ' :: (key ++ ' ' :: (origin ++ ' ' :: digits))) =
      (parseUnsigned u64Values digits).map fun ts =>
        .applyRemoteRegistration typeName ⟨key, origin, ts⟩ := by
  have hfields : ¬(typeName = [] ∨ key = [] ∨ origin = []) := by
    rintro (h | h | h)
    · exact htype.1 h
    · exact hkey.1 h
    · exact horigin.1 h
  unfold rregCall
  rw [Str.split_append_cons htype.2, Str.split_append_cons hkey.2,
    Str.split_append_cons horigin.2, Str.split_eq_singleton hdigits]
  simp only [List.getElem?_cons_zero, List.getElem?_cons_succ, Option.bind_some, Option.getD_some]
  cases parseUnsigned u64Values digits with
  | none => rfl
  | some ts => exact if_neg hfields

/-- **Reading one frame**: the call it stands for is made, and the reader is left at the next. -/
theorem readLoop_frame (limits : Limits) {f : OutFrame} (hf : f.Sendable)
    (h : br.remaining = Str.asBytes f.serialize ++ rest) :
    ∃ br', readLoop limits br =
        ((f.call limits).toList ++ (readLoop limits br').1, (readLoop limits br').2) ∧
      br'.remaining = rest := by
  cases f with
  | feed msg =>
    have hsplit : Str.asBytes (OutFrame.feed msg).serialize =
        wireLine msg.feedHeader ++ Str.asBytes (frame.encodeBody msg.body) :=
      Utf8.encode_append (msg.feedHeader ++ frame.CRLF) (frame.encodeBody msg.body)
    rw [hsplit, List.append_assoc] at h
    obtain ⟨br₁, hread, hrest⟩ := readLine_wireLine h (newline_notMem_feedHeader hf)
    obtain ⟨br', hbody, hrest'⟩ := readBody_encodeBody limits hrest hf.2.2.2
    have hverb : Str.splitFirst ' ' msg.feedHeader = "FEED".toList := by
      rw [feedHeader_eq, Str.splitFirst_append_cons (by decide)]
    refine ⟨br', ?_, hrest'⟩
    rw [readLoop_feed hread hverb hbody, feedCall_feedHeader hf]
    by_cases hsize : limits.maxMessageBytes < bodySize msg.body
    · simp [OutFrame.call, hsize]
    · simp [OutFrame.call, hsize]
  | rreg typeName reg =>
    have hts : parseUnsigned u64Values (decimal reg.ts) = some reg.ts :=
      parseUnsigned_decimal hf.2.2.2
    rw [serialize_rreg] at h
    obtain ⟨br', hread, hrest⟩ := readLine_wireLine h (newline_notMem_rreg hf)
    refine ⟨br', ?_, hrest⟩
    rw [readLoop_rreg hread (Str.splitFirst_append_cons (by decide) _),
      Str.splitSecond_append_cons (by decide),
      rregCall_fields hf.1.field hf.2.1.field hf.2.2.1.field
        (notMem_decimal (by decide) reg.ts), hts]
    rfl

/-- **Frames round-trip as a stream.** Whatever frames are sent over a link, and however they
arrive, `read_loop` makes the calls they stand for, in order and with equal arguments; a
message that is too large has no effect and leaves the frames behind it intact, and no body
line is taken for a frame. -/
theorem frames_round_trip (limits : Limits) {frames : List OutFrame}
    (hframes : ∀ f ∈ frames, f.Sendable) {br : Reader} (h : br.remaining = frameStream frames) :
    readLoop limits br = (frames.filterMap (OutFrame.call limits), .ok) := by
  induction frames generalizing br with
  | nil =>
    obtain ⟨br', hread, _⟩ := readLine_eof h
    exact readLoop_none hread
  | cons f frames ih =>
    rw [frameStream_cons] at h
    obtain ⟨br', hread, hrest⟩ := readLoop_frame limits (hframes f List.mem_cons_self) h
    rw [hread, ih (fun g hg => hframes g (List.mem_cons_of_mem _ hg)) hrest, List.filterMap_cons]
    cases f.call limits with
    | none => rfl
    | some call => rfl

/-- A message whose body imitates frames, and a registration behind it. -/
def imitation : List OutFrame :=
  [.feed ⟨"t".toList, "d1-1".toList, "d1".toList,
      ["RREG t k d9 0".toList, ".".toList, "FEED t d9-1 d9".toList]⟩,
    .rreg "t".toList ⟨"k".toList, "d1".toList, 7⟩]

/-- A body that imitates frames is read as a body. -/
theorem frames_round_trip_imitation :
    readLoop {} (.ofList (frameStream imitation)) =
      ([.ingestRemote ⟨"t".toList, "d1-1".toList, "d1".toList,
          ["RREG t k d9 0".toList, ".".toList, "FEED t d9-1 d9".toList]⟩,
        .applyRemoteRegistration "t".toList ⟨"k".toList, "d1".toList, 7⟩], .ok) :=
  (frames_round_trip {} (by decide) (BufReader.remaining_ofList _)).trans (by decide)

end federation

/-- What the first section of a call does to the daemon `i` it is made at. -/
def Net.perform {ι : Type} [DecidableEq ι] (s : Net ι) (i peer : ι) : Inbound → Net ι
  | .ingestRemote msg =>
    match (s.hub i).recordSeen msg with
    | (true, h) => (s.setHub i h).addTask i ⟨.feed msg, some peer, true⟩
    | (false, h) => s.setHub i h
  | .applyRemoteRegistration typeName incoming =>
    match (s.hub i).perform (.applyRemoteRegistration typeName incoming) with
    | (h, none) => s.setHub i h
    | (h, some frame) => (s.setHub i h).addTask i ⟨frame, some peer, false⟩

/-- **A step of the cluster that reads a frame begins the call the frame stands for.** -/
theorem Cluster.handle_eq_perform {ι : Type} [DecidableEq ι] (C : Cluster ι) (s : Net ι)
    (i peer : ι) {frame : OutFrame} (hframe : frame.Sendable) :
    (C.handle s i peer frame).1 =
      match frame.call (C.config i).limits with
      | none => s
      | some call => s.perform i peer call := by
  cases frame with
  | feed msg =>
    have hfields : ¬(msg.typeName = [] ∨ msg.msgId = [] ∨ msg.origin = []) := by
      rintro (h | h | h)
      · exact hframe.1.1 h
      · exact hframe.2.1.1 h
      · exact hframe.2.2.1.1 h
    unfold Cluster.handle Cluster.handleFeed OutFrame.call
    dsimp only
    rw [if_neg hfields]
    by_cases hsize : (C.config i).limits.maxMessageBytes < bodySize msg.body
    · rw [if_pos hsize, if_pos hsize]
    · rw [if_neg hsize, if_neg hsize]
      unfold Net.perform
      dsimp only
      rcases (s.hub i).recordSeen msg with ⟨_ | _, h⟩ <;> rfl
  | rreg typeName reg =>
    have hfields : ¬(typeName = [] ∨ reg.key = [] ∨ reg.originDaemon = []) := by
      rintro (h | h | h)
      · exact hframe.1.1 h
      · exact hframe.2.1.1 h
      · exact hframe.2.2.1.1 h
    unfold Cluster.handle Cluster.handleRreg OutFrame.call
    dsimp only
    rw [if_neg hfields]
    unfold Net.perform Hub.perform
    dsimp only
    rcases (s.hub i).registry.applyRemoteRegistration typeName reg with ⟨_ | _, r⟩ <;> rfl

end MacroBus
