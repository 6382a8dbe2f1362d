import MacroBus.Busd.FrameStream
import MacroBus.Busd.MessageIds
import MacroBus.Client.Reading
import MacroBus.Proto.Parsing

/-!
# The identity of a daemon on the wire

A daemon writes its id into greetings, into the headers of messages, and into
registrations. The check of the configuration wants the id to be there, and the protocol
wants it to be a token. What the readers need is in between.
-/

namespace MacroBus

/-- The greeting line of a daemon on a federation link. -/
def peerGreeting (daemonId : Str) : Str :=
  decimal status.SERVICE_READY ++ ' ' :: daemonId ++ " macro-bus-peer ".toList ++ PROTOCOL_ID ++
    " ready".toList

/-- Parse the daemon id out of a `200 <id> ...` greeting line. -/
def parseGreetingId (line : Str) : Option Str :=
  let fields := Str.split ' ' line
  if fields[0]? ≠ some (decimal status.SERVICE_READY) then none
  else
    match fields[1]? with
    | none => none
    | some id => if id = [] then none else some id

/-- **The readers recover what a daemon writes**: its id from its greetings, the fields of a
message from the headers, and those of a registration, whatever stands behind them on the
stream and however it arrives. -/
structure Recovered (id : Str) (msg : Message) (typeName : Str) (reg : TypeReg) : Prop where
  /-- The client's `from_stream`. -/
  greeting : ∀ (io : BufReader UInt8) (rest : Bytes),
    io.remaining = wireLine (greeting id) ++ rest →
    ∃ c, Client.fromStream io = .ok c ∧ c.daemonId = id
  /-- `parse_greeting_id` on the line `read_line` returns. -/
  peerGreeting : ∀ (br : federation.Reader) (rest : Bytes),
    br.remaining = wireLine (peerGreeting id) ++ rest →
    ∃ line br', federation.readLine br = (some line, br') ∧ parseGreetingId line = some id
  /-- `handle_feed`, whatever body follows. -/
  feed : ∀ (br : federation.Reader) (rest : Bytes),
    br.remaining = wireLine msg.feedHeader ++ rest →
    ∃ line br', federation.readLine br = (some line, br') ∧
      Str.splitFirst ' ' line = "FEED".toList ∧
      ∀ body, federation.feedCall (Str.splitSecond ' ' line) body =
        body.map fun lines => .ingestRemote { msg with body := lines }
  /-- `handle_rreg` -/
  rreg : ∀ (br : federation.Reader) (rest : Bytes),
    br.remaining = Str.asBytes (OutFrame.rreg typeName reg).serialize ++ rest →
    ∃ line br', federation.readLine br = (some line, br') ∧
      Str.splitFirst ' ' line = "RREG".toList ∧
      federation.rregCall (Str.splitSecond ' ' line) =
        some (.applyRemoteRegistration typeName reg)
  /-- The client's `read_push`, whatever block follows. -/
  push : ∀ (c : Client) (rest : Bytes), c.maxLine = DEFAULT_MAX_LINE →
    c.io.remaining = wireLine msg.msgHeader ++ rest →
    ∃ line c' text, c.readLine = (.ok line, c') ∧
      Client.splitStatus line = .ok (status.MSG, text) ∧
      c'.readPush status.MSG text =
        match c'.readBlock with
        | (.error e, c'') => (.error e, c'')
        | (.ok body, c'') => (.ok (.message { msg with body := body }), c'')

section Parts

variable {id : Str} {msg : Message} {typeName : Str} {reg : TypeReg}

/-- The peer greeting and its fields. -/
theorem peerGreeting_eq (id : Str) : peerGreeting id =
    decimal status.SERVICE_READY ++ ' ' :: (id ++ ' ' :: "macro-bus-peer MBP/1.0 ready".toList) := by
  have htail : " macro-bus-peer ".toList ++ (PROTOCOL_ID ++ " ready".toList) =
      ' ' :: "macro-bus-peer MBP/1.0 ready".toList := by decide
  unfold peerGreeting
  rw [← htail]
  simp only [List.append_assoc, List.cons_append]

/-- The id of a peer greeting. -/
theorem parseGreetingId_peerGreeting (h : IsField id) :
    parseGreetingId (peerGreeting id) = some id := by
  have hdigits : ' ' ∉ decimal status.SERVICE_READY := notMem_decimal (by decide) _
  unfold parseGreetingId
  rw [peerGreeting_eq, Str.split_append_cons hdigits, Str.split_append_cons h.2]
  dsimp only [List.getElem?_cons_zero, List.getElem?_cons_succ]
  rw [if_neg (not_not.mpr rfl), if_neg h.1]

/-- The text of a status line is a part of it. -/
theorem text_subset {line text : Str} {code : Code}
    (h : Client.splitStatus line = .ok (code, text)) : text ⊆ line := by
  unfold Client.splitStatus at h
  split at h
  · cases h
  · split at h
    · cases h
    · split at h
      · cases h
      · obtain ⟨_, rfl⟩ := Prod.mk.inj (Except.ok.inj h)
        cases hcut : Str.splitAtOctet 4 line with
        | none => exact List.nil_subset _
        | some p =>
          rw [← Str.append_of_splitAtOctet hcut]
          exact List.subset_append_right _ _

/-- A client takes no id with a space, or a newline, from a greeting. -/
theorem fromStream_daemonId {io : BufReader UInt8} {c : Client}
    (h : Client.fromStream io = .ok c) : ' ' ∉ c.daemonId ∧ '\n' ∉ c.daemonId := by
  unfold Client.fromStream at h
  split at h
  · cases h
  · next greeting c' hline =>
    split at h
    · cases h
    · next code text hsplit =>
      split at h
      · cases h
      · obtain rfl := Except.ok.inj h
        refine ⟨Str.notMem_splitFirst ' ' text, fun hmem => ?_⟩
        have htext : '\n' ∈ text := (List.takeWhile_subset _) hmem
        have hgreeting : '\n' ∉ greeting :=
          Client.newline_notMem_readLineFrom (List.not_mem_nil) (Prod.mk.inj hline).1
        exact hgreeting (text_subset hsplit htext)

/-- Visible characters make no separator. -/
theorem notMem_of_visible {s : Str} (h : ∀ c ∈ s, 0x21 ≤ c.toNat ∧ c.toNat ≤ 0x7E) :
    ' ' ∉ s ∧ '\n' ∉ s :=
  ⟨fun hmem => absurd (h _ hmem).1 (by decide), fun hmem => absurd (h _ hmem).1 (by decide)⟩

/-- A valid type is a field without newlines. -/
theorem isField_of_isValidType (h : validate.isValidType typeName = true) :
    IsField typeName ∧ '\n' ∉ typeName := by
  obtain ⟨hne, hall⟩ := isValidType_iff.mp h
  obtain ⟨hspace, hnewline⟩ := notMem_of_visible fun c hc => command.visible_of_isTchar (hall c hc)
  exact ⟨⟨hne, hspace⟩, hnewline⟩

/-- A valid key is a field without newlines. -/
theorem isField_of_isValidKey {key : Str} (h : validate.isValidKey key = true) :
    IsField key ∧ '\n' ∉ key := by
  obtain ⟨hne, hall⟩ := isValidKey_iff.mp h
  obtain ⟨hspace, hnewline⟩ := notMem_of_visible hall
  exact ⟨⟨hne, hspace⟩, hnewline⟩

/-- What is neither in the id of the daemon nor a digit or a hyphen is in no message id. -/
theorem notMem_msgId {x : Char} (hid : x ∉ id) (hhyphen : x ≠ '-')
    (hdigit : ∀ d < 16, Nat.digitChar d ≠ x) (seq : ℕ) : x ∉ id ++ '-' :: lowerHex seq := by
  have hdigits : x ∉ lowerHex seq := by
    intro hmem
    obtain ⟨d, hd, hx⟩ := exists_of_mem_lowerHex hmem
    exact hdigit d hd hx.symm
  simp [hid, hhyphen, hdigits]

/-- A message id is a field without newlines where the id of the daemon is. -/
theorem isField_msgId (seq : ℕ) (hspace : ' ' ∉ id) (hnewline : '\n' ∉ id) :
    IsField (id ++ '-' :: lowerHex seq) ∧ '\n' ∉ id ++ '-' :: lowerHex seq := by
  refine ⟨⟨by simp, ?_⟩, ?_⟩
  · exact notMem_msgId hspace (by decide) (by decide) seq
  · exact notMem_msgId hnewline (by decide) (by decide) seq

/-- How long the header of a delivery is. -/
theorem len_msgHeader (msg : Message) :
    msg.msgHeader.len = msg.typeName.len + msg.msgId.len + msg.origin.len + 10 := by
  have hcode : (decimal status.MSG).len = 3 := Client.len_decimal_code (by decide) (by decide)
  have hverb : Str.len " MSG ".toList = 5 := by decide
  have hspace : ' '.utf8Size = 1 := by decide
  unfold Message.msgHeader
  simp only [Str.len_append, Str.len_cons, hcode, hverb, hspace]
  omega

/-- How long a greeting is. -/
theorem len_greeting (id : Str) : (greeting id).len = id.len + 28 := by
  have hcode : (decimal status.SERVICE_READY).len = 3 :=
    Client.len_decimal_code (by decide) (by decide)
  have htail : Str.len " macro-bus ".toList + (Str.len PROTOCOL_ID + Str.len " ready".toList) = 24 := by
    decide
  have hspace : ' '.utf8Size = 1 := by decide
  unfold greeting
  simp only [Str.len_append, Str.len_cons, hcode, hspace]
  omega

end Parts

section Identity

variable {cfg : Config} {h h' : Hub} {r r' : Registry} {typeName key typeName' key' : Str}
  {body : List Str} {msg : Message} {reg : TypeReg} {nowMs : ℕ}

/-- The header of a delivery is one line if its fields are. -/
theorem newline_notMem_msgHeader (htype : '\n' ∉ msg.typeName) (hmsgId : '\n' ∉ msg.msgId)
    (horigin : '\n' ∉ msg.origin) : '\n' ∉ msg.msgHeader := by
  have hcode := notMem_decimal (c := '\n') (by decide) status.MSG
  simp [msgHeader_eq, Push.text, hcode, htype, hmsgId, horigin]

/-- What is written is recovered where the id, the fields, and the lines allow it. -/
theorem recovered_of_fields (hid : IsField cfg.daemonId ∧ '\n' ∉ cfg.daemonId)
    (htype : IsField msg.typeName ∧ '\n' ∉ msg.typeName)
    (hmsgId : IsField msg.msgId ∧ '\n' ∉ msg.msgId) (horigin : msg.origin = cfg.daemonId)
    (hgreeting : (greeting cfg.daemonId).len + 1 ≤ DEFAULT_MAX_LINE)
    (hfits : msg.msgHeader.len + 1 ≤ DEFAULT_MAX_LINE)
    (htype' : IsField typeName' ∧ '\n' ∉ typeName') (hkey' : IsField reg.key ∧ '\n' ∉ reg.key)
    (horigin' : reg.originDaemon = cfg.daemonId) (hts : reg.ts < u64Values) :
    Recovered cfg.daemonId msg typeName' reg := by
  have hheader := newline_notMem_msgHeader htype.2 hmsgId.2 (horigin ▸ hid.2)
  have hfeed : '\n' ∉ msg.feedHeader := by
    simp [federation.feedHeader_eq, htype.2, hmsgId.2, horigin, hid.2]
  have hcode := notMem_decimal (c := '\n') (by decide) status.SERVICE_READY
  have hproto : '\n' ∉ PROTOCOL_ID := by decide
  have hready : '\n' ∉ " ready".toList := by decide
  constructor
  · intro io rest hio
    have hline : '\n' ∉ greeting cfg.daemonId := by
      have hname : '\n' ∉ " macro-bus ".toList := by decide
      simp only [greeting, List.mem_append, List.mem_cons, hcode, hid.2, hname, hproto, hready,
        or_false, false_or]
      decide
    obtain ⟨io', hstream, _⟩ := Client.fromStream_greeting hio ⟨hline, hgreeting⟩
    refine ⟨_, hstream, ?_⟩
    exact Str.splitFirst_append_cons hid.1.2 "macro-bus MBP/1.0 ready".toList
  · intro br rest hbr
    have hline : '\n' ∉ peerGreeting cfg.daemonId := by
      have hname : '\n' ∉ " macro-bus-peer ".toList := by decide
      simp only [peerGreeting, List.mem_append, List.mem_cons, hcode, hid.2, hname, hproto, hready,
        or_false, false_or]
      decide
    obtain ⟨br', hread, _⟩ := federation.readLine_wireLine hbr hline
    exact ⟨_, br', hread, parseGreetingId_peerGreeting hid.1⟩
  · intro br rest hbr
    obtain ⟨br', hread, _⟩ := federation.readLine_wireLine hbr hfeed
    refine ⟨_, br', hread, ?_, fun body => ?_⟩
    · rw [federation.feedHeader_eq, Str.splitFirst_append_cons (by decide)]
    · rw [federation.feedHeader_eq, Str.splitSecond_append_cons (by decide),
        federation.feedCall_fields htype.1 hmsgId.1 (horigin ▸ hid.1)]
  · intro br rest hbr
    have hdigits := notMem_decimal (c := '\n') (by decide) reg.ts
    rw [federation.serialize_rreg] at hbr
    obtain ⟨br', hread, _⟩ := federation.readLine_wireLine hbr (by
      simp [htype'.2, hkey'.2, horigin', hid.2, hdigits])
    refine ⟨_, br', hread, Str.splitFirst_append_cons (by decide) _, ?_⟩
    rw [Str.splitSecond_append_cons (by decide), federation.rregCall_fields htype'.1 hkey'.1
      (horigin' ▸ hid.1) (notMem_decimal (by decide) reg.ts), parseUnsigned_decimal hts]
    rfl
  · intro c rest hmax hio
    obtain ⟨io, hread, _⟩ := Client.readLine_fits hio ⟨hheader, hmax ▸ hfits⟩
    rw [msgHeader_eq] at hread
    refine ⟨_, _, _, hread, Client.splitStatus_statusLine (by decide) (by decide) _, ?_⟩
    refine Client.readPush_message ?_
    simp only [List.mem_cons, List.not_mem_nil, or_false, forall_eq_or_imp, forall_eq]
    exact ⟨htype.1, hmsgId.1, horigin ▸ hid.1⟩

/-- **An identity is usable exactly where it has no separator and headers fit.** For every
configuration that passes its check, every message the daemon publishes and every record it
registers, what the daemon writes is recovered by its readers if and only if its id has no
space and no newline, and the header of the delivery is within the line cap of the client. -/
theorem identity_usable_iff (hcfg : cfg.validate = .ok ())
    (hid : h.registry.daemonId = cfg.daemonId) (htype : validate.isValidType typeName = true)
    (hpublish : h.publishLocal typeName key body = (.ok msg, h'))
    (hid' : r.daemonId = cfg.daemonId) (htype' : validate.isValidType typeName' = true)
    (hkey' : validate.isValidKey key' = true) (hnow : nowMs < u64Values)
    (hregister : r.registerLocal typeName' key' nowMs = (.ok ⟨reg, true⟩, r')) :
    Recovered cfg.daemonId msg typeName' reg ↔ ' ' ∉ cfg.daemonId ∧ '\n' ∉ cfg.daemonId ∧
      msg.msgHeader.len + 1 ≤ DEFAULT_MAX_LINE := by
  have hne := ((Config.validate_eq_ok_iff cfg).mp hcfg).1
  obtain ⟨_, hmsg, _⟩ := Hub.publishLocal_eq_ok_iff.mp hpublish
  obtain ⟨_, rfl, _⟩ := Registry.registerLocal_created_iff.mp hregister
  have htypeName : msg.typeName = typeName := by rw [hmsg]
  have hmsgId : msg.msgId = cfg.daemonId ++ '-' :: lowerHex h.registry.seq := by
    rw [hmsg, ← hid]
    rfl
  have horigin : msg.origin = cfg.daemonId := by rw [hmsg, hid]
  have hfield := isField_of_isValidType htype
  rw [← htypeName] at hfield
  constructor
  · intro hrecovered
    obtain ⟨c, hstream, hsame⟩ := hrecovered.greeting (.ofList (wireLine (greeting cfg.daemonId)))
      [] (by rw [BufReader.remaining_ofList, List.append_nil])
    obtain ⟨hspace, hnewline⟩ := fromStream_daemonId hstream
    rw [hsame] at hspace hnewline
    refine ⟨hspace, hnewline, ?_⟩
    by_contra hlong
    have hheader : '\n' ∉ msg.msgHeader := newline_notMem_msgHeader hfield.2
      (hmsgId ▸ (isField_msgId _ hspace hnewline).2) (horigin ▸ hnewline)
    have hstart : (BufReader.ofList (wireLine msg.msgHeader)).remaining =
        wireLine msg.msgHeader ++ [] := by
      rw [BufReader.remaining_ofList, List.append_nil]
    obtain ⟨line, c', text, hread, _⟩ :=
      hrecovered.push { io := .ofList (wireLine msg.msgHeader) } [] rfl hstart
    have htooLong := Client.readLine_tooLong (c := { io := .ofList (wireLine msg.msgHeader) })
      hstart hheader (not_le.mp hlong)
    rw [hread] at htooLong
    cases htooLong
  · rintro ⟨hspace, hnewline, hfits⟩
    -- A greeting is shorter than the header of a delivery, or short.
    have hgreeting : (greeting cfg.daemonId).len + 1 ≤ DEFAULT_MAX_LINE := by
      have hsize := len_msgHeader msg
      have hhyphen : '-'.utf8Size = 1 := by decide
      rw [horigin, hmsgId, Str.len_append, Str.len_cons, hhyphen] at hsize
      rw [len_greeting]
      unfold DEFAULT_MAX_LINE at hfits ⊢
      omega
    exact recovered_of_fields ⟨⟨hne, hspace⟩, hnewline⟩ hfield
      (hmsgId ▸ isField_msgId _ hspace hnewline) horigin hgreeting hfits
      (isField_of_isValidType htype') (isField_of_isValidKey hkey') hid' hnow

/-- A daemon with this id where the type `t` is claimed with the key `k`. -/
def claimedHub (id : Str) : Hub where
  registry := { Registry.new id 1 with types := (∅ : AList _).insert "t".toList ⟨"k".toList, id, 0⟩ }
  chan := fun _ => { depth := 1 }

/-- A daemon with a plain id. -/
theorem identity_usable_iff_plain :
    Recovered "d1".toList ⟨"t".toList, "d1-1".toList, "d1".toList, []⟩ "u".toList
      ⟨"k".toList, "d1".toList, 7⟩ :=
  (identity_usable_iff (show Config.validate { daemonId := "d1".toList } = .ok () by decide)
    (show (claimedHub "d1".toList).registry.daemonId = "d1".toList from rfl)
    (show validate.isValidType "t".toList = true by decide)
    (Hub.publishLocal_eq_ok_iff.mpr ⟨⟨_, rfl, rfl⟩, rfl, rfl⟩)
    (show (Registry.new "d1".toList 1).daemonId = "d1".toList from rfl)
    (show validate.isValidType "u".toList = true by decide)
    (show validate.isValidKey "k".toList = true by decide) (show 7 < u64Values by decide)
    (Registry.registerLocal_created_iff.mpr ⟨rfl, rfl, rfl⟩)).mpr
    ⟨by decide, by decide, by decide⟩

/-- A daemon whose id has a space: a client takes only a part of it for the id, and a peer
takes another part for the id of every message. -/
theorem identity_with_space_is_lost : ∃ (cfg : Config) (h h' : Hub) (msg : Message),
    cfg.validate = .ok () ∧ h.registry.daemonId = cfg.daemonId ∧
      h.publishLocal "t".toList "k".toList [] = (.ok msg, h') ∧
      (∀ c, Client.fromStream (.ofList (wireLine (greeting cfg.daemonId))) = .ok c →
        c.daemonId ≠ cfg.daemonId) ∧
      federation.feedCall (Str.splitSecond ' ' msg.feedHeader) (some []) =
        some (.ingestRemote ⟨"t".toList, "a".toList, "b-1".toList, []⟩) := by
  refine ⟨{ daemonId := "a b".toList }, claimedHub "a b".toList, _,
    ⟨"t".toList, "a b-1".toList, "a b".toList, []⟩, by decide, rfl,
    Hub.publishLocal_eq_ok_iff.mpr ⟨⟨_, rfl, rfl⟩, rfl, rfl⟩, fun c hstream hsame => ?_, by decide⟩
  have hspace := (fromStream_daemonId hstream).1
  rw [hsame] at hspace
  exact hspace (by decide)

end Identity

end MacroBus
