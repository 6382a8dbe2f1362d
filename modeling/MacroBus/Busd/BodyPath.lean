import MacroBus.Busd.BodyReader
import MacroBus.Busd.FrameStream
import MacroBus.Client.Reading

/-!
# The path of a body

A body is written once and read by three readers: the connection of its publisher, the
links between daemons, and the clients it is delivered to. Each of them inverts the one
encoder, and stops behind the terminator.
-/

namespace MacroBus

/-- A link that a message crosses: the limits of the daemon that reads it, what follows the
message on the link, and how its octets arrive. -/
structure Hop where
  /-- The limits of the reading daemon. -/
  limits : Limits
  /-- What follows. -/
  behind : Bytes
  /-- The reader of a stream of these octets. -/
  arrive : Bytes → BufReader UInt8
  /-- It reads these octets. -/
  remaining : ∀ octets, (arrive octets).remaining = octets

/-- What the reading daemon makes of a body that is sent over the link. -/
def Hop.read (hop : Hop) (lines : List Str) : Option (Option (List Str)) × BufReader UInt8 :=
  federation.readBody hop.limits (hop.arrive (Str.asBytes (frame.encodeBody lines) ++ hop.behind))

/-- The body behind a number of links, each of which sends on what it has read. -/
def relay (hops : List Hop) (lines : List Str) : Option (List Str) :=
  hops.foldlM (fun lines hop => (hop.read lines).1.join) lines

section Path

variable {lines : List Str}

/-- A body crosses a link. -/
theorem Hop.read_eq (hop : Hop) (hlines : ∀ line ∈ lines, '\n' ∉ line)
    (hsize : bodySize lines ≤ hop.limits.maxMessageBytes) :
    ∃ br, hop.read lines = (some (some lines), br) ∧ br.remaining = hop.behind := by
  obtain ⟨br, hread, hrest⟩ :=
    federation.readBody_encodeBody hop.limits (hop.remaining _) hlines
  rw [if_neg (not_lt.mpr hsize)] at hread
  exact ⟨br, hread, hrest⟩

/-- A body crosses any number of links. -/
theorem relay_eq {hops : List Hop} (hlines : ∀ line ∈ lines, '\n' ∉ line)
    (hsize : ∀ hop ∈ hops, bodySize lines ≤ hop.limits.maxMessageBytes) :
    relay hops lines = some lines := by
  induction hops with
  | nil => rfl
  | cons hop hops ih =>
    obtain ⟨br, hread, _⟩ := hop.read_eq hlines (hsize hop List.mem_cons_self)
    have hrest := ih fun h hh => hsize h (List.mem_cons_of_mem _ hh)
    unfold relay at hrest ⊢
    rw [List.foldlM_cons, hread]
    exact hrest

/-- A body without newlines whose stuffed lines are short enough fits. -/
theorem blockFits_of_le {maxLine : ℕ} (hlines : ∀ line ∈ lines, '\n' ∉ line)
    (hlen : ∀ line ∈ lines, (frame.stuffLine line).len + 1 ≤ maxLine) (htwo : 2 ≤ maxLine) :
    BlockFits maxLine lines := by
  refine ⟨fun line hl => ⟨newline_notMem_stuffLine (hlines line hl), hlen line hl⟩, by decide, ?_⟩
  have hdot : frame.TERMINATOR.len = 1 := by decide
  rw [hdot]
  exact htwo

/-- **A body survives the whole path unchanged**, where both caps on a line have room for the
terminator and its carriage return. What a client publishes, a FEED frame carries and a
delivery carries is one block; the daemon reads it however it arrives, it crosses any number
of links, and the subscriber reads it, each stopping right behind the terminator. -/
theorem body_survives (limits : Limits) (lines : List Str) (maxLine : ℕ)
    (hlines : ∀ line ∈ lines, '\n' ∉ line)
    (hdaemon : ∀ line ∈ lines, (frame.stuffLine line).len + 1 ≤ limits.maxBodyLineBytes)
    (hclient : ∀ line ∈ lines, (frame.stuffLine line).len + 1 ≤ maxLine)
    (hsize : bodySize lines ≤ limits.maxMessageBytes)
    (htwo : 2 ≤ limits.maxBodyLineBytes) (htwo' : 2 ≤ maxLine) :
    (∀ (c c' : Client) (typeName key text : Str),
      c.readResponse = (.ok ⟨status.START_BODY, text, none⟩, c') →
        (c.publish typeName key lines).1.sent =
          Client.send ("PUBLISH ".toList ++ typeName ++ ' ' :: key) ++
            Str.asBytes (frame.encodeBody lines)) ∧
    (∀ (br : BufReader UInt8) (rest : Bytes),
      br.remaining = Str.asBytes (frame.encodeBody lines) ++ rest →
        ∃ br', Conn.readBody limits br = (some (some lines), br') ∧ br'.remaining = rest) ∧
    (∀ msg : Message, msg.body = lines →
      Str.asBytes (OutFrame.feed msg).serialize =
          wireLine msg.feedHeader ++ Str.asBytes (frame.encodeBody lines) ∧
        Str.asBytes msg.encodeDelivery =
          wireLine msg.msgHeader ++ Str.asBytes (frame.encodeBody lines)) ∧
    (∀ hops : List Hop, (∀ hop ∈ hops, hop.limits.maxMessageBytes = limits.maxMessageBytes) →
      relay hops lines = some lines ∧ ∀ hop ∈ hops,
        (hop.read lines).1 = some (some lines) ∧ (hop.read lines).2.remaining = hop.behind) ∧
    ∀ (c : Client) (rest : Bytes), c.maxLine = maxLine →
      c.io.remaining = Str.asBytes (frame.encodeBody lines) ++ rest →
        ∃ io, c.readBlock = (.ok lines, { c with io := io }) ∧ io.remaining = rest := by
  refine ⟨?_, ?_, ?_, ?_, ?_⟩
  · intro c c' typeName key text hresp
    unfold Client.publish
    rw [hresp]
    rfl
  · intro br rest hbr
    obtain ⟨br', hread, hrest⟩ :=
      Conn.readBody_encodeBody hbr (blockFits_of_le hlines hdaemon htwo)
    rw [if_neg (not_lt.mpr hsize)] at hread
    exact ⟨br', hread, hrest⟩
  · rintro msg rfl
    exact ⟨asBytes_append (msg.feedHeader ++ frame.CRLF) _,
      asBytes_append (msg.msgHeader ++ frame.CRLF) _⟩
  · intro hops hmax
    have hsizes : ∀ hop ∈ hops, bodySize lines ≤ hop.limits.maxMessageBytes := by
      intro hop hhop
      rw [hmax hop hhop]
      exact hsize
    refine ⟨relay_eq hlines hsizes, fun hop hhop => ?_⟩
    obtain ⟨br, hread, hrest⟩ := hop.read_eq hlines (hsizes hop hhop)
    rw [hread]
    exact ⟨rfl, hrest⟩
  · rintro c rest rfl hc
    exact Client.readBlock_encodeBody hc (blockFits_of_le hlines hclient htwo')

/-- A body of an empty line, dots and a trailing carriage return, published to a daemon that
reads it in two parts. -/
theorem body_survives_dots :
    ∃ br', Conn.readBody {} ⟨Str.asBytes "\r\n..\r\n...\r\na\r\r".toList,
        [Str.asBytes "\n.\r\nQUIT\r\n".toList], by decide⟩ =
      (some (some [[], ['.'], ['.', '.'], ['a', '\r']]), br') ∧
      br'.remaining = Str.asBytes "QUIT\r\n".toList :=
  (body_survives {} [[], ['.'], ['.', '.'], ['a', '\r']] DEFAULT_MAX_LINE (by decide) (by decide)
    (by decide) (by decide) (by decide) (by decide)).2.1 _ _ (by decide)

/-- A limit of no octets has no room for the terminator: an empty body is given up. -/
theorem terminator_exceeds_limit :
    Config.validate { limits := { maxBodyLineBytes := 0 } } = .ok () ∧
      bodySize [] ≤ ({ maxBodyLineBytes := 0 } : Limits).maxMessageBytes ∧
      (Conn.readBody { maxBodyLineBytes := 0 }
        (.ofList (Str.asBytes (frame.encodeBody [])))).1 = some none := by
  refine ⟨by decide, by decide, ?_⟩
  rw [Conn.readBody, Conn.readBodyFrom_tooLong (Conn.readLineBlocking_tooLong (show takeLine 0
    (Str.asBytes (frame.encodeBody [])) = (.tooLong, []) by decide))]

end Path

end MacroBus
