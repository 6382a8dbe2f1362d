import MacroBus.Client.Demux
import MacroBus.Busd.BodyPath

/-!
# The command line

The `macro-bus` tool is a thin client: it connects, makes its calls, prints what they return, and
quits. A text is published line by line, and a subscriber prints the lines of each message, so
what was published with the tool is what is printed by it.
-/

namespace MacroBus

namespace Cli

/-- A subcommand. -/
inductive Command
  /-- Claim ownership of a message type with an auth key. -/
  | register (typeName key : Str)
  /-- Publish a message, or the standard input. -/
  | publish (typeName key : Str) (message : Option Str)
  /-- Subscribe to one or more types and print deliveries. -/
  | subscribe (types : List Str)
  /-- List known message types. -/
  | list
  /-- Show the capabilities of the daemon. -/
  | capabilities
  /-- Show the HELP text of the daemon. -/
  | remoteHelp
  deriving DecidableEq

/-- A line that is printed. -/
inductive Printed
  /-- To the standard output. -/
  | out (line : Str)
  /-- To the standard error. -/
  | err (line : Str)
  deriving DecidableEq

/-- Why the tool fails. -/
inductive Error
  /-- There is no connection. -/
  | connect
  /-- The client fails. -/
  | client (e : Client.Error)
  /-- The standard input cannot be read. -/
  | stdin
  deriving DecidableEq

/-- What a run of the tool leads to. -/
structure Outcome where
  /-- What is sent to the daemon. -/
  sent : Bytes := []
  /-- What is printed. -/
  printed : List Printed := []
  /-- Whether the tool succeeds. -/
  result : Except Error Unit

/-- What is written to the standard output. -/
def stdout (printed : List Printed) : Str :=
  Lines.join '\n' (printed.filterMap fun
    | .out line => some line
    | .err _ => none)

/-- The lines of a body, without a single trailing empty line. -/
def bodyLines (bodyText : Str) : List Str :=
  let lines := Str.split '\n' bodyText
  if lines.getLast? = some [] then lines.dropLast else lines

/-- The line that is printed above the body of a message. -/
def headline (m : Message) : Str :=
  "--- ".toList ++ m.typeName ++ " [".toList ++ m.msgId ++ "] from ".toList ++ m.origin

/-- What is printed of an event. -/
def printEvent : Client.Event → List Printed
  | .message m => .out (headline m) :: m.body.map .out
  | .drop typeName count =>
    [.err ("[dropped ".toList ++ decimal count ++ " message(s) on ".toList ++ typeName ++
      " — consumer fell behind]".toList)]
  | .note text => [.err ("[note] ".toList ++ text)]

/-- `run_subscribe`, until Ctrl-C after so many events or the connection closes. -/
def runSubscribe : ℕ → Client → List Printed × Except Error Unit
  | 0, _ => ([.err "interrupted".toList], .ok ())
  | n + 1, c =>
    match c.nextEvent with
    | (.ok ev, c') => (printEvent ev ++ (runSubscribe n c').1, (runSubscribe n c').2)
    | (.error .closed, _) => ([.err "connection closed by daemon".toList], .ok ())
    | (.error e, _) => ([], .error (.client e))

/-- Subscribe to types one after another. -/
def subscribeAll (c : Client) : List Str → Client.Outcome Unit × Client
  | [] => (⟨[], .ok ()⟩, c)
  | t :: types =>
    match c.subscribe t with
    | (⟨sent, .error e⟩, c') => (⟨sent, .error e⟩, c')
    | (⟨sent, .ok _⟩, c') =>
      let (o, c'') := subscribeAll c' types
      (⟨sent ++ o.sent, o.result⟩, c'')

/-- `Client::connect`, where the stream of the connection is this one, if there is one. -/
def connect (stream : Option (BufReader UInt8)) : Except Error Client :=
  match stream with
  | none => .error .connect
  | some io => (Client.fromStream io).mapError .client

/-- What a subscriber says when it has subscribed. -/
def subscribedLine (types : List Str) (daemonId : Str) : Printed :=
  .err ("subscribed to [".toList ++ List.intercalate ", ".toList types ++ "] on ".toList ++
    daemonId ++ " — waiting for messages (Ctrl-C to stop)".toList)

/-- Connect, make one call, print what it returns, and quit. -/
def oneShot {α : Type} (stream : Option (BufReader UInt8))
    (call : Client → Client.Outcome α × Client) (print : α → List Printed) : Outcome :=
  match connect stream with
  | .error e => { result := .error e }
  | .ok c =>
    match call c with
    | (⟨sent, .error e⟩, _) => { sent := sent, result := .error (.client e) }
    | (⟨sent, .ok a⟩, c') =>
      { sent := sent ++ c'.quit.1.sent, printed := print a, result := .ok () }

/-- `main`, given the stream of the connection, if there is one, the standard input, if it can be
read, and how many events are handled before Ctrl-C. -/
def main (stream : Option (BufReader UInt8)) (stdin : Option Str) (events : ℕ) : Command → Outcome
  | .register typeName key =>
    oneShot stream (fun c => c.register typeName key) fun _ =>
      [.out ("registered ".toList ++ typeName)]
  | .publish typeName key message =>
    match message.or stdin with
    | none => { result := .error .stdin }
    | some bodyText =>
      let lines := bodyLines bodyText
      oneShot stream (fun c => c.publish typeName key lines) fun _ =>
        [.out ("published to ".toList ++ typeName ++ " (".toList ++ decimal lines.length ++
          " line(s))".toList)]
  | .subscribe types =>
    match connect stream with
    | .error e => { result := .error e }
    | .ok c =>
      match subscribeAll c types with
      | (⟨sent, .error e⟩, _) => { sent := sent, result := .error (.client e) }
      | (⟨sent, .ok _⟩, c') =>
        let (printed, result) := runSubscribe events c'
        { sent := sent, printed := subscribedLine types c'.daemonId :: printed, result := result }
  | .list => oneShot stream (fun c => c.listTypes) fun types => types.map .out
  | .capabilities => oneShot stream (fun c => c.capabilities) fun caps => caps.map .out
  | .remoteHelp => oneShot stream (fun c => c.help) fun lines => lines.map .out

section Texts

variable {text : Str} {lines : List Str} {last : Str}

/-- A text, with a line end behind its last line. -/
def terminated (text : Str) : Str :=
  if text = [] ∨ text.getLast? = some '\n' then text else text ++ ['\n']

/-- Complete lines and what stands behind them are split at the line ends. -/
theorem split_join_append (hlines : ∀ line ∈ lines, '\n' ∉ line) (hlast : '\n' ∉ last) :
    Str.split '\n' (Lines.join '\n' lines ++ last) = lines ++ [last] := by
  induction lines with
  | nil => exact Str.split_eq_singleton hlast
  | cons line lines ih =>
    rw [Lines.join_cons, List.append_assoc, List.cons_append,
      Str.split_append_cons (hlines line List.mem_cons_self),
      ih fun l hl => hlines l (List.mem_cons_of_mem _ hl), List.cons_append]

/-- The lines of a body are the complete lines of its text, and what stands behind them. -/
theorem bodyLines_join_append (hlines : ∀ line ∈ lines, '\n' ∉ line) (hlast : '\n' ∉ last) :
    bodyLines (Lines.join '\n' lines ++ last) = if last = [] then lines else lines ++ [last] := by
  unfold bodyLines
  rw [split_join_append hlines hlast]
  simp only [List.getLast?_concat, Option.some.injEq, List.dropLast_concat]

/-- A text is its complete lines and what stands behind them. -/
theorem exists_lines (text : Str) : ∃ lines last, text = Lines.join '\n' lines ++ last ∧
    (∀ line ∈ lines, '\n' ∉ line) ∧ '\n' ∉ last := by
  refine ⟨Lines.whole '\n' text, Lines.unfinished '\n' text,
    (Lines.join_whole_append_unfinished '\n' text).symm,
    fun line hline => Lines.not_mem_of_mem_whole hline, fun hmem => ?_⟩
  have htake := List.mem_takeWhile_imp (List.mem_reverse.mp hmem)
  simp at htake

/-- No line of a body has a line end in it. -/
theorem newline_notMem_bodyLines (text : Str) : ∀ line ∈ bodyLines text, '\n' ∉ line := by
  obtain ⟨lines, last, rfl, hlines, hlast⟩ := exists_lines text
  rw [bodyLines_join_append hlines hlast]
  split
  · exact hlines
  · intro line hline
    rcases List.mem_append.mp hline with hline | hline
    · exact hlines line hline
    · rwa [List.mem_singleton.mp hline]

/-- **The lines of a body are its text again**, with a line end behind the last one. -/
theorem join_bodyLines (text : Str) : Lines.join '\n' (bodyLines text) = terminated text := by
  obtain ⟨lines, last, rfl, hlines, hlast⟩ := exists_lines text
  rw [bodyLines_join_append hlines hlast]
  unfold terminated
  by_cases hnil : last = []
  · subst hnil
    rw [if_pos rfl, List.append_nil]
    cases lines using List.reverseRecOn with
    | nil => rfl
    | append_singleton lines line =>
      have hend : (Lines.join '\n' (lines ++ [line])).getLast? = some '\n' := by simp
      rw [if_pos (Or.inr hend)]
  · have hend : (Lines.join '\n' lines ++ last).getLast? ≠ some '\n' := by
      rw [List.getLast?_append_of_ne_nil _ hnil]
      exact fun hlastChar => hlast (List.mem_of_getLast? hlastChar)
    have hne : Lines.join '\n' lines ++ last ≠ [] := by simp [hnil]
    rw [if_neg hnil, if_neg (not_or.mpr ⟨hne, hend⟩)]
    simp

end Texts

section Subscribing

variable {c : Client} {units : List OutUnit} {ps : List Push} {types : List Str}

/-- What is printed behind the last event: a subscriber is interrupted, or its daemon closes the
connection. -/
def lastLine (interrupted : Bool) : Printed :=
  .err (if interrupted then "interrupted".toList else "connection closed by daemon".toList)

/-- The lines that a push comes to: a message below its headline on the standard output, and a
notice or a note on the standard error. -/
def pushLines : Push → List Printed
  | .message msg =>
    .out ("--- ".toList ++ msg.typeName ++ " [".toList ++ msg.msgId ++ "] from ".toList ++
      msg.origin) :: msg.body.map .out
  | .drop typeName count =>
    [.err ("[dropped ".toList ++ decimal count ++ " message(s) on ".toList ++ typeName ++
      " — consumer fell behind]".toList)]
  | .note text => [.err ("[note] ".toList ++ (Str.stripPrefix "NOTE ".toList text).getD text)]

/-- The events of pushes are printed in these lines. -/
theorem printEvents_ofPush (ps : List Push) :
    (ps.map Client.ofPush).flatMap printEvent = ps.flatMap pushLines := by
  rw [List.flatMap_map]
  congr
  funext p
  cases p <;> rfl

/-- **The loop of a subscriber** prints what it has kept and what comes, in order. -/
theorem runSubscribe_pushes (n : ℕ) (hio : c.io.remaining = outStream (ps.map .push))
    (hfits : ∀ p ∈ ps, p.Fits c.maxLine) :
    runSubscribe n c = (((c.pending ++ ps.map Client.ofPush).take n).flatMap printEvent ++
      [lastLine (decide (n ≤ c.pending.length + ps.length))], .ok ()) := by
  induction n generalizing c ps with
  | zero => simp [runSubscribe, lastLine]
  | succ n ih =>
    cases hpending : c.pending with
    | cons ev pending =>
      have hnext : c.nextEvent = (.ok ev, { c with pending := pending }) := by
        simp only [Client.nextEvent, hpending]
      have hrest := ih (c := { c with pending := pending }) hio hfits
      simp only [runSubscribe, hnext, hrest]
      simp [Nat.add_right_comm]
    | nil =>
      cases ps with
      | nil =>
        obtain ⟨c', hclosed⟩ : ∃ c', c.nextEvent = (.error .closed, c') := by
          have hline : c.readLine.1 = .error .closed := by
            unfold Client.readLine
            rw [Client.readLineFrom_none (BufReader.readByte_nil hio)]
          rcases hread : c.readLine with ⟨result, c'⟩
          rw [hread] at hline
          dsimp only at hline
          subst hline
          exact ⟨c', by simp only [Client.nextEvent, hpending, hread]⟩
        simp [runSubscribe, hclosed, lastLine]
      | cons p ps =>
        rw [List.map_cons, outStream_cons] at hio
        obtain ⟨io, hnext, hrest⟩ :=
          Client.nextEvent_push hpending (hfits p List.mem_cons_self) hio
        have hloop := ih (c := { c with io := io }) hrest
          fun q hq => hfits q (List.mem_cons_of_mem _ hq)
        simp only [runSubscribe, hnext]
        rw [hloop]
        simp [hpending]

/-- Units without a reply are pushes. -/
theorem units_of_replies_nil (h : OutUnit.replies units = []) :
    units = (OutUnit.pushes units).map .push := by
  induction units with
  | nil => rfl
  | cons u units ih =>
    cases u with
    | push p => rw [OutUnit.pushes_push, List.map_cons, ← ih h]
    | reply r => cases h

/-- The first of the replies is found. -/
theorem untilReply_of_replies {r : Reply} {rs : List Reply} (h : OutUnit.replies units = r :: rs) :
    ∃ ps rest, OutUnit.untilReply units = some (ps, r, rest) ∧ OutUnit.replies rest = rs := by
  induction units with
  | nil => cases h
  | cons u units ih =>
    cases u with
    | push p =>
      obtain ⟨ps, rest, hunits, hrest⟩ := ih h
      exact ⟨p :: ps, rest, by rw [OutUnit.untilReply, hunits]; rfl, hrest⟩
    | reply r' =>
      obtain ⟨rfl, rfl⟩ := List.cons.inj h
      exact ⟨[], units, rfl, rfl⟩

/-- **Subscribing to several types** keeps the pushes that come meanwhile, and leaves the others. -/
theorem subscribeAll_units (hio : c.io.remaining = outStream units)
    (hfits : ∀ u ∈ units, u.Fits c.maxLine)
    (hcodes : (OutUnit.replies units).map Reply.code = types.map fun _ => status.SUBSCRIBED) :
    ∃ (sent : Bytes) (io : BufReader UInt8) (pending : List Client.Event) (ps : List Push),
      subscribeAll c types =
        (⟨sent, .ok ()⟩, { c with io := io, pending := pending }) ∧
      io.remaining = outStream (ps.map .push) ∧ (∀ p ∈ ps, p.Fits c.maxLine) ∧
      pending ++ ps.map Client.ofPush = c.pending ++ (OutUnit.pushes units).map Client.ofPush := by
  induction types generalizing c units with
  | nil =>
    have hunits := units_of_replies_nil (List.map_eq_nil_iff.mp hcodes)
    refine ⟨[], c.io, c.pending, OutUnit.pushes units, rfl, hunits ▸ hio, fun p hp => ?_, rfl⟩
    exact hfits (.push p) (hunits ▸ List.mem_map_of_mem hp)
  | cons t types ih =>
    obtain ⟨r, rs, hreplies, hcode, hrest⟩ := List.map_eq_cons_iff.mp hcodes
    obtain ⟨ps, rest, hunits, rfl⟩ := untilReply_of_replies hreplies
    obtain ⟨io, hexpect, hio'⟩ := Client.expect_units status.SUBSCRIBED hio hfits hunits
    obtain rfl := OutUnit.untilReply_eq_some hunits
    have hfits' : ∀ u ∈ rest, u.Fits c.maxLine := fun u hu => hfits u (by simp [hu])
    obtain ⟨sent, io', pending, ps', hall, hremaining, hpushes, hevents⟩ :=
      ih (c := { c with io := io, pending := c.pending ++ ps.map Client.ofPush }) hio' hfits' hrest
    have hsub : c.subscribe t = (⟨Client.send ("SUBSCRIBE ".toList ++ t), .ok ()⟩,
        { c with io := io, pending := c.pending ++ ps.map Client.ofPush }) := by
      simp only [Client.subscribe, Client.request, hexpect, if_pos hcode]
      rfl
    refine ⟨Client.send ("SUBSCRIBE ".toList ++ t) ++ sent, io', pending, ps', ?_, hremaining,
      hpushes, ?_⟩
    · simp only [subscribeAll, hsub, hall]
    · rw [hevents, OutUnit.pushes_map_push_append, OutUnit.pushes_reply, List.map_append,
        List.append_assoc]

/-- Connecting to a daemon that greets. -/
theorem connect_greeting {id : Str} {io : BufReader UInt8} {rest : Bytes}
    (hio : io.remaining = wireLine (greeting id) ++ rest)
    (hgreeting : LineFits DEFAULT_MAX_LINE (greeting id)) :
    ∃ io', connect (some io) = .ok { io := io', daemonId := Str.splitFirst ' ' (id ++
        " macro-bus MBP/1.0 ready".toList) } ∧ io'.remaining = rest := by
  obtain ⟨io', hstream, hrest⟩ := Client.fromStream_greeting hio hgreeting
  exact ⟨io', by simp only [connect, hstream]; rfl, hrest⟩

/-- **A subscriber prints every push, in order.** Where the daemon greets, accepts each
subscription, writes pushes before, between and behind its replies, and then closes the
connection, and however the octets arrive: the tool prints the lines of all pushes in the order in
which they were written, behind the line that says it has subscribed, up to the moment at which it
is interrupted. -/
theorem subscriber_prints_every_push {id : Str} {io : BufReader UInt8} (stdin : Option Str) (n : ℕ)
    (hio : io.remaining = wireLine (greeting id) ++ outStream units)
    (hgreeting : LineFits DEFAULT_MAX_LINE (greeting id))
    (hunits : ∀ u ∈ units, u.Fits DEFAULT_MAX_LINE)
    (hcodes : (OutUnit.replies units).map Reply.code = types.map fun _ => status.SUBSCRIBED) :
    (main (some io) stdin n (.subscribe types)).result = .ok () ∧
      (main (some io) stdin n (.subscribe types)).printed =
        subscribedLine types (Str.splitFirst ' ' (id ++ " macro-bus MBP/1.0 ready".toList)) ::
          (((OutUnit.pushes units).take n).flatMap pushLines ++
            [lastLine (decide (n ≤ (OutUnit.pushes units).length))]) := by
  obtain ⟨io₁, hconnect, hrest₁⟩ := connect_greeting hio hgreeting
  obtain ⟨sent, io₂, pending, ps, hall, hrest₂, hfits, hevents⟩ :=
    subscribeAll_units (c := { io := io₁, daemonId := Str.splitFirst ' ' (id ++
      " macro-bus MBP/1.0 ready".toList) }) hrest₁ hunits hcodes
  have hloop : runSubscribe n { io := io₂, pending := pending, daemonId := Str.splitFirst ' ' (id ++
      " macro-bus MBP/1.0 ready".toList) } = _ := runSubscribe_pushes n hrest₂ hfits
  have hlen : pending.length + ps.length = (OutUnit.pushes units).length := by
    have hlength := congrArg List.length hevents
    simpa using hlength
  dsimp only at hloop
  rw [hevents, List.nil_append, hlen, ← List.map_take, printEvents_ofPush] at hloop
  constructor
  · simp only [main, hconnect, hall, hloop]
  · simp only [main, hconnect, hall, hloop]

/-- A subscription between two messages, and a notice. -/
def subscribedUnits : List OutUnit :=
  [.push (.message ⟨"t".toList, "d-1".toList, "d".toList, ["hi".toList]⟩),
    .reply ⟨status.SUBSCRIBED, "subscribed t".toList, none⟩,
    .push (.drop "t".toList 3),
    .push (.message ⟨"t".toList, "d-5".toList, "d".toList, []⟩)]

/-- What is printed of them. -/
theorem subscriber_prints_every_push_closed :
    (main (some (.ofList (wireLine (greeting "d".toList) ++ outStream subscribedUnits))) none 9
      (.subscribe ["t".toList])).printed =
        [.err "subscribed to [t] on d — waiting for messages (Ctrl-C to stop)".toList,
          .out "--- t [d-1] from d".toList, .out "hi".toList,
          .err "[dropped 3 message(s) on t — consumer fell behind]".toList,
          .out "--- t [d-5] from d".toList, .err "connection closed by daemon".toList] :=
  (subscriber_prints_every_push none 9 (BufReader.remaining_ofList _) (by decide) (by decide)
    (by decide)).2.trans (by decide +kernel)

end Subscribing

section Publishing

variable {c : Client} {units : List OutUnit} {limits : Limits} {text typeName key : Str}

/-- **A body that is invited and accepted.** -/
theorem publish_units {r r' : Reply} {rs : List Reply} {body : List Str}
    (hio : c.io.remaining = outStream units) (hfits : ∀ u ∈ units, u.Fits c.maxLine)
    (hreplies : OutUnit.replies units = r :: r' :: rs) (hinvited : r.code = status.START_BODY)
    (haccepted : r'.code = status.ACCEPTED) :
    ∃ c', c.publish typeName key body = (⟨Client.send ("PUBLISH ".toList ++ typeName ++ ' ' :: key) ++
      Str.asBytes (frame.encodeBody body), .ok ()⟩, c') := by
  obtain ⟨ps, rest, hunits, hrest⟩ := untilReply_of_replies hreplies
  obtain ⟨ps', rest', hunits', _⟩ := untilReply_of_replies hrest
  obtain ⟨io, hread, hio'⟩ := Client.readResponse_units hio hfits hunits
  obtain rfl := OutUnit.untilReply_eq_some hunits
  have hfits' : ∀ u ∈ rest, u.Fits c.maxLine := fun u hu => hfits u (by simp [hu])
  obtain ⟨io', hexpect, _⟩ := Client.expect_units
    (c := { c with io := io, pending := c.pending ++ ps.map Client.ofPush }) status.ACCEPTED hio'
    hfits' hunits'
  refine ⟨{ c with
    io := io', pending := c.pending ++ ps.map Client.ofPush ++ ps'.map Client.ofPush }, ?_⟩
  unfold Client.publish
  rw [hread]
  dsimp only
  rw [if_neg (not_not.mpr hinvited), hexpect, if_pos haccepted]
  rfl

/-- **A text survives the tool.** Where the daemon invites the body and accepts the message, the
tool sends the lines of the text, whatever is in it, and says so. The daemon reads these lines
from what is sent, however it arrives, and stops in front of the QUIT behind them. And of a
message with these lines a subscriber prints the text, with a line end behind its last line. -/
theorem text_survives_the_tool {id : Str} {io : BufReader UInt8} {message stdin : Option Str} (n : ℕ)
    {r r' : Reply} {rs : List Reply}
    (htext : message.or stdin = some text)
    (hio : io.remaining = wireLine (greeting id) ++ outStream units)
    (hgreeting : LineFits DEFAULT_MAX_LINE (greeting id))
    (hunits : ∀ u ∈ units, u.Fits DEFAULT_MAX_LINE)
    (hreplies : OutUnit.replies units = r :: r' :: rs) (hinvited : r.code = status.START_BODY)
    (haccepted : r'.code = status.ACCEPTED)
    (hlen : ∀ line ∈ bodyLines text, (frame.stuffLine line).len + 1 ≤ limits.maxBodyLineBytes)
    (htwo : 2 ≤ limits.maxBodyLineBytes) (hsize : bodySize (bodyLines text) ≤ limits.maxMessageBytes) :
    ∃ body : Bytes, (main (some io) stdin n (.publish typeName key message)).sent =
        Client.send ("PUBLISH ".toList ++ typeName ++ ' ' :: key) ++
          (body ++ Client.send "QUIT".toList) ∧
      (main (some io) stdin n (.publish typeName key message)).result = .ok () ∧
      (∀ br : BufReader UInt8, br.remaining = body ++ Client.send "QUIT".toList →
        ∃ br', Conn.readBody limits br = (some (some (bodyLines text)), br') ∧
          br'.remaining = Client.send "QUIT".toList) ∧
      ∀ m : Message, m.body = bodyLines text →
        stdout (printEvent (.message m)) = headline m ++ '\n' :: terminated text := by
  obtain ⟨io₁, hconnect, hrest₁⟩ := connect_greeting hio hgreeting
  obtain ⟨c', hpublish⟩ : ∃ c', Client.publish { io := io₁, daemonId := Str.splitFirst ' ' (id ++
      " macro-bus MBP/1.0 ready".toList) } typeName key (bodyLines text) =
        (⟨Client.send ("PUBLISH ".toList ++ typeName ++ ' ' :: key) ++
          Str.asBytes (frame.encodeBody (bodyLines text)), .ok ()⟩, c') :=
    publish_units hrest₁ hunits hreplies hinvited haccepted
  have hfits := blockFits_of_le (newline_notMem_bodyLines text) hlen htwo
  refine ⟨Str.asBytes (frame.encodeBody (bodyLines text)), ?_, ?_, fun br hbr => ?_, fun m hm => ?_⟩
  · simp only [main, htext, oneShot, hconnect, hpublish, List.append_assoc]
    rfl
  · simp only [main, htext, oneShot, hconnect, hpublish]
  · obtain ⟨br', hread, hrest⟩ := Conn.readBody_encodeBody hbr hfits
    rw [if_neg (not_lt.mpr hsize)] at hread
    exact ⟨br', hread, hrest⟩
  · have hout : (printEvent (.message m)).filterMap (fun
        | .out line => some line
        | .err _ => none) = headline m :: m.body := by
      simp [printEvent]
    rw [stdout, hout, Lines.join_cons, hm, join_bodyLines]

/-- A daemon that invites a body and accepts it. -/
def acceptingUnits : List OutUnit :=
  [.reply ⟨status.START_BODY, "enter message body".toList, none⟩,
    .reply ⟨status.ACCEPTED, "message accepted".toList, none⟩]

/-- A text of three lines from the standard input, one of them a dot and one empty. -/
theorem text_survives_the_tool_stdin : ∃ body : Bytes,
    (main (some (.ofList (wireLine (greeting "d".toList) ++ outStream acceptingUnits)))
      (some ".\n\nb".toList) 0 (.publish "t".toList "k".toList none)).sent =
        Client.send ("PUBLISH ".toList ++ "t".toList ++ ' ' :: "k".toList) ++
          (body ++ Client.send "QUIT".toList) ∧
      ∀ m : Message, m.body = bodyLines ".\n\nb".toList →
        stdout (printEvent (.message m)) = headline m ++ '\n' :: terminated ".\n\nb".toList := by
  have htext : (none : Option Str).or (some ".\n\nb".toList) = some ".\n\nb".toList := rfl
  have hlen : ∀ line ∈ bodyLines ".\n\nb".toList,
      (frame.stuffLine line).len + 1 ≤ ({} : Limits).maxBodyLineBytes := by decide
  have hreplies : OutUnit.replies acceptingUnits =
      ⟨status.START_BODY, "enter message body".toList, none⟩ ::
        ⟨status.ACCEPTED, "message accepted".toList, none⟩ :: [] := rfl
  have hgreeting : LineFits DEFAULT_MAX_LINE (greeting "d".toList) := by decide
  obtain ⟨body, hsent, _, _, hprinted⟩ := text_survives_the_tool 0 htext
    (BufReader.remaining_ofList _) hgreeting (by decide) hreplies rfl rfl hlen (by decide)
    (by decide)
  exact ⟨body, hsent, hprinted⟩

end Publishing

end Cli

end MacroBus
