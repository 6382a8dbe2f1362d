import MacroBus.Client.Demux

/-!
# What can crash a client

A client cuts the code off a status line at its third octet, and panics where that octet is
inside a character. Nothing else a server sends can make it panic. The code may also be two
digits behind a plus sign. So the status lines that a client looks at decide both.
-/

namespace MacroBus

/-- A status line begins with three digits. -/
def BeginsWithDigits (line : Str) : Prop :=
  ∃ a b c rest, line = a :: b :: c :: rest ∧ a.isDigit = true ∧ b.isDigit = true ∧ c.isDigit = true

/-- A line that is shorter than a code, or has one that ends with a character and is not two
digits behind a plus sign. -/
def Harmless (line : Str) : Prop :=
  line.len < 3 ∨ ∃ code rest, line = code ++ rest ∧ code.len = 3 ∧
    ∀ a b, code = ['+', a, b] → ¬(a.isDigit = true ∧ b.isDigit = true)

namespace Client

/-- The status lines that `read_response` looks at. -/
def responseLines (c : Client) : List Str :=
  match _hread : c.readLine with
  | (.error _, _) => []
  | (.ok line, c') =>
    line ::
      match splitStatus line with
      | .error _ => []
      | .ok (code, rest) =>
        if status.isAsync code then
          match _hpush : c'.readPush code rest with
          | (.error _, _) => []
          | (.ok ev, c'') => responseLines { c'' with pending := c''.pending ++ [ev] }
        else []
termination_by c.io.remaining.length
decreasing_by
  have hlt := readLine_lt _hread
  have hle := readPush_le c' code rest
  rw [_hpush] at hle
  dsimp only at hle ⊢
  omega

/-- The status lines that a call looks at. -/
def callLines (c : Client) : Call → List Str
  | .publish .. =>
    responseLines c ++
      match c.readResponse with
      | (.error _, _) => []
      | (.ok resp, c') => if resp.code = status.START_BODY then responseLines c' else []
  | .nextEvent =>
    match c.pending, c.readLine with
    | [], (.ok line, _) => [line]
    | _, _ => []
  | _ => responseLines c

/-- The status lines that calls one after another look at. -/
def runLines (c : Client) : List Call → List Str
  | [] => []
  | call :: calls => callLines c call ++ runLines (c.call call).2 calls

/-- The status lines that a client looks at: the greeting, and those of its calls. -/
def sessionLines (io : BufReader UInt8) (calls : List Call) : List Str :=
  (match readLine { io := io } with
    | (.error _, _) => []
    | (.ok greeting, _) => [greeting]) ++
  match fromStream io with
  | .error _ => []
  | .ok c => runLines c calls

section Status

variable {line : Str}

/-- Two digits are a code. -/
theorem parseUnsigned_two {a b : Char} (ha : a.isDigit = true) (hb : b.isDigit = true) :
    ∃ code, parseUnsigned u16Values ['+', a, b] = some code := by
  have hrange : ∀ {c : Char}, c.isDigit = true → c.toNat ≤ 57 := by
    intro c hc
    simp only [Char.isDigit, Bool.and_eq_true, decide_eq_true_eq] at hc
    exact hc.2
  have hvalue : Nat.ofDigitChars 10 [a, b] 0 < u16Values := by
    have hbound : (10 : ℕ) * 57 + 57 < u16Values := by decide
    have hA := hrange ha
    have hB := hrange hb
    simp only [Nat.ofDigitChars_cons, Nat.ofDigitChars_nil]
    omega
  refine ⟨Nat.ofDigitChars 10 [a, b] 0, ?_⟩
  change parseDigits u16Values [a, b] = _
  rw [parseDigits, if_pos ⟨by simp, by simp [ha, hb], hvalue⟩]

/-- What is accepted as a code of three octets is three digits, or two behind a plus sign. -/
theorem code_cases {digits : Str} {code : Code} (hlen : digits.len = 3)
    (hparse : parseUnsigned u16Values digits = some code) :
    (∃ a b c, digits = [a, b, c] ∧ a.isDigit = true ∧ b.isDigit = true ∧ c.isDigit = true) ∨
      ∃ a b, digits = ['+', a, b] ∧ a.isDigit = true ∧ b.isDigit = true := by
  rcases digits_of_parseUnsigned hparse with hall | ⟨rest, rfl, _, hall⟩
  · rw [Str.len_ascii fun c hc => toNat_lt_of_isDigit (hall c hc)] at hlen
    obtain ⟨a, b, c, rfl⟩ := List.length_eq_three.mp hlen
    exact Or.inl ⟨a, b, c, rfl, hall a (by simp), hall b (by simp), hall c (by simp)⟩
  · have hplus : Char.utf8Size '+' = 1 := by decide
    rw [Str.len_cons, Str.len_ascii fun c hc => toNat_lt_of_isDigit (hall c hc), hplus] at hlen
    obtain ⟨a, b, rfl⟩ := List.length_eq_two.mp (by omega : rest.length = 2)
    exact Or.inr ⟨a, b, rfl, hall a (by simp), hall b (by simp)⟩

/-- **Which status lines do no harm**: those that do not panic, and are accepted only if they
begin with three digits. -/
theorem splitStatus_harmless_iff :
    (splitStatus line ≠ .error .panicked ∧
      ∀ code text, splitStatus line = .ok (code, text) → BeginsWithDigits line) ↔
      Harmless line := by
  unfold splitStatus Harmless
  by_cases hlen : line.len < 3
  · rw [if_pos hlen]
    exact iff_of_true ⟨by simp, by simp⟩ (Or.inl hlen)
  rw [if_neg hlen]
  cases hcut : Str.splitAtOctet 3 line with
  | none =>
    refine iff_of_false (fun h => h.1 rfl) ?_
    rintro (hshort | ⟨code, rest, rfl, hcode, _⟩)
    · exact hlen hshort
    · have hboundary := Str.splitAtOctet_append code rest
      rw [hcode, hcut] at hboundary
      cases hboundary
  | some cut =>
    obtain ⟨digits, rest⟩ := cut
    have hline := Str.append_of_splitAtOctet hcut
    have hthree := Str.len_of_splitAtOctet hcut
    dsimp only
    cases hparse : parseUnsigned u16Values digits with
    | none =>
      refine iff_of_true ⟨by simp, by simp⟩ (Or.inr ⟨digits, rest, hline.symm, hthree, ?_⟩)
      rintro a b rfl ⟨ha, hb⟩
      obtain ⟨code, hcode⟩ := parseUnsigned_two ha hb
      rw [hparse] at hcode
      cases hcode
    | some code =>
      dsimp only
      constructor
      · rintro ⟨_, hdigits⟩
        refine Or.inr ⟨digits, rest, hline.symm, hthree, ?_⟩
        rintro a b rfl _
        obtain ⟨a', _, _, _, heq, ha', _⟩ := hdigits _ _ rfl
        rw [← hline] at heq
        obtain ⟨rfl, _⟩ := List.cons.inj heq
        cases ha'
      · intro hharmless
        refine ⟨by simp, fun _ _ _ => ?_⟩
        rcases hharmless with hshort | ⟨code', rest', hsplit, hcode', hplain⟩
        · exact absurd hshort hlen
        have hboundary := Str.splitAtOctet_append code' rest'
        rw [hcode', ← hsplit, hcut] at hboundary
        obtain ⟨rfl, rfl⟩ := Prod.mk.inj (Option.some.inj hboundary)
        rcases code_cases hthree hparse with ⟨a, b, c, rfl, hdigits⟩ | ⟨a, b, rfl, hdigits⟩
        · exact ⟨a, b, c, rest, hline.symm, hdigits⟩
        · exact absurd hdigits (hplain a b rfl)

end Status

section Reading

variable {c c' : Client} {line : Str}

/-- Reading a line does not panic. -/
theorem readLineFrom_ne_panicked (maxLine : ℕ) (buf : Bytes) (io : BufReader UInt8) :
    (readLineFrom maxLine buf io).1 ≠ .error .panicked := by
  induction hn : io.remaining.length using Nat.strong_induction_on generalizing buf io with
  | _ n ih =>
    cases hread : io.readByte with
    | none =>
      rw [readLineFrom_none hread]
      simp
    | some p =>
      obtain ⟨byte, io'⟩ := p
      have hlt := BufReader.readByte_lt hread
      rw [readLineFrom_some hread]
      split
      · simp
      · split
        · simp
        · exact ih _ (hn ▸ hlt) _ _ rfl

/-- Reading a block does not panic. -/
theorem readBlockFrom_ne_panicked (out : List Str) (c : Client) :
    (readBlockFrom out c).1 ≠ .error .panicked := by
  induction hn : c.io.remaining.length using Nat.strong_induction_on generalizing out c with
  | _ n ih =>
    have hline := readLineFrom_ne_panicked c.maxLine [] c.io
    rcases hread : c.readLine with ⟨e | line, c'⟩
    · rw [(Prod.mk.inj hread).1] at hline
      rw [readBlockFrom_error hread]
      simpa using hline
    · have hlt := readLine_lt hread
      rw [readBlockFrom_ok hread]
      split
      · simp
      · exact ih _ (hn ▸ hlt) _ _ rfl

/-- Reading a push behind its code does not panic. -/
theorem readPush_ne_panicked (c : Client) (code : Code) (rest : Str) :
    (c.readPush code rest).1 ≠ .error .panicked := by
  have hblock := readBlockFrom_ne_panicked [] c
  unfold readPush
  dsimp only
  split
  · split
    · simp
    · split
      · simp
      · split
        · next heq =>
          rw [show readBlockFrom [] c = _ from heq] at hblock
          simpa using hblock
        · simp
  · split
    · split
      · simp
      · split <;> simp
    · split <;> simp

/-- Without a line there is no status line. -/
theorem responseLines_error {e : Error} (h : c.readLine = (.error e, c')) :
    responseLines c = [] := by
  rw [responseLines]
  split
  · rfl
  · next heq => cases (Prod.mk.inj (heq.symm.trans h)).1

/-- The line is one, and those behind a push are too. -/
theorem responseLines_ok (h : c.readLine = (.ok line, c')) :
    responseLines c = line :: match splitStatus line with
      | .error _ => []
      | .ok (code, rest) =>
        if status.isAsync code then
          match c'.readPush code rest with
          | (.error _, _) => []
          | (.ok ev, c'') => responseLines { c'' with pending := c''.pending ++ [ev] }
        else [] := by
  rw [responseLines]
  split
  · next heq => cases (Prod.mk.inj (heq.symm.trans h)).1
  · next heq =>
    obtain ⟨h1, rfl⟩ := Prod.mk.inj (heq.symm.trans h)
    cases h1
    congr 1
    split
    · rfl
    · split
      · split
        · next hpush => rw [hpush]
        · next hpush => rw [hpush]
      · rfl

/-- **A reply panics** exactly at a status line that does. -/
theorem readResponse_panicked_iff (c : Client) :
    c.readResponse.1 = .error .panicked ↔
      ∃ line ∈ responseLines c, splitStatus line = .error .panicked := by
  induction hn : c.io.remaining.length using Nat.strong_induction_on generalizing c with
  | _ n ih =>
    have hline := readLineFrom_ne_panicked c.maxLine [] c.io
    rcases hread : c.readLine with ⟨e | line, c'⟩
    · rw [(Prod.mk.inj hread).1] at hline
      rw [readResponse_error hread, responseLines_error hread]
      simpa using hline
    · have hlt := readLine_lt hread
      rw [readResponse_ok hread, responseLines_ok hread]
      rcases hsplit : splitStatus line with e | ⟨code, rest⟩
      · simp [hsplit]
      · dsimp only
        by_cases hasync : status.isAsync code = true
        · rw [if_pos hasync, if_pos hasync]
          have hpush := readPush_ne_panicked c' code rest
          have hle := readPush_le c' code rest
          rcases hres : c'.readPush code rest with ⟨e | ev, c''⟩
          · rw [hres] at hpush
            simpa [hsplit] using hpush
          · rw [hres] at hle
            dsimp only at hle ⊢
            have hrest := ih _ (show c''.io.remaining.length < n by omega)
              { c'' with pending := c''.pending ++ [ev] } rfl
            simp [hsplit, hrest]
        · rw [if_neg hasync, if_neg hasync]
          have hblock := readBlockFrom_ne_panicked [] c'
          refine iff_of_false ?_ (by simp [hsplit])
          split
          · split
            · next heq =>
              rw [show readBlockFrom [] c' = _ from heq] at hblock
              simpa using hblock
            · simp
          · simp

/-- A reply that is expected panics exactly at a status line that does. -/
theorem expect_panicked_iff (c : Client) (expected : Code) :
    (c.expect expected).1 = .error .panicked ↔
      ∃ line ∈ responseLines c, splitStatus line = .error .panicked := by
  rw [← readResponse_panicked_iff]
  unfold expect
  rcases c.readResponse with ⟨e | resp, c'⟩
  · rfl
  · dsimp only
    split <;> simp

/-- What is returned of a result does not panic by itself. -/
theorem map_panicked_iff {α β : Type} (f : α → β) (result : Except Error α) :
    result.map f = .error .panicked ↔ result = .error .panicked := by
  cases result <;> simp [Except.map]

/-- **A call panics** exactly at a status line that does. -/
theorem call_panicked_iff (c : Client) (call : Call) :
    (c.call call).1.result = .error .panicked ↔
      ∃ line ∈ callLines c call, splitStatus line = .error .panicked := by
  have hrequest : ∀ line expected value, call.asRequest = some (line, expected, value) →
      callLines c call = responseLines c →
      ((c.call call).1.result = .error .panicked ↔
        ∃ line ∈ callLines c call, splitStatus line = .error .panicked) := by
    intro line expected value hreq hlines
    rw [hlines, call_asRequest hreq, request, ← expect_panicked_iff c expected]
    exact map_panicked_iff value _
  cases call with
  | publish typeName key body =>
    have hfirst := readResponse_panicked_iff c
    simp only [Client.call, publish, callLines, Prod.map, Outcome.map, List.mem_append,
      or_and_right, exists_or, ← hfirst]
    rcases hresp : c.readResponse with ⟨e | resp, c'⟩
    · simp [Except.map]
    · dsimp only
      by_cases hcode : resp.code = status.START_BODY
      · have hsecond := expect_panicked_iff c' status.ACCEPTED
        rw [if_neg (by simpa using hcode), if_pos hcode]
        simp [map_panicked_iff, hsecond]
      · rw [if_pos (by simpa using hcode), if_neg hcode]
        simp [Except.map]
  | nextEvent =>
    have hline := readLineFrom_ne_panicked c.maxLine [] c.io
    simp only [Client.call, Prod.map, map_panicked_iff, nextEvent, callLines]
    cases hpending : c.pending with
    | cons ev pending => simp
    | nil =>
      dsimp only
      rcases hread : c.readLine with ⟨e | line, c'⟩
      · rw [(Prod.mk.inj hread).1] at hline
        simpa using hline
      · dsimp only
        rcases hsplit : splitStatus line with e | ⟨code, rest⟩
        · simp [hsplit]
        · have hpush := readPush_ne_panicked c' code rest
          dsimp only
          by_cases hasync : status.isAsync code = true
          · rw [if_pos hasync]
            simpa [hsplit] using hpush
          · rw [if_neg hasync]
            simp [hsplit]
  | _ => exact hrequest _ _ _ rfl rfl

/-- **Calls one after another panic** exactly at a status line that does. -/
theorem run_panicked_iff (c : Client) (calls : List Call) :
    (∃ outcome ∈ (c.run calls).1, outcome.result = .error .panicked) ↔
      ∃ line ∈ runLines c calls, splitStatus line = .error .panicked := by
  induction calls generalizing c with
  | nil => simp [Client.run, runLines]
  | cons call calls ih =>
    have hcall := call_panicked_iff c call
    simp only [Client.run, runLines, List.mem_cons, List.mem_append, or_and_right, exists_or,
      exists_eq_left, hcall, ih]

/-- A client whose first line panics is not there. -/
theorem fromStream_panicked_iff (io : BufReader UInt8) :
    fromStream io = .error .panicked ↔
      ∃ c line, readLine { io := io } = (.ok line, c) ∧ splitStatus line = .error .panicked := by
  have hline := readLineFrom_ne_panicked DEFAULT_MAX_LINE [] io
  unfold fromStream
  rcases hread : readLine { io := io } with ⟨e | greeting, c⟩
  · rw [(Prod.mk.inj hread).1] at hline
    simpa using hline
  · dsimp only
    rcases hsplit : splitStatus greeting with e | ⟨code, text⟩
    · simp [hsplit]
    · dsimp only
      split <;> simp [hsplit]

/-- A session of a client panics: reading the greeting does, or one of the calls. -/
def sessionPanics (io : BufReader UInt8) (calls : List Call) : Prop :=
  match fromStream io with
  | .error e => e = .panicked
  | .ok c => ∃ outcome ∈ (c.run calls).1, outcome.result = .error .panicked

/-- **A session panics** exactly at a status line that does. -/
theorem sessionPanics_iff (io : BufReader UInt8) (calls : List Call) :
    sessionPanics io calls ↔
      ∃ line ∈ sessionLines io calls, splitStatus line = .error .panicked := by
  have hgreeting := fromStream_panicked_iff io
  unfold sessionPanics sessionLines
  rcases hstream : fromStream io with e | c
  · rw [hstream, Except.error.injEq] at hgreeting
    dsimp only
    rw [hgreeting]
    rcases readLine { io := io } with ⟨e' | greeting, c⟩
    · simp
    · simp
  · have hrun := run_panicked_iff c calls
    rw [hstream] at hgreeting
    simp only [List.mem_append, or_and_right, exists_or, ← hrun]
    rcases hread : readLine { io := io } with ⟨e' | greeting, c'⟩
    · simp
    · have hsplit : splitStatus greeting ≠ .error .panicked := by
        intro hsplit
        cases hgreeting.mpr ⟨c', greeting, hread, hsplit⟩
      simp [hsplit]

/-- **The output of a server crashes no client, and only digits are taken for a code, exactly if
every status line is harmless.** A client reads any stream of octets, however it arrives, and
makes any calls; the status lines it looks at are the greeting, the replies and the first lines
of pushes. -/
theorem server_output_harmless_iff (io : BufReader UInt8) (calls : List Call) :
    (¬sessionPanics io calls ∧
        ∀ line ∈ sessionLines io calls, ∀ code text, splitStatus line = .ok (code, text) →
          BeginsWithDigits line) ↔
      ∀ line ∈ sessionLines io calls, Harmless line := by
  rw [sessionPanics_iff]
  constructor
  · rintro ⟨hpanics, hdigits⟩ line hline
    exact splitStatus_harmless_iff.mp
      ⟨fun hpanic => hpanics ⟨line, hline, hpanic⟩, hdigits line hline⟩
  · intro hharmless
    refine ⟨?_, fun line hline => (splitStatus_harmless_iff.mpr (hharmless line hline)).2⟩
    rintro ⟨line, hline, hpanic⟩
    exact (splitStatus_harmless_iff.mpr (hharmless line hline)).1 hpanic

/-- **Two greetings that do harm**: the replacement of an octet that is not UTF-8 begins inside
the code, and the client panics; a plus sign and two digits are taken for a code. -/
theorem greeting_crashes_client :
    sessionPanics (.ofList [97, 98, 0xFF, LF]) [] ∧
      "+12 x".toList ∈ sessionLines (.ofList (Str.asBytes "+12 x\n".toList)) [] ∧
      splitStatus "+12 x".toList = .ok (12, "x".toList) ∧
      ¬BeginsWithDigits "+12 x".toList := by
  refine ⟨?_, ?_, by decide, ?_⟩
  · have hsplit : (BufReader.ofList [97, 98, 0xFF, LF]).remaining = [97, 98, 0xFF] ++ LF :: [] :=
      BufReader.remaining_ofList _
    obtain ⟨io, hread, _⟩ := readLine_raw (c := { io := .ofList [97, 98, 0xFF, LF] }) hsplit
      (by decide) (by decide)
    refine (sessionPanics_iff _ _).mpr ⟨['a', 'b', Utf8.replacement], ?_, by decide⟩
    unfold sessionLines
    rw [hread]
    exact List.mem_append_left _ (List.mem_singleton.mpr (by decide))
  · have hsplit : (BufReader.ofList (Str.asBytes "+12 x\n".toList)).remaining =
        Str.asBytes "+12 x".toList ++ LF :: [] := (BufReader.remaining_ofList _).trans (by decide)
    obtain ⟨io, hread, _⟩ := readLine_raw
      (c := { io := .ofList (Str.asBytes "+12 x\n".toList) }) hsplit (by decide) (by decide)
    unfold sessionLines
    rw [hread]
    exact List.mem_append_left _ (List.mem_singleton.mpr (by decide))
  · rintro ⟨a, _, _, _, heq, ha, _⟩
    obtain ⟨rfl, _⟩ := List.cons.inj (show '+' :: "12 x".toList = _ from heq)
    cases ha

end Reading

end Client

end MacroBus
