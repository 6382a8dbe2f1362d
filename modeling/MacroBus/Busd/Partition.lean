import MacroBus.Busd.Feeding

/-!
# The stream of a client and its partition into reads

A line that arrives in pieces is treated like one that arrives whole, except around the
limits: while its newline is not buffered, a pending carriage return counts, and an
over-long line of a body stays in the buffer. This file finds the lines for which that
matters and shows that without them the partition of the stream makes no difference.
-/

namespace MacroBus

namespace Session

variable {E : Setting} {s s' : Session}

/-- The line is within a limit that its carriage return exceeds. -/
def OverByCr (max : ℕ) (raw : Bytes) : Prop := max < raw.length ∧ (stripCr raw).length ≤ max

/-- What becomes of the line depends on how it arrives. A command line does when it exceeds
the limit by its carriage return. A body line does when it exceeds the limit and one read can
bring all of it beyond the limit; when none can, the body is given up before the line is
complete, which makes it a command line. -/
def Critical (limits : Limits) (s : Session) (raw : Bytes) : Prop :=
  match s.conn.phase with
  | .select => OverByCr limits.maxCommandLineBytes raw
  | .bodyRead .. =>
    limits.maxBodyLineBytes < raw.length ∧
      (raw.length < limits.maxBodyLineBytes + READ_SIZE ∨
        OverByCr limits.maxCommandLineBytes raw)
  | _ => False

/-- The session after one more line. -/
def nextLine (E : Setting) (s : Session) (raw : Bytes) : Session :=
  feed E (feed E s raw) [LF]

/-- No line is critical where it is read. -/
def Clear (E : Setting) : Session → List Bytes → Prop
  | _, [] => True
  | s, raw :: lines => ¬Critical E.limits s raw ∧ Clear E (nextLine E s raw) lines

section CompleteLines

variable {part more raw : Bytes} {typeName key : Str} {acc : BodyAcc}

/-- Nothing is left in the buffer of a connection that is gone. -/
theorem AtLine.feed_gone_empty (h : s.AtLine) (hline : LF ∉ part)
    (hgone : (feed E s part).conn.phase = .gone) : (feed E s part).conn.rbuf = [] := by
  have hselect : ∀ t : Session, t.AtLine → t.conn.phase = .select →
      (feed E t part).conn.phase = .gone → (feed E t part).conn.rbuf = [] := by
    intro t ht hphase hgone
    by_cases hlen : part.length ≤ E.limits.maxCommandLineBytes
    · rw [feed_select_short hphase ht.calm (by simpa [ht.empty]) (by simpa [ht.empty])] at hgone
      cases hgone
    · rw [feed_select_long hphase ht.calm (by simpa [ht.empty]) (by simpa [ht.empty] using hlen)]
      rfl
  rcases h.phase_cases with hphase | ⟨typeName, key, acc, hphase⟩ | hphase
  · exact hselect s h hphase hgone
  · by_cases hlen : part.length ≤ E.limits.maxBodyLineBytes
    · rw [feed_bodyRead_short hphase (by simpa [h.empty]) (by simpa [h.empty])] at hgone
      cases hgone
    · rw [feed_bodyRead_long hphase (by simpa [h.empty])
        (by simpa [h.empty] using hlen)] at hgone ⊢
      exact hselect _ (h.abandoned hphase) rfl hgone
  · rw [feed_gone hphase]
    exact h.empty

/-- After a line the session is at a line again. -/
theorem AtLine.nextLine (h : s.AtLine) (hraw : LF ∉ raw) : (nextLine E s raw).AtLine := by
  have hcalm : (feed E s raw).Calm := h.calm.feed h.waits raw
  have hwaits := feed_waits E s raw
  have hclosed : Lines.Closed LF ((feed E s raw).conn.rbuf ++ [LF]) := Or.inr ⟨_, rfl⟩
  unfold Session.nextLine
  cases hphase : (feed E s raw).conn.phase with
  | select =>
    rw [feed_select hphase hcalm]
    have hdrops := hcalm (by rw [hphase]; rfl)
    exact atLine_settle (fun _ => hdrops) hclosed rfl
  | bodyRead typeName key acc =>
    rw [feed_bodyRead hphase]
    have hdrops := hcalm (by rw [hphase]; rfl)
    exact atLine_settle (fun _ => hdrops) hclosed rfl
  | gone =>
    rw [feed_gone hphase]
    exact ⟨hwaits, hcalm, h.feed_gone_empty hraw hphase⟩
  | _ => rw [hphase] at hwaits; cases hwaits

/-- The newline of a command line may arrive with or after the rest of it, unless the
carriage return makes the difference. -/
theorem feed_select_line (h : s.AtLine) (hphase : s.conn.phase = .select)
    (hline : LF ∉ part ++ more)
    (hcr : ¬OverByCr E.limits.maxCommandLineBytes (part ++ more)) :
    feed E (feed E s part) (more ++ [LF]) = nextLine E s (part ++ more) := by
  have hpart : LF ∉ part := fun hmem => hline (List.mem_append_left _ hmem)
  have hempty := h.empty
  unfold nextLine
  by_cases hlen : (part ++ more).length ≤ E.limits.maxCommandLineBytes
  · have hlen' : part.length ≤ E.limits.maxCommandLineBytes := by
      rw [List.length_append] at hlen
      omega
    have hcalm : ∀ rbuf, (s.moved rbuf .select []).Calm :=
      fun _ _ => h.calm (by rw [hphase]; rfl)
    rw [feed_select_short hphase h.calm (by simpa [hempty]) (by simpa [hempty]),
      feed_select_short hphase h.calm (by simpa [hempty] using hline) (by rwa [hempty]),
      feed_select rfl (hcalm _), feed_select rfl (hcalm _)]
    simp [hempty]
  · have hstrip : E.limits.maxCommandLineBytes < (stripCr (part ++ more)).length := by
      by_contra hle
      exact hcr ⟨by omega, by omega⟩
    have hbuffer : LF ∉ s.conn.rbuf ++ (part ++ more) := by simpa [hempty] using hline
    rw [feed_select_long hphase h.calm hbuffer (by rw [hempty]; simpa using hlen),
      feed_gone (s := s.refused) rfl]
    by_cases hlen' : part.length ≤ E.limits.maxCommandLineBytes
    · rw [feed_select_short hphase h.calm (by simpa [hempty]) (by simpa [hempty])]
      have hbuffer' : s.conn.rbuf ++ part ++ (more ++ [LF]) = (part ++ more) ++ LF :: [] := by
        simp [hempty]
      rw [feed_select_long_line (s := s.moved (s.conn.rbuf ++ part) .select []) rfl
        (fun _ => h.calm (by rw [hphase]; rfl)) hbuffer' hline hstrip]
      simp [refused, moved, left]
    · rw [feed_select_long hphase h.calm (by simpa [hempty]) (by simpa [hempty] using hlen'),
        feed_gone rfl]

/-- **The newline of a line may arrive with or after the rest of it**, unless the line is
critical. -/
theorem feed_line (h : s.AtLine) (hline : LF ∉ part ++ more)
    (hcritical : ¬Critical E.limits s (part ++ more)) (hread : more.length < READ_SIZE) :
    feed E (feed E s part) (more ++ [LF]) = nextLine E s (part ++ more) := by
  have hpart : LF ∉ part := fun hmem => hline (List.mem_append_left _ hmem)
  have hempty := h.empty
  rcases h.phase_cases with hphase | ⟨typeName, key, acc, hphase⟩ | hphase
  · simp only [Critical, hphase] at hcritical
    exact feed_select_line h hphase hline hcritical
  · simp only [Critical, hphase, not_and, not_or, not_lt, List.length_append] at hcritical
    by_cases hlen : part.length ≤ E.limits.maxBodyLineBytes
    · have hlen' : (part ++ more).length ≤ E.limits.maxBodyLineBytes := by
        rw [List.length_append]
        by_contra hgt
        have := (hcritical (by omega)).1
        omega
      unfold nextLine
      rw [feed_bodyRead_short hphase (by simpa [hempty]) (by simpa [hempty]),
        feed_bodyRead_short hphase (by simpa [hempty] using hline) (by rwa [hempty]),
        feed_bodyRead rfl, feed_bodyRead rfl]
      simp [hempty]
    · have hlong : E.limits.maxBodyLineBytes < (part ++ more).length := by
        rw [List.length_append]
        omega
      unfold nextLine
      rw [feed_bodyRead_long hphase (by simpa [hempty]) (by simpa [hempty] using hlen),
        feed_bodyRead_long hphase (by simpa [hempty] using hline) (by rwa [hempty])]
      rw [List.length_append] at hlong
      exact feed_select_line (h.abandoned hphase) rfl hline (hcritical hlong).2
  · unfold nextLine
    rw [feed_gone hphase, feed_gone hphase, feed_gone hphase, feed_gone hphase]

end CompleteLines

/-- No octets change nothing. -/
theorem AtLine.feed_nil (h : s.AtLine) : feed E s [] = s := by
  have hempty := h.empty
  rcases h.phase_cases with hphase | ⟨typeName, key, acc, hphase⟩ | hphase
  · rw [feed_select_short hphase h.calm (by simp [hempty]) (by simp [hempty])]
    exact moved_self (by simp) hphase
  · rw [feed_bodyRead_short hphase (by simp [hempty]) (by simp [hempty])]
    exact moved_self (by simp) hphase
  · exact feed_gone hphase []

/-- **Without critical lines the partition makes no difference.** However the rest of a
stream arrives, the session ends where it does when each line and each newline arrive by
themselves. -/
theorem feed_pieces (pieces : List Bytes) {part : Bytes} (h : s.AtLine) (hpart : LF ∉ part)
    (hread : ∀ p ∈ pieces, LF ∈ p → p.length ≤ READ_SIZE)
    (hclear : Clear E s (Lines.whole LF (part ++ pieces.flatten))) :
    pieces.foldl (feed E) (feed E s part) =
      feed E ((Lines.whole LF (part ++ pieces.flatten)).foldl (nextLine E) s)
        (Lines.unfinished LF (part ++ pieces.flatten)) := by
  induction hn : pieces.flatten.length + pieces.length using Nat.strong_induction_on
    generalizing s part pieces with
  | _ n ih =>
    cases pieces with
    | nil =>
      simp only [List.flatten_nil, List.append_nil, List.foldl_nil] at hclear ⊢
      rw [Lines.whole_eq_nil hpart, Lines.unfinished_eq_self hpart, List.foldl_nil]
    | cons p pieces =>
      have hreads : ∀ q ∈ pieces, LF ∈ q → q.length ≤ READ_SIZE :=
        fun q hq => hread q (List.mem_cons_of_mem p hq)
      simp only [List.flatten_cons, List.length_append, List.length_cons] at hn
      cases hcut : Lines.cut LF p with
      | none =>
        have hp := Lines.cut_eq_none_iff.mp hcut
        have hline : LF ∉ part ++ p := by simp [hpart, hp]
        rw [List.flatten_cons, ← List.append_assoc] at hclear ⊢
        rw [List.foldl_cons, feed_append h hline]
        exact ih _ (by omega) pieces h hline hreads hclear rfl
      | some cut =>
        obtain ⟨hsplit, hmore⟩ := Lines.cut_eq_some_iff.mp hcut
        obtain ⟨more, rest⟩ := cut
        subst hsplit
        have hline : LF ∉ part ++ more := by simp [hpart, hmore]
        have hsize := hread _ List.mem_cons_self (by simp)
        simp only [List.length_append, List.length_cons] at hn hsize
        -- The piece ends a line: that line is done, and the rest of the piece is still to come.
        have hstream : part ++ ((more ++ LF :: rest) :: pieces).flatten =
            (part ++ more) ++ LF :: (rest :: pieces).flatten := by simp
        rw [hstream, Lines.whole_append_cons hline] at hclear ⊢
        obtain ⟨hcritical, hclear⟩ := hclear
        rw [List.foldl_cons, feed_line_append (feed_waits E s part) (h.calm.feed h.waits part),
          feed_line h hline hcritical (by omega), List.foldl_cons, Lines.unfinished_append_cons]
        have hnext := h.nextLine (E := E) hline
        have hnil : feed E (nextLine E s (part ++ more)) [] = nextLine E s (part ++ more) :=
          hnext.feed_nil
        have := ih ((rest :: pieces).flatten.length + (rest :: pieces).length)
          (by simp only [List.flatten_cons, List.length_append, List.length_cons]; omega)
          (rest :: pieces) hnext List.not_mem_nil ?_ (by simpa using hclear) rfl
        · simpa [hnil] using this
        · intro q hq hmem
          rcases List.mem_cons.mp hq with rfl | hq
          · omega
          · exact hreads q hq hmem

section Divergence

variable {s₁ s₂ : Session} {typeName key : Str} {acc : BodyAcc} {raw part : Bytes}

/-- Two sessions that have done different things at one point. -/
def Diverge (s₁ s₂ : Session) : Prop :=
  ∃ log e₁ e₂, e₁ ≠ e₂ ∧ log ++ [e₁] <+: s₁.log ∧ log ++ [e₂] <+: s₂.log

/-- What an internal step does first stays the next thing done. -/
theorem prefix_settle {e : Effect}
    (hgo : ∃ c h es, Conn.go E.limits E.fwd (E.clock (s.log.countP Effect.isRegister)) s.conn
      s.hub = some (c, h, e :: es)) : s.log ++ [e] <+: (settle E s).log := by
  obtain ⟨c, h, es, hgo⟩ := hgo
  have hadv : s.advance E .go = some ⟨c, h, s.log ++ e :: es⟩ :=
    advance_go_eq_some_iff.mpr ⟨c, h, e :: es, hgo, rfl⟩
  rw [settle_of_advance hadv]
  refine List.IsPrefix.trans ?_ (log_prefix_settle E _)
  exact ⟨es, by simp⟩

/-- A command line is taken when it is complete. -/
theorem command_prefix_feed (hphase : s.conn.phase = .select) (hcalm : s.Calm)
    (hbuf : s.conn.rbuf ++ part = raw ++ [LF]) (hraw : LF ∉ raw)
    (hlen : (stripCr raw).length ≤ E.limits.maxCommandLineBytes) :
    s.log ++ [.command (stripCr raw)] <+: (feed E s part).log := by
  rw [feed_select hphase hcalm, hbuf, ← List.append_nil s.log]
  apply prefix_settle (s := s.moved (raw ++ [LF]) .take [])
  rw [Conn.go_take rfl, moved_rbuf, takeLine_complete hraw, if_neg (by omega)]
  exact ⟨_, _, _, rfl⟩

/-- A body line is taken when it is complete. -/
theorem bodyLine_prefix_feed (hphase : s.conn.phase = .bodyRead typeName key acc)
    (hbuf : s.conn.rbuf ++ part = raw ++ [LF]) (hraw : LF ∉ raw)
    (hlen : (stripCr raw).length ≤ E.limits.maxBodyLineBytes) :
    s.log ++ [.bodyLine (stripCr raw)] <+: (feed E s part).log := by
  rw [feed_bodyRead hphase, hbuf, ← List.append_nil s.log]
  apply prefix_settle (s := s.moved (raw ++ [LF]) (.body typeName key acc) [])
  rw [Conn.go_body rfl, moved_rbuf, takeLine_complete hraw, if_neg (by omega)]
  dsimp only
  split
  · exact ⟨_, _, _, rfl⟩
  · exact ⟨_, _, _, rfl⟩

/-- A complete over-long body line is removed when the body is given up. -/
theorem giveUp_prefix_feed (hphase : s.conn.phase = .bodyRead typeName key acc)
    (hbuf : s.conn.rbuf ++ part = raw ++ [LF]) (hraw : LF ∉ raw)
    (hlen : E.limits.maxBodyLineBytes < (stripCr raw).length) :
    s.log ++ [.giveUp (raw ++ [LF])] <+: (feed E s part).log := by
  rw [feed_bodyRead hphase, hbuf, ← List.append_nil s.log]
  apply prefix_settle (s := s.moved (raw ++ [LF]) (.body typeName key acc) [])
  rw [Conn.go_body rfl, moved_rbuf, takeLine_complete hraw, if_pos hlen]
  dsimp only
  rw [take_line_length]
  exact ⟨_, _, _, rfl⟩

/-- An over-long unfinished body line is not. -/
theorem givenUp_prefix_feed (hphase : s.conn.phase = .bodyRead typeName key acc)
    (hline : LF ∉ s.conn.rbuf ++ part)
    (hlen : E.limits.maxBodyLineBytes < (s.conn.rbuf ++ part).length) :
    s.log ++ givenUp <+: (feed E s part).log := by
  rw [feed_bodyRead hphase, settle_body_long rfl hline hlen, moved_moved]
  refine List.IsPrefix.trans ?_ (log_prefix_settle E _)
  exact ⟨[], by simp⟩

/-- Where a critical command line arrives in two reads, the newline being in the second, it
is taken; where its newline arrives by itself, it is refused. -/
theorem diverge_of_overByCr (h : s.AtLine) (hphase : s.conn.phase = .select) (hraw : LF ∉ raw)
    (hcr : OverByCr E.limits.maxCommandLineBytes raw) :
    Diverge
      (feed E (feed E s (raw.take E.limits.maxCommandLineBytes))
        (raw.drop E.limits.maxCommandLineBytes ++ [LF]))
      (nextLine E s raw) := by
  have hempty := h.empty
  have htake : LF ∉ raw.take E.limits.maxCommandLineBytes := fun hmem =>
    hraw (List.mem_of_mem_take hmem)
  refine ⟨s.log, .command (stripCr raw), lineTooLong, by simp [lineTooLong, writeLine], ?_, ?_⟩
  · rw [feed_select_short hphase h.calm (by simpa [hempty]) (by simp [hempty]), hempty,
      List.nil_append]
    have hcommand := command_prefix_feed (E := E)
      (s := s.moved (raw.take E.limits.maxCommandLineBytes) .select []) rfl
      (fun _ => h.calm (by rw [hphase]; rfl)) (take_append_drop_line raw _) hraw hcr.2
    rwa [moved_log, List.append_nil] at hcommand
  · unfold nextLine
    rw [feed_select_long hphase h.calm (by simpa [hempty]) (by simpa [hempty] using hcr.1),
      feed_gone rfl]
    exact ⟨[.call (.removeConn s.conn.mySubs)], by simp [refused, left, moved]⟩

/-- **A critical line is treated in two ways.** -/
theorem diverge_of_critical (h : s.AtLine) (hraw : LF ∉ raw) (hcritical : Critical E.limits s raw) :
    ∃ n, raw.length < n + READ_SIZE ∧
      Diverge (feed E (feed E s (raw.take n)) (raw.drop n ++ [LF])) (nextLine E s raw) := by
  have hempty := h.empty
  rcases h.phase_cases with hphase | ⟨typeName, key, acc, hphase⟩ | hphase
  · simp only [Critical, hphase] at hcritical
    refine ⟨E.limits.maxCommandLineBytes, ?_, diverge_of_overByCr h hphase hraw hcritical⟩
    have hstrip := length_le_stripCr raw
    have := hcritical.2
    simp only [READ_SIZE]
    omega
  · simp only [Critical, hphase] at hcritical
    obtain ⟨hlong, hcases⟩ := hcritical
    by_cases hshort : raw.length < E.limits.maxBodyLineBytes + READ_SIZE
    · refine ⟨E.limits.maxBodyLineBytes, hshort, ?_⟩
      have htake : LF ∉ raw.take E.limits.maxBodyLineBytes := fun hmem =>
        hraw (List.mem_of_mem_take hmem)
      have hsecond : s.log ++ [.giveUp []] <+: (nextLine E s raw).log := by
        have hgiven : s.log ++ givenUp <+: (feed E s raw).log :=
          givenUp_prefix_feed hphase (by simpa [hempty]) (by simpa [hempty])
        have hhead : s.log ++ [.giveUp []] <+: s.log ++ givenUp :=
          (List.prefix_append_right_inj s.log).mpr ⟨_, rfl⟩
        exact (hhead.trans hgiven).trans (log_prefix_feed E _ _)
      rw [feed_bodyRead_short hphase (by simpa [hempty]) (by simp [hempty]), hempty,
        List.nil_append]
      by_cases hstrip : (stripCr raw).length ≤ E.limits.maxBodyLineBytes
      · have hfirst := bodyLine_prefix_feed (E := E)
          (s := s.moved (raw.take E.limits.maxBodyLineBytes) (.bodyRead typeName key acc) []) rfl
          (take_append_drop_line raw _) hraw hstrip
        rw [moved_log, List.append_nil] at hfirst
        exact ⟨s.log, .bodyLine (stripCr raw), .giveUp [], by simp, hfirst, hsecond⟩
      · have hfirst := giveUp_prefix_feed (E := E)
          (s := s.moved (raw.take E.limits.maxBodyLineBytes) (.bodyRead typeName key acc) []) rfl
          (take_append_drop_line raw _) hraw (by omega)
        rw [moved_log, List.append_nil] at hfirst
        exact ⟨s.log, .giveUp (raw ++ [LF]), .giveUp [], by simp, hfirst, hsecond⟩
    · have hcr := hcases.resolve_left hshort
      have hstrip := length_le_stripCr raw
      have hover := hcr.2
      simp only [READ_SIZE] at hshort ⊢
      refine ⟨E.limits.maxCommandLineBytes, by omega, ?_⟩
      have htake : LF ∉ raw.take E.limits.maxCommandLineBytes := fun hmem =>
        hraw (List.mem_of_mem_take hmem)
      have hdiverge := diverge_of_overByCr (E := E) (h.abandoned hphase) rfl hraw hcr
      unfold nextLine at hdiverge ⊢
      rw [feed_bodyRead_long hphase (by simpa [hempty])
          (by rw [hempty, List.nil_append, List.length_take]; omega),
        feed_bodyRead_long hphase (by simpa [hempty]) (by simpa [hempty])]
      exact hdiverge
  · simp only [Critical, hphase] at hcritical

/-- A line that is not critical is accepted if and only if it is within the limit without
its line end. -/
def Verdict (limits : Limits) (s : Session) (raw : Bytes) (log : List Effect) : Prop :=
  match s.conn.phase with
  | .select =>
    if (stripCr raw).length ≤ limits.maxCommandLineBytes then
      s.log ++ [.command (stripCr raw)] <+: log
    else s.log ++ [lineTooLong] <+: log
  | .bodyRead .. =>
    if (stripCr raw).length ≤ limits.maxBodyLineBytes then
      s.log ++ [.bodyLine (stripCr raw)] <+: log
    else ∃ removed, s.log ++ [.giveUp removed] <+: log
  | _ => True

/-- What has been decided about a line stays decided. -/
theorem Verdict.mono {limits : Limits} {log log' : List Effect} (h : Verdict limits s raw log)
    (hlog : log <+: log') : Verdict limits s raw log' := by
  unfold Verdict at h ⊢
  cases hphase : s.conn.phase with
  | select =>
    simp only [hphase] at h ⊢
    split at h
    · next hlen => rw [if_pos hlen]; exact h.trans hlog
    · next hlen => rw [if_neg hlen]; exact h.trans hlog
  | bodyRead typeName key acc =>
    simp only [hphase] at h ⊢
    split at h
    · next hlen => rw [if_pos hlen]; exact h.trans hlog
    · next hlen =>
      obtain ⟨removed, h⟩ := h
      rw [if_neg hlen]
      exact ⟨removed, h.trans hlog⟩
  | _ => trivial

/-- The verdict on a line that is not critical. -/
theorem verdict_nextLine (h : s.AtLine) (hraw : LF ∉ raw)
    (hcritical : ¬Critical E.limits s raw) :
    Verdict E.limits s raw (nextLine E s raw).log := by
  have hempty := h.empty
  have hstrip := length_le_stripCr raw
  have hstrip' := stripCr_length_le raw
  unfold Verdict nextLine
  rcases h.phase_cases with hphase | ⟨typeName, key, acc, hphase⟩ | hphase
  · simp only [Critical, hphase, OverByCr, not_and, not_le] at hcritical
    simp only [hphase]
    split
    · next hlen =>
      have hshort : raw.length ≤ E.limits.maxCommandLineBytes := by
        by_contra hgt
        have := hcritical (by omega)
        omega
      rw [feed_select_short hphase h.calm (by simpa [hempty]) (by simpa [hempty]), hempty,
        List.nil_append]
      have htaken := command_prefix_feed (E := E) (s := s.moved raw .select []) rfl
        (fun _ => h.calm (by rw [hphase]; rfl)) rfl hraw hlen
      rwa [moved_log, List.append_nil] at htaken
    · next hlen =>
      rw [feed_select_long hphase h.calm (by simpa [hempty]) (by rw [hempty, List.nil_append]; omega),
        feed_gone rfl]
      exact ⟨[.call (.removeConn s.conn.mySubs)], rfl⟩
  · simp only [Critical, hphase, not_and, not_or, not_lt, READ_SIZE] at hcritical
    simp only [hphase]
    split
    · next hlen =>
      have hshort : raw.length ≤ E.limits.maxBodyLineBytes := by
        by_contra hgt
        have := (hcritical (by omega)).1
        omega
      rw [feed_bodyRead_short hphase (by simpa [hempty]) (by simpa [hempty]), hempty,
        List.nil_append]
      have htaken := bodyLine_prefix_feed (E := E)
        (s := s.moved raw (.bodyRead typeName key acc) []) rfl rfl hraw hlen
      rwa [moved_log, List.append_nil] at htaken
    · next hlen =>
      have hgiven : s.log ++ givenUp <+: (feed E s raw).log :=
        givenUp_prefix_feed hphase (by simpa [hempty])
          (by rw [hempty, List.nil_append]; omega)
      have hhead : s.log ++ [.giveUp []] <+: s.log ++ givenUp :=
        (List.prefix_append_right_inj s.log).mpr ⟨_, rfl⟩
      exact ⟨[], (hhead.trans hgiven).trans (log_prefix_feed E _ _)⟩
  · simp only [hphase]

/-- The stream cut into non-empty reads of at most the size of the read buffer. -/
structure Partition (stream : Bytes) (pieces : List Bytes) : Prop where
  /-- Together the reads are the stream. -/
  joined : pieces.flatten = stream
  /-- No read is empty: that would be the end of the stream. -/
  nonempty : ∀ p ∈ pieces, p ≠ []
  /-- Every read fits the buffer it is read into. -/
  fits : ∀ p ∈ pieces, p.length ≤ READ_SIZE

/-- Octets that arrive one by one. -/
def singles (octets : Bytes) : List Bytes := octets.map fun b => [b]

@[simp] theorem flatten_singles (octets : Bytes) : (singles octets).flatten = octets := by
  induction octets with
  | nil => rfl
  | cons b octets ih => simpa [singles] using ih

/-- One octet is a read. -/
theorem mem_singles {octets p : Bytes} (h : p ∈ singles octets) :
    p ≠ [] ∧ p.length ≤ READ_SIZE := by
  obtain ⟨b, _, rfl⟩ := List.mem_map.mp h
  exact ⟨by simp, by simp [READ_SIZE]⟩

/-- The reads of a partition feed a waiting session. -/
theorem foldl_read_eq {pieces : List Bytes} (hwaits : s.conn.phase.waits = true)
    (hpieces : ∀ p ∈ pieces, p ≠ [] ∧ p.length ≤ READ_SIZE) :
    pieces.foldl (read E) s = pieces.foldl (feed E) s := by
  induction pieces generalizing s with
  | nil => rfl
  | cons p pieces ih =>
    obtain ⟨hne, hlen⟩ := hpieces p (by simp)
    rw [List.foldl_cons, List.foldl_cons, read_eq_feed hwaits hne hlen]
    exact ih (feed_waits E s p) fun q hq => hpieces q (by simp [hq])

/-- Feeding more only adds to the log. -/
theorem log_prefix_feeds (E : Setting) (s : Session) (pieces : List Bytes) :
    s.log <+: (pieces.foldl (feed E) s).log := by
  induction pieces generalizing s with
  | nil => exact List.prefix_refl _
  | cons p pieces ih => exact (log_prefix_feed E s p).trans (ih _)

/-- Further lines only add to the log. -/
theorem log_prefix_nextLines (E : Setting) (s : Session) (lines : List Bytes) :
    s.log <+: (lines.foldl (nextLine E) s).log := by
  induction lines generalizing s with
  | nil => exact List.prefix_refl _
  | cons raw lines ih =>
    exact ((log_prefix_feed E s raw).trans (log_prefix_feed E _ [LF])).trans (ih _)

/-- A session stays at a line over whole lines. -/
theorem AtLine.nextLines {lines : List Bytes} (h : s.AtLine) (hlines : ∀ raw ∈ lines, LF ∉ raw) :
    (lines.foldl (Session.nextLine E) s).AtLine := by
  induction lines generalizing s with
  | nil => exact h
  | cons raw lines ih =>
    exact ih (h.nextLine (hlines raw (by simp))) fun r hr => hlines r (by simp [hr])

/-- Lines that are clear are clear one after the other. -/
theorem clear_append {before after : List Bytes} :
    Clear E s (before ++ after) ↔ Clear E s before ∧ Clear E (before.foldl (nextLine E) s) after := by
  induction before generalizing s with
  | nil => simp [Clear]
  | cons raw before ih => simp [Clear, ih, and_assoc]

/-- Lines that are not clear have a first critical one. -/
theorem exists_critical {lines : List Bytes} (h : ¬Clear E s lines) :
    ∃ before raw after, lines = before ++ raw :: after ∧ Clear E s before ∧
      Critical E.limits (before.foldl (nextLine E) s) raw := by
  induction lines generalizing s with
  | nil => exact absurd trivial h
  | cons raw lines ih =>
    by_cases hcritical : Critical E.limits s raw
    · exact ⟨[], raw, lines, rfl, trivial, hcritical⟩
    · obtain ⟨before, raw', after, rfl, hclear, hcritical'⟩ := ih fun hc => h ⟨hcritical, hc⟩
      exact ⟨raw :: before, raw', after, rfl, ⟨hcritical, hclear⟩, hcritical'⟩

/-- **A stream without critical lines is served in one way.** -/
theorem serve_of_clear {id : ℕ} {hub : Hub} {stream : Bytes} {pieces : List Bytes}
    (hpieces : Partition stream pieces)
    (hclear : Clear E (accept E id hub) (Lines.whole LF stream)) :
    serve E id hub pieces =
      (read E (feed E ((Lines.whole LF stream).foldl (nextLine E) (accept E id hub))
        (Lines.unfinished LF stream)) []).log := by
  have hline := atLine_accept E id hub
  have hfeed := feed_pieces pieces hline List.not_mem_nil (fun p hp _ => hpieces.fits p hp)
    (by rwa [List.nil_append, hpieces.joined])
  rw [hline.feed_nil, List.nil_append, hpieces.joined] at hfeed
  unfold serve
  rw [foldl_read_eq hline.waits fun p hp => ⟨hpieces.nonempty p hp, hpieces.fits p hp⟩, hfeed]

/-- A stream of which one read is chosen and the other octets arrive one by one. -/
theorem partition_around {p : Bytes} (hp : p ≠ []) (hfits : p.length ≤ READ_SIZE)
    (before part rest : Bytes) :
    Partition (before ++ (part ++ (p ++ rest)))
      (singles before ++ (singles part ++ p :: singles rest)) := by
  have hall : ∀ q ∈ singles before ++ (singles part ++ p :: singles rest),
      q ≠ [] ∧ q.length ≤ READ_SIZE := by
    intro q hq
    simp only [List.mem_append, List.mem_cons] at hq
    rcases hq with hq | hq | rfl | hq
    · exact mem_singles hq
    · exact mem_singles hq
    · exact ⟨hp, hfits⟩
    · exact mem_singles hq
  exact ⟨by simp, fun q hq => (hall q hq).1, fun q hq => (hall q hq).2⟩

/-- What such a stream leads to behind clear lines. -/
theorem prefix_serve_around {id : ℕ} {hub : Hub} {before : List Bytes} {p : Bytes}
    (hbefore : ∀ r ∈ before, LF ∉ r) (hclear : Clear E (accept E id hub) before)
    (hpart : LF ∉ part) (hp : p ≠ []) (hfits : p.length ≤ READ_SIZE) (rest : Bytes) :
    (feed E (feed E (before.foldl (nextLine E) (accept E id hub)) part) p).log <+:
      serve E id hub (singles (Lines.join LF before) ++ (singles part ++ p :: singles rest)) := by
  have hline := atLine_accept E id hub
  have hat := hline.nextLines (E := E) hbefore
  have hcommon : (singles (Lines.join LF before)).foldl (feed E) (accept E id hub) =
      before.foldl (nextLine E) (accept E id hub) := by
    have hfeed := feed_pieces (singles (Lines.join LF before)) hline List.not_mem_nil
      (fun q hq _ => (mem_singles hq).2)
      (by rwa [flatten_singles, List.nil_append, Lines.whole_join hbefore])
    have htail := Lines.unfinished_join_append before (List.not_mem_nil (a := LF))
    rw [List.append_nil] at htail
    rwa [flatten_singles, List.nil_append, Lines.whole_join hbefore, hline.feed_nil, htail,
      hat.feed_nil] at hfeed
  have hsingles : (singles part).foldl (feed E) (before.foldl (nextLine E) (accept E id hub)) =
      feed E (before.foldl (nextLine E) (accept E id hub)) part := by
    have hfeed := feed_pieces (E := E) (singles part) hat List.not_mem_nil
      (fun q hq _ => (mem_singles hq).2)
      (by rw [flatten_singles, List.nil_append, Lines.whole_eq_nil hpart]; trivial)
    rwa [flatten_singles, List.nil_append, Lines.whole_eq_nil hpart,
      Lines.unfinished_eq_self hpart, hat.feed_nil] at hfeed
  have hpieces := partition_around hp hfits (Lines.join LF before) part rest
  unfold serve
  rw [foldl_read_eq hline.waits fun q hq => ⟨hpieces.nonempty q hq, hpieces.fits q hq⟩,
    List.foldl_append, List.foldl_append, hcommon, hsingles, List.foldl_cons]
  exact (log_prefix_feeds E _ _).trans (log_prefix_read E _ [])

/-- **A critical line is served in two ways.** -/
theorem exists_serve_ne {id : ℕ} {hub : Hub} {stream : Bytes}
    (h : ¬Clear E (accept E id hub) (Lines.whole LF stream)) :
    ∃ pieces₁ pieces₂, Partition stream pieces₁ ∧ Partition stream pieces₂ ∧
      serve E id hub pieces₁ ≠ serve E id hub pieces₂ := by
  obtain ⟨before, raw, after, hwhole, hclear, hcritical⟩ := exists_critical h
  have hmem : ∀ r ∈ before ++ raw :: after, LF ∉ r := fun r hr =>
    Lines.not_mem_of_mem_whole (hwhole ▸ hr)
  have hraw : LF ∉ raw := hmem raw (by simp)
  have hbefore : ∀ r ∈ before, LF ∉ r := fun r hr => hmem r (by simp [hr])
  obtain ⟨rest, rfl⟩ : ∃ rest, stream = Lines.join LF before ++ (raw ++ ([LF] ++ rest)) := by
    refine ⟨Lines.join LF after ++ Lines.unfinished LF stream, ?_⟩
    have hjoin := Lines.join_whole_append_unfinished LF stream
    rw [hwhole, Lines.join_append, Lines.join_cons] at hjoin
    refine hjoin.symm.trans ?_
    simp
  have hat := (atLine_accept E id hub).nextLines (E := E) hbefore
  obtain ⟨n, hn, hdiverge⟩ := diverge_of_critical hat hraw hcritical
  have htake : LF ∉ raw.take n := fun h => hraw (List.mem_of_mem_take h)
  have hne : raw.drop n ++ [LF] ≠ [] := by simp
  have hfits : (raw.drop n ++ [LF]).length ≤ READ_SIZE := by
    rw [List.length_append, List.length_drop, List.length_singleton]
    simp only [READ_SIZE] at hn ⊢
    omega
  have hone : ([LF] : Bytes).length ≤ READ_SIZE := by simp [READ_SIZE]
  have hpieces₁ := partition_around hne hfits (Lines.join LF before) (raw.take n) rest
  have hpieces₂ := partition_around (by simp) hone (Lines.join LF before) raw rest
  rw [← List.append_assoc (raw.take n), take_append_drop_line, List.append_assoc] at hpieces₁
  have hlines₁ := prefix_serve_around hbefore hclear htake hne hfits rest
  have hlines₂ := prefix_serve_around hbefore hclear hraw (by simp) hone rest
  refine ⟨_, _, hpieces₁, hpieces₂, ?_⟩
  obtain ⟨log, e₁, e₂, hdistinct, hlog₁, hlog₂⟩ := hdiverge
  obtain ⟨more₁, h₁⟩ := hlog₁.trans hlines₁
  obtain ⟨more₂, h₂⟩ := hlog₂.trans hlines₂
  intro heq
  rw [← h₁, ← h₂, List.append_assoc, List.append_assoc, List.append_cancel_left_eq] at heq
  exact hdistinct (List.cons.inj heq).1

/-- **How a stream is split into reads matters exactly when it has a critical line.** The
effects of serving a stream are the same for all its partitions, and each of its lines is
accepted if and only if it is within the limit without its line end, if and only if no line
is critical at the point where it is read. -/
theorem serve_partition_iff (E : Setting) (id : ℕ) (hub : Hub) (stream : Bytes) :
    ((∀ pieces₁ pieces₂, Partition stream pieces₁ → Partition stream pieces₂ →
        serve E id hub pieces₁ = serve E id hub pieces₂) ∧
      ∀ before raw after pieces, Lines.whole LF stream = before ++ raw :: after →
        Partition stream pieces →
        Verdict E.limits (before.foldl (nextLine E) (accept E id hub)) raw
          (serve E id hub pieces)) ↔
      Clear E (accept E id hub) (Lines.whole LF stream) := by
  constructor
  · rintro ⟨hsame, _⟩
    by_contra hclear
    obtain ⟨pieces₁, pieces₂, h₁, h₂, hne⟩ := exists_serve_ne hclear
    exact hne (hsame pieces₁ pieces₂ h₁ h₂)
  · intro hclear
    constructor
    · intro pieces₁ pieces₂ h₁ h₂
      rw [serve_of_clear h₁ hclear, serve_of_clear h₂ hclear]
    · intro before raw after pieces hwhole hpieces
      have hmem : ∀ r ∈ before ++ raw :: after, LF ∉ r := fun r hr =>
        Lines.not_mem_of_mem_whole (hwhole ▸ hr)
      have hbefore : ∀ r ∈ before, LF ∉ r := fun r hr => hmem r (by simp [hr])
      have hat := (atLine_accept E id hub).nextLines (E := E) hbefore
      rw [serve_of_clear hpieces hclear, hwhole, List.foldl_append, List.foldl_cons]
      rw [hwhole, clear_append] at hclear
      refine (verdict_nextLine hat (hmem raw (by simp)) hclear.2.1).mono ?_
      exact ((log_prefix_nextLines E _ after).trans (log_prefix_feed E _ _)).trans
        (log_prefix_read E _ [])

/-- The failing stream: with a limit of four octets, `QUIT` and its line end. In one read it
closes the connection in good order; with the newline in a read of its own it is too long. -/
theorem quit_depends_on_reads :
    ∃ (E : Setting) (id : ℕ) (hub : Hub) (pieces₁ pieces₂ : List Bytes),
      Config.validate { limits := E.limits } = .ok () ∧
      Partition (Str.asBytes "QUIT\r\n".toList) pieces₁ ∧
      Partition (Str.asBytes "QUIT\r\n".toList) pieces₂ ∧
      .command (Str.asBytes "QUIT".toList) ∈ serve E id hub pieces₁ ∧
      lineTooLong ∈ serve E id hub pieces₂ ∧ serve E id hub pieces₁ ≠ serve E id hub pieces₂ := by
  refine ⟨⟨{ maxCommandLineBytes := 4 }, false, fun _ => 0⟩, 1, idleHub,
    [Str.asBytes "QUIT\r\n".toList], [Str.asBytes "QUIT\r".toList, [LF]], by decide,
    ⟨by decide, by decide, by decide⟩, ⟨by decide, by decide, by decide⟩, ?_, ?_, ?_⟩
  · decide
  · decide
  · decide

end Divergence

end Session

end MacroBus
