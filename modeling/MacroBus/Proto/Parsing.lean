import MacroBus.Proto.Grammar

/-!
# The parser and the grammar

Where the only whitespace of a line is the space, what the parser does with the line is
what it does with its tokens. On other lines the arguments of a command still are parts of
the line that the grammar allows.
-/

namespace MacroBus

open grammar

namespace command

/-- The only whitespace of the string is the space. -/
def SpacesOnly (s : Str) : Prop := ∀ c ∈ s, isWhitespace c = true → c = ' '

section Trimming

variable {s rest line : Str}

/-- Dropping goes by what the predicate says about the elements. -/
theorem dropWhile_congr {p q : Char → Bool} (h : ∀ c ∈ s, p c = q c) :
    s.dropWhile p = s.dropWhile q := by
  induction s with
  | nil => rfl
  | cons c s ih =>
    rw [List.dropWhile_cons, List.dropWhile_cons, h c List.mem_cons_self,
      ih fun d hd => h d (List.mem_cons_of_mem c hd)]

/-- Trimming goes by what the predicate says about the elements. -/
theorem trimMatches_congr {p q : Char → Bool} (h : ∀ c ∈ s, p c = q c) :
    Str.trimMatches p s = Str.trimMatches q s := by
  unfold Str.trimMatches List.rdropWhile
  rw [dropWhile_congr h]
  have hreverse : ∀ c ∈ (s.dropWhile q).reverse, p c = q c := by
    intro c hc
    exact h c ((List.dropWhile_suffix q).subset (List.mem_reverse.mp hc))
  rw [dropWhile_congr hreverse]

/-- Trimming spaces. -/
def trimSpaces (s : Str) : Str := Str.trimMatches (fun c => decide (c = ' ')) s

/-- Where there are only spaces, `trim` trims spaces. -/
theorem trim_eq (h : SpacesOnly s) : Str.trim s = trimSpaces s := by
  refine trimMatches_congr fun c hc => ?_
  rw [Bool.eq_iff_iff, decide_eq_true_eq]
  exact ⟨h c hc, fun hspace => by rw [hspace]; decide⟩

/-- Trimming keeps the tokens. -/
@[simp] theorem tokens_trimSpaces (s : Str) : tokens (trimSpaces s) = tokens s := by
  unfold tokens trimSpaces Str.trimMatches
  rw [Words.words_rdropWhile, Words.words_dropWhile]

/-- A trimmed string does not start with a space. -/
theorem trimSpaces_ne_cons (s t : Str) : trimSpaces s ≠ ' ' :: t := by
  intro heq
  obtain ⟨after, hafter⟩ := List.rdropWhile_prefix (fun c : Char => decide (c = ' '))
    (s.dropWhile fun c => decide (c = ' '))
  unfold trimSpaces Str.trimMatches at heq
  rw [heq] at hafter
  exact Words.dropWhile_ne_cons ' ' s (t ++ after) hafter.symm

/-- A trimmed string does not end with a space. -/
theorem trimSpaces_ne_concat (s t : Str) : trimSpaces s ≠ t ++ [' '] := by
  intro heq
  have hne : trimSpaces s ≠ [] := by
    rw [heq]
    simp
  have hlast := List.rdropWhile_last_not (fun c : Char => decide (c = ' '))
    (s.dropWhile fun c => decide (c = ' ')) hne
  have hspace : (trimSpaces s).getLast hne = ' ' := by
    simp [heq]
  exact hlast (decide_eq_true hspace)

/-- A string is blank if nothing is left of it. -/
theorem trimSpaces_eq_nil_iff : trimSpaces s = [] ↔ tokens s = [] := by
  constructor
  · intro hnil
    rw [← tokens_trimSpaces, hnil]
    exact Words.words_nil
  · intro hnil
    rw [← tokens_trimSpaces] at hnil
    have hall := Words.words_eq_nil_iff.mp hnil
    cases hs : trimSpaces s with
    | nil => rfl
    | cons c t =>
      rw [hs] at hall
      have hc := hall c List.mem_cons_self
      exact absurd hs (hc ▸ trimSpaces_ne_cons s t)

end Trimming

section Arguments

variable {rest line : Str}

/-- No arguments, by tokens. -/
theorem expectNoArgs_eq (h : SpacesOnly rest) (cmd : Command) :
    expectNoArgs rest cmd = noTokens cmd (tokens rest) := by
  unfold expectNoArgs
  rw [trim_eq h]
  cases htokens : tokens rest with
  | nil =>
    rw [trimSpaces_eq_nil_iff.mpr htokens]
    rfl
  | cons token args =>
    have hne : trimSpaces rest ≠ [] := by
      rw [Ne, trimSpaces_eq_nil_iff, htokens]
      simp
    rw [if_neg (by rwa [List.isEmpty_iff])]
    rfl

/-- One argument, by tokens. -/
theorem typeOnly_eq (h : SpacesOnly rest) (cmd : Str → Command) :
    typeOnly rest cmd = typeTokens cmd (tokens rest) := by
  unfold typeOnly oneArg
  rw [trim_eq h]
  dsimp only
  by_cases hnil : trimSpaces rest = []
  · rw [trimSpaces_eq_nil_iff.mp hnil, hnil]
    rfl
  · rw [if_neg (by rwa [List.isEmpty_iff])]
    have htight := Words.words_tight hnil (trimSpaces_ne_cons rest) (trimSpaces_ne_concat rest)
    rw [← tokens_trimSpaces]
    rcases htight with ⟨hmem, hwords⟩ | ⟨hmem, w, w', ws, hwords⟩
    · rw [if_neg (by simpa using hmem)]
      unfold tokens
      rw [hwords]
      rfl
    · rw [if_pos (by simpa using hmem)]
      unfold tokens
      rw [hwords]
      rfl

/-- Two arguments, by the tokens of what `trim` leaves. -/
theorem typeAndKey_eq_trim (rest : Str) (cmd : Str → Str → Command) :
    typeAndKey rest cmd = typeAndKeyTokens cmd (tokens (Str.trim rest)) := by
  have hsplit : (Str.split ' ' (Str.trim rest)).filter (fun s => !s.isEmpty) =
      tokens (Str.trim rest) := rfl
  unfold typeAndKey twoArgs
  rw [hsplit]
  rcases tokens (Str.trim rest) with _ | ⟨t, _ | ⟨k, _ | ⟨u, ts⟩⟩⟩ <;> rfl

/-- Two arguments, by tokens. -/
theorem typeAndKey_eq (h : SpacesOnly rest) (cmd : Str → Str → Command) :
    typeAndKey rest cmd = typeAndKeyTokens cmd (tokens rest) := by
  rw [typeAndKey_eq_trim, trim_eq h, tokens_trimSpaces]

/-- The sub-command of `LIST`, by tokens. -/
theorem listArgs_eq (hhead : ∀ t, rest ≠ ' ' :: t) (hlast : ∀ t, rest ≠ t ++ [' ']) :
    listArgs rest = listTokens (tokens rest) := by
  unfold listArgs
  by_cases hnil : rest = []
  · subst hnil
    rfl
  · have hempty : rest.isEmpty = false := by
      rwa [Bool.eq_false_iff, Ne, List.isEmpty_iff]
    rcases Words.words_tight hnil hhead hlast with ⟨_, hwords⟩ | ⟨hmem, w, w', ws, hwords⟩
    · unfold tokens
      rw [hwords, hempty]
      rfl
    · have hspace : Str.eqIgnoreAsciiCase rest "TYPES".toList = false := by
        unfold Str.eqIgnoreAsciiCase
        rw [decide_eq_false_iff_not]
        intro heq
        have hin := List.mem_map_of_mem (f := Char.toLower) hmem
        rw [heq] at hin
        exact absurd hin (by decide)
      unfold tokens
      rw [hwords, hspace, hempty]
      rfl

/-- **The parser goes by tokens**, where the only whitespace is the space. -/
theorem parse_eq (h : SpacesOnly line) : parse line = fromTokens (tokens line) := by
  have htrim : Str.trimMatches (fun c => c = ' ' || c = '\t') line = trimSpaces line := by
    refine trimMatches_congr fun c hc => ?_
    rw [Bool.eq_iff_iff, Bool.or_eq_true, decide_eq_true_eq, decide_eq_true_eq]
    refine ⟨fun hc' => hc'.elim id fun htab => h c hc ?_, Or.inl⟩
    rw [htab]
    decide
  unfold parse
  rw [htrim]
  dsimp only
  by_cases hnil : trimSpaces line = []
  · rw [trimSpaces_eq_nil_iff.mp hnil, hnil]
    rfl
  · rw [if_neg (by rwa [List.isEmpty_iff]), ← tokens_trimSpaces]
    have hwords := Words.words_eq_cons hnil (trimSpaces_ne_cons line)
    -- What stands behind the verb.
    set rest := Str.trimStartMatches (fun c => decide (c = ' '))
      (Str.splitSecond ' ' (trimSpaces line)) with hrest
    have hsuffix : rest <:+ trimSpaces line :=
      (List.dropWhile_suffix _).trans ((List.drop_suffix _ _).trans (List.dropWhile_suffix _))
    have htokens : tokens (trimSpaces line) =
        Str.splitFirst ' ' (trimSpaces line) :: tokens rest := by
      unfold tokens
      rw [hwords, hrest]
      unfold Str.trimStartMatches
      rw [Words.words_dropWhile]
      rfl
    have hspaces : SpacesOnly rest := by
      intro c hc
      have hin : c ∈ line := (List.dropWhile_suffix _).subset
        ((List.rdropWhile_prefix _ _).subset (hsuffix.subset hc))
      exact h c hin
    have hlist : listArgs rest = listTokens (tokens rest) := by
      refine listArgs_eq (Words.dropWhile_ne_cons ' ' _) fun t ht => ?_
      obtain ⟨before, hbefore⟩ := hsuffix
      rw [ht, ← List.append_assoc] at hbefore
      exact trimSpaces_ne_concat line (before ++ t) hbefore.symm
    rw [htokens]
    dsimp only [fromTokens]
    simp only [expectNoArgs_eq hspaces, typeOnly_eq hspaces, typeAndKey_eq hspaces, hlist]

end Arguments

section Arguments

variable {c : Command} {line : Str}

/-- What the arguments of a command are made of, and where they come from. -/
structure From (c : Command) (line : Str) : Prop where
  /-- The type is a token of the line. -/
  typeName : ∀ t ∈ c.typeName?, IsType t ∧ t <:+: line
  /-- The key is a visible part of the line. -/
  key : ∀ k ∈ c.key?, IsKey k ∧ k <:+: line

/-- Trimming takes a part. -/
theorem trim_isPart (s : Str) : Str.trim s <:+: s :=
  (List.rdropWhile_prefix _ _).isInfix.trans (List.dropWhile_suffix _).isInfix

/-- One argument is a part of the text. -/
theorem typeOnly_eq_ok {rest : Str} {cmd : Str → Command} (h : typeOnly rest cmd = .ok c) :
    ∃ t, c = cmd t ∧ IsType t ∧ t <:+: rest := by
  unfold typeOnly oneArg at h
  dsimp only at h
  split at h
  · cases h
  · split at h
    · cases h
    · cases hcheck : checkType (Str.trim rest) with
      | error e =>
        simp only [bind, Except.bind, hcheck] at h
        cases h
      | ok =>
        simp only [bind, Except.bind, hcheck] at h
        exact ⟨_, (Except.ok.inj h).symm, checkType_eq_ok_iff.mp hcheck, trim_isPart rest⟩

/-- Two arguments are parts of the text. -/
theorem typeAndKey_eq_ok {rest : Str} {cmd : Str → Str → Command}
    (h : typeAndKey rest cmd = .ok c) :
    ∃ t k, c = cmd t k ∧ IsType t ∧ IsKey k ∧ t <:+: rest ∧ k <:+: rest := by
  rw [typeAndKey_eq_trim] at h
  obtain ⟨t, k, htokens, ht, hk, rfl⟩ := typeAndKeyTokens_eq_ok_iff.mp h
  have hpart : ∀ w ∈ [t, k], w <:+: rest := by
    intro w hw
    rw [← htokens] at hw
    exact (Words.mem_words hw).2.2.trans (trim_isPart rest)
  exact ⟨t, k, rfl, ht, hk, hpart t (by simp), hpart k (by simp)⟩

/-- **Arguments come from the line**, whatever is in it. -/
theorem from_of_parse (h : parse line = .ok c) : From c line := by
  unfold parse at h
  dsimp only at h
  split at h
  · cases h
  -- What stands behind the verb is a part of the line.
  set trimmed := Str.trimMatches (fun c => c = ' ' || c = '\t') line with htrimmed
  have hrest : Str.trimStartMatches (fun c => decide (c = ' ')) (Str.splitSecond ' ' trimmed) <:+:
      line :=
    ((List.dropWhile_suffix _).trans ((List.drop_suffix _ _).trans
      (List.dropWhile_suffix _))).isInfix.trans
      ((List.rdropWhile_prefix _ _).isInfix.trans (List.dropWhile_suffix _).isInfix)
  have hnone : ∀ {rest : Str} {cmd : Command}, cmd.typeName? = none → cmd.key? = none →
      expectNoArgs rest cmd = .ok c → From c line := by
    intro rest cmd htype hkey hargs
    unfold expectNoArgs at hargs
    split at hargs
    · obtain rfl := Except.ok.inj hargs
      constructor
      · rw [htype]
        exact fun t ht => by cases ht
      · rw [hkey]
        exact fun t ht => by cases ht
    · cases hargs
  have htype : ∀ {cmd : Str → Command}, (∀ t, (cmd t).typeName? = some t ∧ (cmd t).key? = none) →
      typeOnly (Str.trimStartMatches (fun c => decide (c = ' ')) (Str.splitSecond ' ' trimmed)) cmd
        = .ok c → From c line := by
    intro cmd hcmd hargs
    obtain ⟨t, rfl, ht, hpart⟩ := typeOnly_eq_ok hargs
    constructor
    · rw [(hcmd t).1]
      rintro _ ⟨⟩
      exact ⟨ht, hpart.trans hrest⟩
    · rw [(hcmd t).2]
      exact fun k hk => by cases hk
  have hboth : ∀ {cmd : Str → Str → Command},
      (∀ t k, (cmd t k).typeName? = some t ∧ (cmd t k).key? = some k) →
      typeAndKey (Str.trimStartMatches (fun c => decide (c = ' ')) (Str.splitSecond ' ' trimmed))
        cmd = .ok c → From c line := by
    intro cmd hcmd hargs
    obtain ⟨t, k, rfl, ht, hk, htpart, hkpart⟩ := typeAndKey_eq_ok hargs
    constructor
    · rw [(hcmd t k).1]
      rintro _ ⟨⟩
      exact ⟨ht, htpart.trans hrest⟩
    · rw [(hcmd t k).2]
      rintro _ ⟨⟩
      exact ⟨hk, hkpart.trans hrest⟩
  split at h
  · exact hnone rfl rfl h
  split at h
  · exact hnone rfl rfl h
  split at h
  · exact hnone rfl rfl h
  split at h
  · exact hboth (fun t k => ⟨rfl, rfl⟩) h
  split at h
  · exact hboth (fun t k => ⟨rfl, rfl⟩) h
  split at h
  · exact htype (fun t => ⟨rfl, rfl⟩) h
  split at h
  · exact htype (fun t => ⟨rfl, rfl⟩) h
  split at h
  · unfold listArgs at h
    split at h
    · obtain rfl := Except.ok.inj h
      constructor
      · exact fun t ht => by cases ht
      · exact fun k hk => by cases hk
    · split at h <;> cases h
  · cases h

end Arguments

section Rendering

variable {c : Command} {line : Str}

/-- The characters of a token are visible. -/
theorem visible_of_isTchar {ch : Char} (h : IsTchar ch) : 0x21 ≤ ch.toNat ∧ ch.toNat ≤ 0x7E := by
  have hvalue : ch.toNat = ch.val.toNat := rfl
  rcases h with h | h | rfl | rfl | rfl | rfl
  · have hletter : (decide (ch.val ≥ 'A'.val ∧ ch.val ≤ 'Z'.val) ||
        decide (ch.val ≥ 'a'.val) && decide (ch.val ≤ 'z'.val)) = true := h
    simp only [Bool.or_eq_true, Bool.and_eq_true, decide_eq_true_eq, ge_iff_le,
      UInt32.le_iff_toNat_le] at hletter
    have hA : 'A'.val.toNat = 65 := rfl
    have hZ : 'Z'.val.toNat = 90 := rfl
    have ha : 'a'.val.toNat = 97 := rfl
    have hz : 'z'.val.toNat = 122 := rfl
    omega
  · simp only [Char.isDigit, Bool.and_eq_true, decide_eq_true_eq, ge_iff_le,
      UInt32.le_iff_toNat_le] at h
    have h0 : '0'.val.toNat = 48 := rfl
    have h9 : '9'.val.toNat = 57 := rfl
    omega
  all_goals decide

/-- Visible characters are no whitespace. -/
theorem isWhitespace_of_visible {ch : Char} (h : 0x21 ≤ ch.toNat ∧ ch.toNat ≤ 0x7E) :
    isWhitespace ch = false := by
  simp only [isWhitespace, Bool.or_eq_false_iff, Bool.and_eq_false_iff, decide_eq_false_iff_not]
  omega

/-- The tokens of a command are not empty, and all visible. -/
theorem visible_tokens (h : From c line) :
    ∀ w ∈ c.tokens, w ≠ [] ∧ ∀ ch ∈ w, 0x21 ≤ ch.toNat ∧ ch.toNat ≤ 0x7E := by
  have htype : ∀ t ∈ c.typeName?, t ≠ [] ∧ ∀ ch ∈ t, 0x21 ≤ ch.toNat ∧ ch.toNat ≤ 0x7E := by
    intro t ht
    obtain ⟨hne, hall⟩ := (h.typeName t ht).1
    exact ⟨hne, fun ch hch => visible_of_isTchar (hall ch hch)⟩
  have hkey : ∀ k ∈ c.key?, k ≠ [] ∧ ∀ ch ∈ k, 0x21 ≤ ch.toNat ∧ ch.toNat ≤ 0x7E :=
    fun k hk => (h.key k hk).1
  intro w hw
  cases c with
  | register t k | publish t k =>
    simp only [Command.tokens, List.mem_cons, List.not_mem_nil, or_false] at hw
    rcases hw with rfl | rfl | rfl
    · decide
    · exact htype w rfl
    · exact hkey w rfl
  | subscribe t | unsubscribe t =>
    simp only [Command.tokens, List.mem_cons, List.not_mem_nil, or_false] at hw
    rcases hw with rfl | rfl
    · decide
    · exact htype w rfl
  | listTypes =>
    simp only [Command.tokens, List.mem_cons, List.not_mem_nil, or_false] at hw
    rcases hw with rfl | rfl
    · decide
    · decide
  | capabilities | help | quit =>
    obtain rfl := List.mem_singleton.mp hw
    decide

/-- The tokens of a command are its production. -/
theorem production_tokens (h : From c line) : Production c.tokens c := by
  cases c with
  | capabilities => exact .capabilities rfl
  | help => exact .help rfl
  | quit => exact .quit rfl
  | register t k => exact .register rfl (h.typeName t rfl).1 (h.key k rfl).1
  | publish t k => exact .publish rfl (h.typeName t rfl).1 (h.key k rfl).1
  | subscribe t => exact .subscribe rfl (h.typeName t rfl).1
  | unsubscribe t => exact .unsubscribe rfl (h.typeName t rfl).1
  | listTypes => exact .listTypes rfl rfl

/-- **A command survives its canonical rendering.** -/
theorem parse_render (h : From c line) : parse c.render = .ok c := by
  have hvisible := visible_tokens h
  have hspaces : SpacesOnly c.render := by
    intro ch hch hwhite
    rcases Words.mem_intercalate hch with rfl | ⟨w, hw, hch⟩
    · rfl
    · rw [isWhitespace_of_visible ((hvisible w hw).2 ch hch)] at hwhite
      cases hwhite
  have htokens : tokens c.render = c.tokens := by
    refine Words.words_intercalate fun w hw => ⟨(hvisible w hw).1, fun hspace => ?_⟩
    exact absurd ((hvisible w hw).2 ' ' hspace).1 (by decide)
  rw [parse_eq hspaces, htokens]
  exact fromTokens_eq_ok_iff.mpr (production_tokens h)

end Rendering

/-- **The parser accepts exactly the grammar.** Whatever is in the line, the type and the
key of a command that is returned are parts of it as the grammar wants them, and the command
survives its canonical rendering. Where the only whitespace of the line is the space, a
command is returned if and only if the tokens of the line are its production. Any other such
line is rejected with a permanent error: `500` exactly if there is no verb or it is unknown,
`521` exactly if the arguments are as many as the verb wants and the type is invalid. -/
theorem parse_accepts_exactly_the_grammar (line : Str) :
    (∀ c, parse line = .ok c → From c line ∧ parse c.render = .ok c) ∧
    (SpacesOnly line →
      (∀ c, parse line = .ok c ↔ Production (tokens line) c) ∧
      ∀ e, parse line = .error e →
        status.classOf e.code = .permanent ∧
        (e.code = status.SYNTAX ↔ Unrecognized (tokens line)) ∧
        (e.code = status.INVALID_TYPE ↔ ∃ t, TypeToken (tokens line) t ∧ ¬IsType t)) := by
  refine ⟨fun c h => ⟨from_of_parse h, parse_render (from_of_parse h)⟩, fun hspaces => ?_⟩
  rw [parse_eq hspaces]
  exact ⟨fun c => fromTokens_eq_ok_iff, fun e he => (refused_of_fromTokens he).spec⟩

end command

end MacroBus
