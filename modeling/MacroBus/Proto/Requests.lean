import MacroBus.Proto.Parsing

/-!
# Requests from arguments nobody has checked

A client puts the arguments of a command into a line as they are. The parser still reads a
command of that kind, or refuses the line; and where the arguments are single words, it can
read no other arguments.
-/

namespace MacroBus

open command grammar

/-- The other command is of the same kind, whatever its arguments. -/
def Command.SameKind : Command → Command → Prop
  | .register .., .register .. | .subscribe _, .subscribe _ | .unsubscribe _, .unsubscribe _
  | .publish .., .publish .. | .capabilities, .capabilities | .help, .help
  | .listTypes, .listTypes | .quit, .quit => True
  | _, _ => False

/-- One word at most: no space in it, and no other whitespace at its ends. -/
def IsArgument (s : Str) : Prop := ' ' ∉ s ∧ Str.trim s = s

instance : DecidablePred IsArgument := fun s =>
  inferInstanceAs (Decidable (' ' ∉ s ∧ Str.trim s = s))

/-- The arguments of the command are single words. -/
def Command.WordsOnly (c : Command) : Prop :=
  (∀ t ∈ c.typeName?, IsArgument t) ∧ ∀ k ∈ c.key?, IsArgument k

section Trimming

variable {p q : Char → Bool} {s t : Str}

/-- Nothing is trimmed where nothing is trimmed at either end. -/
theorem trimMatches_eq_self_iff :
    Str.trimMatches p s = s ↔ s.dropWhile p = s ∧ s.rdropWhile p = s := by
  constructor
  · intro h
    have hlength := congrArg List.length h
    have hright := (List.rdropWhile_prefix p (s.dropWhile p)).length_le
    have hleft := (List.dropWhile_suffix p (l := s)).length_le
    unfold Str.trimMatches at h hlength
    have hsame : s.dropWhile p = s := (List.dropWhile_suffix p).eq_of_length (by omega)
    rw [hsame] at h
    exact ⟨hsame, h⟩
  · rintro ⟨hleft, hright⟩
    unfold Str.trimMatches
    rw [hleft, hright]

/-- What is not trimmed at the end is not trimmed by a narrower test. -/
theorem rdropWhile_eq_self_of_imp (hq : ∀ c, q c = true → p c = true) (h : s.rdropWhile p = s) :
    s.rdropWhile q = s := by
  rw [List.rdropWhile_eq_self_iff] at h ⊢
  exact fun hne hlast => h hne (hq _ hlast)

/-- Trimming at the end leaves a first part that ends with something that stays. -/
theorem rdropWhile_append (hs : s.rdropWhile p = s) :
    (s ++ t).rdropWhile p = s ++ t.rdropWhile p := by
  unfold List.rdropWhile at hs ⊢
  rw [List.reverse_append, List.dropWhile_append]
  split
  · next hempty => rw [List.isEmpty_iff.mp hempty, hs, List.reverse_nil, List.append_nil]
  · rw [List.reverse_append, List.reverse_reverse]

/-- Trimming leaves a first part that is not trimmed. -/
theorem trimMatches_append (hs : Str.trimMatches p s = s) (hne : s ≠ []) :
    Str.trimMatches p (s ++ t) = s ++ t.rdropWhile p := by
  obtain ⟨hleft, hright⟩ := trimMatches_eq_self_iff.mp hs
  unfold Str.trimMatches
  rw [List.dropWhile_append, hleft, if_neg (by rwa [List.isEmpty_iff]), rdropWhile_append hright]

end Trimming

section Verbs

variable {verb args : Str}

/-- What the parser trims off a line. -/
def blank (c : Char) : Bool := c = ' ' || c = '\t'

/-- Whitespace in front of the parser is whitespace. -/
theorem isWhitespace_of_blank (c : Char) (h : blank c = true) : isWhitespace c = true := by
  unfold blank at h
  rw [Bool.or_eq_true, decide_eq_true_eq, decide_eq_true_eq] at h
  rcases h with rfl | rfl <;> decide

/-- The line as it is trimmed, and what stands behind its verb. -/
def behindVerb (line : Str) : Str :=
  Str.trimStartMatches (fun c => decide (c = ' ')) (Str.splitSecond ' ' (Str.trimMatches blank line))

/-- A verb has no end to trim. -/
theorem trimMatches_verb (hverb : ∀ c ∈ verb, blank c = false) :
    Str.trimMatches blank verb = verb := by
  refine trimMatches_eq_self_iff.mpr ⟨?_, ?_⟩
  · rw [List.dropWhile_eq_self_iff]
    intro hlength
    rw [hverb _ (List.getElem_mem hlength)]
    exact Bool.false_ne_true
  · rw [List.rdropWhile_eq_self_iff]
    intro hlast
    rw [hverb _ (List.getLast_mem hlast)]
    exact Bool.false_ne_true

/-- A verb has no space in it. -/
theorem ne_space_of_verb (hverb : ∀ c ∈ verb, blank c = false) :
    ∀ c ∈ verb, decide (c ≠ ' ') = true := by
  intro c hc
  refine decide_eq_true fun heq => ?_
  have hblank := hverb c hc
  rw [heq] at hblank
  cases hblank

/-- **The verb is found**, whatever the arguments are. -/
theorem trimmed_verb (hne : verb ≠ []) (hverb : ∀ c ∈ verb, blank c = false) :
    Str.trimMatches blank (verb ++ ' ' :: args) ≠ [] ∧
      Str.splitFirst ' ' (Str.trimMatches blank (verb ++ ' ' :: args)) = verb := by
  rw [trimMatches_append (trimMatches_verb hverb) hne]
  refine ⟨by simp [hne], ?_⟩
  unfold Str.splitFirst
  rw [List.takeWhile_append_of_pos (ne_space_of_verb hverb)]
  -- What is left behind the verb is nothing, or begins with a space.
  obtain ⟨after, hafter⟩ := List.rdropWhile_prefix blank (' ' :: args)
  cases hrest : (' ' :: args).rdropWhile blank with
  | nil => simp
  | cons c rest =>
    rw [hrest] at hafter
    obtain ⟨rfl, _⟩ := List.cons.inj hafter
    simp

/-- **The arguments are found** without blanks at their end and spaces in front. -/
theorem behindVerb_eq (hne : verb ≠ []) (hverb : ∀ c ∈ verb, blank c = false) :
    behindVerb (verb ++ ' ' :: args) =
      (args.rdropWhile blank).dropWhile (fun c => decide (c = ' ')) := by
  have hkept : ((' ' :: args).rdropWhile blank).dropWhile (fun c => decide (c = ' ')) =
      (args.rdropWhile blank).dropWhile (fun c => decide (c = ' ')) := by
    unfold List.rdropWhile
    rw [List.reverse_cons, List.dropWhile_append]
    split
    · next hempty =>
      rw [List.isEmpty_iff.mp hempty]
      rfl
    · rw [List.reverse_append]
      rfl
  have hfirst : ∀ s : Str, s <+: ' ' :: args →
      ((s.dropWhile fun c => decide (c ≠ ' ')).drop 1).dropWhile (fun c => decide (c = ' ')) =
        s.dropWhile fun c => decide (c = ' ') := by
    rintro (_ | ⟨c, s⟩) hpart
    · rfl
    · obtain ⟨after, hafter⟩ := hpart
      obtain ⟨rfl, _⟩ := List.cons.inj hafter
      simp
  unfold behindVerb Str.splitSecond Str.trimStartMatches
  rw [trimMatches_append (trimMatches_verb hverb) hne,
    List.dropWhile_append_of_pos (ne_space_of_verb hverb),
    hfirst _ (List.rdropWhile_prefix blank _), hkept]

end Verbs

section Arguments

variable {s t k : Str}

/-- A word is not trimmed. -/
theorem IsArgument.untrimmed (h : IsArgument s) :
    s.dropWhile isWhitespace = s ∧ s.rdropWhile isWhitespace = s :=
  trimMatches_eq_self_iff.mp h.2

/-- A word has no blank at its end. -/
theorem IsArgument.rdropWhile_blank (h : IsArgument s) : s.rdropWhile blank = s :=
  rdropWhile_eq_self_of_imp isWhitespace_of_blank h.untrimmed.2

/-- A word does not begin with a space. -/
theorem IsArgument.dropWhile_space (h : IsArgument s) (hne : s ≠ []) (rest : Str) :
    (s ++ rest).dropWhile (fun c => decide (c = ' ')) = s ++ rest := by
  obtain ⟨hspace, _⟩ := h
  cases s with
  | nil => exact absurd rfl hne
  | cons c s =>
    have hc : c ≠ ' ' := fun heq => hspace (heq ▸ List.mem_cons_self)
    rw [List.cons_append, List.dropWhile_cons, if_neg (by simpa using hc)]

/-- A word alone is found behind its verb. -/
theorem IsArgument.behindVerb {verb : Str} (h : IsArgument s) (hne : verb ≠ [])
    (hverb : ∀ c ∈ verb, blank c = false) : behindVerb (verb ++ ' ' :: s) = s := by
  rw [behindVerb_eq hne hverb, h.rdropWhile_blank]
  by_cases hnil : s = []
  · rw [hnil]
    rfl
  · have hdrop := h.dropWhile_space hnil []
    rwa [List.append_nil] at hdrop

/-- A space and a word lose nothing at their end, unless there is no word. -/
theorem rdropWhile_space_word {p : Char → Bool} (hk : k.rdropWhile p = k) (hne : k ≠ []) :
    (' ' :: k).rdropWhile p = ' ' :: k := by
  rw [List.rdropWhile_eq_self_iff] at hk ⊢
  intro hcons
  rw [List.getLast_cons hne]
  exact hk hne

/-- Two words with a space between them are not trimmed. -/
theorem trim_two (ht : IsArgument t) (htne : t ≠ []) (hk : IsArgument k) (hkne : k ≠ []) :
    Str.trim (t ++ ' ' :: k) = t ++ ' ' :: k := by
  unfold Str.trim
  rw [trimMatches_append ht.2 htne, rdropWhile_space_word hk.untrimmed.2 hkne]

/-- Their tokens are the words. -/
theorem tokens_two (ht : IsArgument t) (htne : t ≠ []) (hk : IsArgument k) (hkne : k ≠ []) :
    tokens (t ++ ' ' :: k) = [t, k] := by
  unfold tokens
  rw [Words.words_append_cons, Words.words_eq_singleton ht.1 htne,
    Words.words_eq_singleton hk.1 hkne]
  rfl

/-- One word has one token at most. -/
theorem IsArgument.tokens_length (h : IsArgument s) : (tokens (Str.trim s)).length ≤ 1 := by
  rw [h.2]
  unfold tokens
  by_cases hnil : s = []
  · rw [hnil]
    decide
  · rw [Words.words_eq_singleton h.1 hnil]
    exact le_rfl

/-- **Two words are found behind their verb**; where one of them is empty, there is one word. -/
theorem behindVerb_two {verb : Str} (hne : verb ≠ []) (hverb : ∀ c ∈ verb, blank c = false)
    (ht : IsArgument t) (hk : IsArgument k) :
    tokens (Str.trim (behindVerb (verb ++ ' ' :: (t ++ ' ' :: k)))) = [t, k] ∨
      (tokens (Str.trim (behindVerb (verb ++ ' ' :: (t ++ ' ' :: k))))).length ≤ 1 := by
  rw [behindVerb_eq hne hverb]
  by_cases hkne : k = []
  · -- Nothing follows the type.
    have hblank : (t ++ [' ']).rdropWhile blank = t := by
      rw [rdropWhile_append ht.rdropWhile_blank]
      exact List.append_nil t
    rw [hkne, hblank]
    by_cases htne : t = []
    · rw [htne]
      exact Or.inr (by decide)
    · have hdrop := ht.dropWhile_space htne []
      rw [List.append_nil] at hdrop
      rw [hdrop]
      exact Or.inr ht.tokens_length
  · rw [rdropWhile_append ht.rdropWhile_blank, rdropWhile_space_word hk.rdropWhile_blank hkne]
    by_cases htne : t = []
    · have hdrop := hk.dropWhile_space hkne []
      rw [List.append_nil] at hdrop
      rw [htne, List.nil_append, List.dropWhile_cons, if_pos (by decide), hdrop]
      exact Or.inr hk.tokens_length
    · rw [ht.dropWhile_space htne, trim_two ht htne hk hkne]
      exact Or.inl (tokens_two ht htne hk hkne)

end Arguments

section Requests

variable {c c' : Command} {typeName key : Str}

/-- The verb of a line is dispatched on. -/
theorem parse_dispatch {verb args : Str} (hne : verb ≠ []) (hverb : ∀ c ∈ verb, blank c = false)
    {result : Except ParseError Command}
    (hresult : let rest := behindVerb (verb ++ ' ' :: args)
      (if Str.toAsciiUppercase verb = "CAPABILITIES".toList then expectNoArgs rest .capabilities
      else if Str.toAsciiUppercase verb = "HELP".toList then expectNoArgs rest .help
      else if Str.toAsciiUppercase verb = "QUIT".toList then expectNoArgs rest .quit
      else if Str.toAsciiUppercase verb = "REGISTER".toList then typeAndKey rest .register
      else if Str.toAsciiUppercase verb = "PUBLISH".toList then typeAndKey rest .publish
      else if Str.toAsciiUppercase verb = "SUBSCRIBE".toList then typeOnly rest .subscribe
      else if Str.toAsciiUppercase verb = "UNSUBSCRIBE".toList then typeOnly rest .unsubscribe
      else if Str.toAsciiUppercase verb = "LIST".toList then listArgs rest
      else .error ⟨status.SYNTAX, "command unrecognized".toList⟩) = result) :
    parse (verb ++ ' ' :: args) = result := by
  obtain ⟨hnil, hfirst⟩ : Str.trimMatches blank (verb ++ ' ' :: args) ≠ [] ∧
      Str.splitFirst ' ' (Str.trimMatches blank (verb ++ ' ' :: args)) = verb :=
    trimmed_verb hne hverb
  rw [← hresult]
  unfold parse
  dsimp only
  change (if (Str.trimMatches blank (verb ++ ' ' :: args)).isEmpty = true then _ else _) = _
  rw [if_neg (by rwa [List.isEmpty_iff])]
  change Str.splitFirst ' '
    (Str.trimMatches (fun c => decide (c = ' ') || decide (c = '\t')) (verb ++ ' ' :: args)) = verb
      at hfirst
  rw [hfirst]
  rfl

/-- One argument that is a word. -/
theorem typeOnly_word {cmd : Str → Command} (ht : IsArgument typeName)
    (h : typeOnly typeName cmd = .ok c) : c = cmd typeName := by
  obtain ⟨t, rfl, _, harg⟩ : ∃ t, c = cmd t ∧ IsType t ∧ oneArg typeName = .ok t := by
    unfold typeOnly at h
    cases harg : oneArg typeName with
    | error e =>
      rw [harg] at h
      cases h
    | ok t =>
      rw [harg] at h
      cases hcheck : checkType t with
      | error e =>
        simp only [bind, Except.bind, hcheck] at h
        cases h
      | ok =>
        simp only [bind, Except.bind, hcheck] at h
        exact ⟨t, (Except.ok.inj h).symm, checkType_eq_ok_iff.mp hcheck, rfl⟩
  unfold oneArg at harg
  dsimp only at harg
  rw [ht.2] at harg
  split at harg
  · cases harg
  split at harg
  · cases harg
  · rw [Except.ok.inj harg]

/-- Two arguments that are words. -/
theorem typeAndKey_words {cmd : Str → Str → Command} {rest : Str}
    (htokens : tokens (Str.trim rest) = [typeName, key] ∨ (tokens (Str.trim rest)).length ≤ 1)
    (h : typeAndKey rest cmd = .ok c) : c = cmd typeName key := by
  rw [typeAndKey_eq_trim] at h
  obtain ⟨t, k, heq, _, _, rfl⟩ := typeAndKeyTokens_eq_ok_iff.mp h
  rw [heq] at htokens
  rcases htokens with hsame | hlength
  · obtain ⟨rfl, rfl, _⟩ := by simpa only [List.cons.injEq] using hsame
    rfl
  · simp at hlength

/-- `REGISTER` takes a type and a key. -/
theorem parse_register (args : Str) : parse ("REGISTER".toList ++ ' ' :: args) =
    typeAndKey (behindVerb ("REGISTER".toList ++ ' ' :: args)) .register :=
  parse_dispatch (by decide) (by decide) rfl

/-- `PUBLISH` takes a type and a key. -/
theorem parse_publish (args : Str) : parse ("PUBLISH".toList ++ ' ' :: args) =
    typeAndKey (behindVerb ("PUBLISH".toList ++ ' ' :: args)) .publish :=
  parse_dispatch (by decide) (by decide) rfl

/-- `SUBSCRIBE` takes a type. -/
theorem parse_subscribe (args : Str) : parse ("SUBSCRIBE".toList ++ ' ' :: args) =
    typeOnly (behindVerb ("SUBSCRIBE".toList ++ ' ' :: args)) .subscribe :=
  parse_dispatch (by decide) (by decide) rfl

/-- `UNSUBSCRIBE` takes a type. -/
theorem parse_unsubscribe (args : Str) : parse ("UNSUBSCRIBE".toList ++ ' ' :: args) =
    typeOnly (behindVerb ("UNSUBSCRIBE".toList ++ ' ' :: args)) .unsubscribe :=
  parse_dispatch (by decide) (by decide) rfl

/-- A type and a key, as they stand behind a verb. -/
theorem typeAndKey_behind {verb : Str} {cmd : Str → Str → Command} (hne : verb ≠ [])
    (hverb : ∀ c ∈ verb, blank c = false)
    (h : typeAndKey (behindVerb (verb ++ ' ' :: (typeName ++ ' ' :: key))) cmd = .ok c) :
    (∃ t k, c = cmd t k) ∧ (IsArgument typeName → IsArgument key → c = cmd typeName key) := by
  constructor
  · obtain ⟨t, k, hc, _⟩ := typeAndKey_eq_ok h
    exact ⟨t, k, hc⟩
  · intro ht hk
    exact typeAndKey_words (behindVerb_two hne hverb ht hk) h

/-- A type, as it stands behind a verb. -/
theorem typeOnly_behind {verb : Str} {cmd : Str → Command} (hne : verb ≠ [])
    (hverb : ∀ c ∈ verb, blank c = false)
    (h : typeOnly (behindVerb (verb ++ ' ' :: typeName)) cmd = .ok c) :
    (∃ t, c = cmd t) ∧ (IsArgument typeName → c = cmd typeName) := by
  constructor
  · obtain ⟨t, hc, _⟩ := typeOnly_eq_ok h
    exact ⟨t, hc⟩
  · intro ht
    rw [ht.behindVerb hne hverb] at h
    exact typeOnly_word ht h

/-- **A request is read as one of its kind**, if it is not refused; and as it was meant, where
its arguments are words. -/
theorem parse_request (h : parse c.render = .ok c') :
    c.SameKind c' ∧ (c.WordsOnly → c' = c) := by
  cases c with
  | capabilities =>
    have hparse : parse (Command.render .capabilities) = .ok .capabilities := by decide
    rw [← Except.ok.inj (hparse.symm.trans h)]
    exact ⟨trivial, fun _ => rfl⟩
  | help =>
    have hparse : parse (Command.render .help) = .ok .help := by decide
    rw [← Except.ok.inj (hparse.symm.trans h)]
    exact ⟨trivial, fun _ => rfl⟩
  | listTypes =>
    have hparse : parse (Command.render .listTypes) = .ok .listTypes := by decide
    rw [← Except.ok.inj (hparse.symm.trans h)]
    exact ⟨trivial, fun _ => rfl⟩
  | quit =>
    have hparse : parse (Command.render .quit) = .ok .quit := by decide
    rw [← Except.ok.inj (hparse.symm.trans h)]
    exact ⟨trivial, fun _ => rfl⟩
  | register t k =>
    have hrender : Command.render (.register t k) = "REGISTER".toList ++ ' ' :: (t ++ ' ' :: k) := by
      simp [Command.render, Command.tokens]
    rw [hrender, parse_register] at h
    obtain ⟨⟨t', k', rfl⟩, hwords⟩ := typeAndKey_behind (by decide) (by decide) h
    exact ⟨trivial, fun hw => hwords (hw.1 t rfl) (hw.2 k rfl)⟩
  | publish t k =>
    have hrender : Command.render (.publish t k) = "PUBLISH".toList ++ ' ' :: (t ++ ' ' :: k) := by
      simp [Command.render, Command.tokens]
    rw [hrender, parse_publish] at h
    obtain ⟨⟨t', k', rfl⟩, hwords⟩ := typeAndKey_behind (by decide) (by decide) h
    exact ⟨trivial, fun hw => hwords (hw.1 t rfl) (hw.2 k rfl)⟩
  | subscribe t =>
    have hrender : Command.render (.subscribe t) = "SUBSCRIBE".toList ++ ' ' :: t := by
      simp [Command.render, Command.tokens]
    rw [hrender, parse_subscribe] at h
    obtain ⟨⟨t', rfl⟩, hwords⟩ := typeOnly_behind (by decide) (by decide) h
    exact ⟨trivial, fun hw => hwords (hw.1 t rfl)⟩
  | unsubscribe t =>
    have hrender : Command.render (.unsubscribe t) = "UNSUBSCRIBE".toList ++ ' ' :: t := by
      simp [Command.render, Command.tokens]
    rw [hrender, parse_unsubscribe] at h
    obtain ⟨⟨t', rfl⟩, hwords⟩ := typeOnly_behind (by decide) (by decide) h
    exact ⟨trivial, fun hw => hwords (hw.1 t rfl)⟩

end Requests

end MacroBus
