import MacroBus.Lib.Words
import MacroBus.Proto.Command

/-!
# The grammar of commands

A line is a sequence of tokens between spaces. Each production of the grammar is a
sequence of tokens, with the command it stands for.
-/

namespace MacroBus

namespace grammar

/-- A character of a token. -/
def IsTchar (c : Char) : Prop :=
  c.isAlpha ∨ c.isDigit ∨ c = '-' ∨ c = '.' ∨ c = '_' ∨ c = '/'

/-- A message type: a token. -/
def IsType (s : Str) : Prop := s ≠ [] ∧ ∀ c ∈ s, IsTchar c

/-- An authorization key: one or more visible characters. -/
def IsKey (s : Str) : Prop := s ≠ [] ∧ ∀ c ∈ s, 0x21 ≤ c.toNat ∧ c.toNat ≤ 0x7E

/-- The token is this word, which is given in upper case, in any case. -/
def IsWord (word : String) (token : Str) : Prop := Str.toAsciiUppercase token = word.toList

/-- The word in upper case. -/
theorem IsWord.eq {word : String} {token : Str} (h : IsWord word token) :
    Str.toAsciiUppercase token = word.toList := h

/-- A token is at most one word. -/
theorem IsWord.unique {word word' : String} {token : Str} (h : IsWord word token)
    (h' : IsWord word' token) : word.toList = word'.toList :=
  h.symm.trans h'

/-- The words that start a command. -/
def verbs : List String :=
  ["CAPABILITIES", "HELP", "QUIT", "REGISTER", "PUBLISH", "SUBSCRIBE", "UNSUBSCRIBE", "LIST"]

/-- The productions of the grammar. -/
inductive Production : List Str → Command → Prop
  | capabilities {verb : Str} (hverb : IsWord "CAPABILITIES" verb) :
      Production [verb] .capabilities
  | help {verb : Str} (hverb : IsWord "HELP" verb) : Production [verb] .help
  | quit {verb : Str} (hverb : IsWord "QUIT" verb) : Production [verb] .quit
  | register {verb typeName key : Str} (hverb : IsWord "REGISTER" verb)
      (htype : IsType typeName) (hkey : IsKey key) :
      Production [verb, typeName, key] (.register typeName key)
  | publish {verb typeName key : Str} (hverb : IsWord "PUBLISH" verb)
      (htype : IsType typeName) (hkey : IsKey key) :
      Production [verb, typeName, key] (.publish typeName key)
  | subscribe {verb typeName : Str} (hverb : IsWord "SUBSCRIBE" verb)
      (htype : IsType typeName) : Production [verb, typeName] (.subscribe typeName)
  | unsubscribe {verb typeName : Str} (hverb : IsWord "UNSUBSCRIBE" verb)
      (htype : IsType typeName) : Production [verb, typeName] (.unsubscribe typeName)
  | listTypes {verb word : Str} (hverb : IsWord "LIST" verb) (hword : IsWord "TYPES" word) :
      Production [verb, word] .listTypes

/-- The tokens stand where a production has them, and this one for the type. -/
inductive TypeToken : List Str → Str → Prop
  | typeAndKey {verb typeName key : Str}
      (hverb : IsWord "REGISTER" verb ∨ IsWord "PUBLISH" verb) :
      TypeToken [verb, typeName, key] typeName
  | typeOnly {verb typeName : Str}
      (hverb : IsWord "SUBSCRIBE" verb ∨ IsWord "UNSUBSCRIBE" verb) :
      TypeToken [verb, typeName] typeName

/-- The tokens have at most one type. -/
theorem TypeToken.unique {ts : List Str} {t u : Str} (ht : TypeToken ts t) (hu : TypeToken ts u) :
    t = u := by
  cases ht with
  | typeAndKey => cases hu with | typeAndKey => rfl
  | typeOnly => cases hu with | typeOnly => rfl

/-- The first token starts no command, or there is none. -/
def Unrecognized : List Str → Prop
  | [] => True
  | verb :: _ => ∀ word ∈ verbs, ¬IsWord word verb

/-- The tokens of a line: its maximal parts without a space. -/
def tokens (line : Str) : List Str := Words.words ' ' line

end grammar

open grammar

/-- The type a command is about, if any. -/
def Command.typeName? : Command → Option Str
  | .register typeName _ | .publish typeName _ | .subscribe typeName | .unsubscribe typeName =>
    some typeName
  | _ => none

/-- The key a command carries, if any. -/
def Command.key? : Command → Option Str
  | .register _ key | .publish _ key => some key
  | _ => none

/-- The tokens of a command. -/
def Command.tokens : Command → List Str
  | .capabilities => ["CAPABILITIES".toList]
  | .help => ["HELP".toList]
  | .quit => ["QUIT".toList]
  | .register typeName key => ["REGISTER".toList, typeName, key]
  | .publish typeName key => ["PUBLISH".toList, typeName, key]
  | .subscribe typeName => ["SUBSCRIBE".toList, typeName]
  | .unsubscribe typeName => ["UNSUBSCRIBE".toList, typeName]
  | .listTypes => ["LIST".toList, "TYPES".toList]

/-- The canonical line of a command: its tokens with one space in between. -/
def Command.render (c : Command) : Str := [' '].intercalate c.tokens

section Characters

variable {c : Char} {s t : Str}

/-- The type check of the parser is the rule of the grammar. -/
theorem isValidType_iff : validate.isValidType s = true ↔ IsType s := by
  unfold validate.isValidType IsType
  rw [Bool.and_eq_true, List.all_eq_true]
  refine and_congr ?_ (forall₂_congr fun c _ => ?_)
  · cases s <;> simp
  · simp [validate.isTchar, IsTchar, Char.isAlphanum, or_assoc]

/-- The key check of the parser is the rule of the grammar. -/
theorem isValidKey_iff : validate.isValidKey s = true ↔ IsKey s := by
  unfold validate.isValidKey IsKey
  rw [Bool.and_eq_true, List.all_eq_true]
  refine and_congr ?_ (forall₂_congr fun c _ => ?_)
  · cases s <;> simp
  · simp [isAsciiGraphic]

/-- The value of a letter in upper case. -/
theorem toNat_toUpper (c : Char) :
    c.toUpper.toNat = if 97 ≤ c.toNat ∧ c.toNat ≤ 122 then c.toNat - 32 else c.toNat := by
  have hiff : ('a'.val ≤ c.val ∧ c.val ≤ 'z'.val) ↔ (97 ≤ c.toNat ∧ c.toNat ≤ 122) := Iff.rfl
  unfold Char.toUpper
  by_cases hc : 'a'.val ≤ c.val ∧ c.val ≤ 'z'.val
  · have hvalue : (c.val + ('A'.val - 'a'.val)).toNat = (c.toNat + (2 ^ 32 - 32)) % 2 ^ 32 :=
      UInt32.toNat_add _ _
    rw [dif_pos hc, if_pos (hiff.mp hc)]
    refine hvalue.trans ?_
    have hrange := hiff.mp hc
    omega
  · rw [dif_neg hc, if_neg (fun h => hc (hiff.mpr h))]

/-- The value of a letter in lower case. -/
theorem toNat_toLower (c : Char) :
    c.toLower.toNat = if 65 ≤ c.toNat ∧ c.toNat ≤ 90 then c.toNat + 32 else c.toNat := by
  have hiff : (c.val ≥ 'A'.val ∧ c.val ≤ 'Z'.val) ↔ (65 ≤ c.toNat ∧ c.toNat ≤ 90) := Iff.rfl
  unfold Char.toLower
  by_cases hc : c.val ≥ 'A'.val ∧ c.val ≤ 'Z'.val
  · have hvalue : (c.val + ('a'.val - 'A'.val)).toNat = (c.toNat + 32) % 2 ^ 32 :=
      UInt32.toNat_add _ _
    rw [dif_pos hc, if_pos (hiff.mp hc)]
    refine hvalue.trans ?_
    have hrange := hiff.mp hc
    omega
  · rw [dif_neg hc, if_neg (fun h => hc (hiff.mpr h))]

/-- Two characters are the same in lower case if they are in upper case. -/
theorem toLower_eq_iff_toUpper_eq (c d : Char) : c.toLower = d.toLower ↔ c.toUpper = d.toUpper := by
  rw [← Char.toNat_inj, ← Char.toNat_inj, toNat_toLower, toNat_toLower, toNat_toUpper,
    toNat_toUpper]
  split <;> split <;> split <;> split <;> omega

end Characters

namespace command

/-- `expectNoArgs` on tokens. -/
def noTokens (cmd : Command) : List Str → Except ParseError Command
  | [] => .ok cmd
  | _ => .error ⟨status.SYNTAX_PARAMS, "command takes no arguments".toList⟩

/-- `typeOnly` on tokens. -/
def typeTokens (cmd : Str → Command) : List Str → Except ParseError Command
  | [] => .error ⟨status.SYNTAX_PARAMS, "missing argument".toList⟩
  | [typeName] => do
    checkType typeName
    .ok (cmd typeName)
  | _ => .error ⟨status.SYNTAX_PARAMS, "too many arguments".toList⟩

/-- `typeAndKey` on tokens. -/
def typeAndKeyTokens (cmd : Str → Str → Command) : List Str → Except ParseError Command
  | [] => .error ⟨status.SYNTAX_PARAMS, "missing arguments".toList⟩
  | [_] => .error ⟨status.SYNTAX_PARAMS, "missing second argument".toList⟩
  | [typeName, key] => do
    checkType typeName
    checkKey key
    .ok (cmd typeName key)
  | _ => .error ⟨status.SYNTAX_PARAMS, "too many arguments".toList⟩

/-- `listArgs` on tokens. -/
def listTokens : List Str → Except ParseError Command
  | [] => .error ⟨status.SYNTAX_PARAMS, "LIST requires a sub-command (TYPES)".toList⟩
  | [word] =>
    if Str.eqIgnoreAsciiCase word "TYPES".toList then .ok .listTypes
    else .error ⟨status.NOT_IMPLEMENTED, "only LIST TYPES is supported".toList⟩
  | _ => .error ⟨status.NOT_IMPLEMENTED, "only LIST TYPES is supported".toList⟩

/-- The parser on the tokens of a line. -/
def fromTokens : List Str → Except ParseError Command
  | [] => .error ⟨status.SYNTAX, "empty command".toList⟩
  | verb :: args =>
    let verb := Str.toAsciiUppercase verb
    if verb = "CAPABILITIES".toList then noTokens .capabilities args
    else if verb = "HELP".toList then noTokens .help args
    else if verb = "QUIT".toList then noTokens .quit args
    else if verb = "REGISTER".toList then typeAndKeyTokens .register args
    else if verb = "PUBLISH".toList then typeAndKeyTokens .publish args
    else if verb = "SUBSCRIBE".toList then typeTokens .subscribe args
    else if verb = "UNSUBSCRIBE".toList then typeTokens .unsubscribe args
    else if verb = "LIST".toList then listTokens args
    else .error ⟨status.SYNTAX, "command unrecognized".toList⟩

section Acceptance

variable {ts : List Str} {c : Command} {e : ParseError} {t k : Str}

/-- Comparing in lower case is comparing in upper case. -/
theorem eqIgnoreAsciiCase_iff (s w : Str) :
    Str.eqIgnoreAsciiCase s w = true ↔ Str.toAsciiUppercase s = Str.toAsciiUppercase w := by
  unfold Str.eqIgnoreAsciiCase Str.toAsciiUppercase
  rw [decide_eq_true_eq]
  induction s generalizing w with
  | nil => cases w <;> simp
  | cons c s ih =>
    cases w with
    | nil => simp
    | cons d w =>
      rw [List.map_cons, List.map_cons, List.map_cons, List.map_cons, List.cons.injEq,
        List.cons.injEq, toLower_eq_iff_toUpper_eq, ih]

/-- The type check, as a result. -/
theorem checkType_eq_ok_iff : checkType t = .ok () ↔ IsType t := by
  unfold checkType
  rw [← isValidType_iff]
  split
  · next h => simp [h]
  · next h => simp [h]

/-- The key check, as a result. -/
theorem checkKey_eq_ok_iff : checkKey k = .ok () ↔ IsKey k := by
  unfold checkKey
  rw [← isValidKey_iff]
  split
  · next h => simp [h]
  · next h => simp [h]

/-- Which tokens make a command without arguments. -/
theorem noTokens_eq_ok_iff {cmd : Command} : noTokens cmd ts = .ok c ↔ ts = [] ∧ c = cmd := by
  cases ts with
  | nil => simp [noTokens, eq_comm]
  | cons t ts => simp [noTokens]

/-- Which tokens make a command with a type. -/
theorem typeTokens_eq_ok_iff {cmd : Str → Command} :
    typeTokens cmd ts = .ok c ↔ ∃ t, ts = [t] ∧ IsType t ∧ c = cmd t := by
  rcases ts with _ | ⟨t, _ | ⟨u, ts⟩⟩
  · simp [typeTokens]
  · by_cases ht : IsType t
    · have hcheck := checkType_eq_ok_iff.mpr ht
      simp [typeTokens, hcheck, ht, eq_comm, bind, Except.bind]
    · cases hcheck : checkType t with
      | ok => exact absurd (checkType_eq_ok_iff.mp hcheck) ht
      | error e => simp [typeTokens, hcheck, ht, bind, Except.bind]
  · simp [typeTokens]

/-- Which tokens make a command with a type and a key. -/
theorem typeAndKeyTokens_eq_ok_iff {cmd : Str → Str → Command} :
    typeAndKeyTokens cmd ts = .ok c ↔
      ∃ t k, ts = [t, k] ∧ IsType t ∧ IsKey k ∧ c = cmd t k := by
  rcases ts with _ | ⟨t, _ | ⟨k, _ | ⟨u, ts⟩⟩⟩
  · simp [typeAndKeyTokens]
  · simp [typeAndKeyTokens]
  · cases htype : checkType t with
    | ok =>
      have ht := checkType_eq_ok_iff.mp htype
      cases hkey : checkKey k with
      | ok =>
        have hk := checkKey_eq_ok_iff.mp hkey
        simp [typeAndKeyTokens, htype, hkey, ht, hk, eq_comm, bind, Except.bind]
      | error e =>
        have hk : ¬IsKey k := fun hk => by
          rw [checkKey_eq_ok_iff.mpr hk] at hkey
          cases hkey
        simp [typeAndKeyTokens, htype, hkey, hk, bind, Except.bind]
    | error e =>
      have ht : ¬IsType t := fun ht => by
        rw [checkType_eq_ok_iff.mpr ht] at htype
        cases htype
      simp [typeAndKeyTokens, htype, ht, bind, Except.bind]
  · simp [typeAndKeyTokens]

/-- Which tokens make a listing. -/
theorem listTokens_eq_ok_iff :
    listTokens ts = .ok c ↔ ∃ word, ts = [word] ∧ IsWord "TYPES" word ∧ c = .listTypes := by
  rcases ts with _ | ⟨word, _ | ⟨u, ts⟩⟩
  · simp [listTokens]
  · have hword : Str.eqIgnoreAsciiCase word "TYPES".toList = true ↔ IsWord "TYPES" word :=
      eqIgnoreAsciiCase_iff word _
    have hlist : listTokens [word] =
        if Str.eqIgnoreAsciiCase word "TYPES".toList then .ok .listTypes
        else .error ⟨status.NOT_IMPLEMENTED, "only LIST TYPES is supported".toList⟩ := rfl
    by_cases h : IsWord "TYPES" word
    · rw [hlist, if_pos (hword.mpr h)]
      constructor
      · intro heq
        exact ⟨word, rfl, h, (Except.ok.inj heq).symm⟩
      · rintro ⟨_, _, _, rfl⟩
        rfl
    · rw [hlist, if_neg (fun h' => h (hword.mp h'))]
      constructor
      · intro heq
        cases heq
      · rintro ⟨word', heq, hword', _⟩
        obtain rfl := (List.cons.inj heq).1
        exact absurd hword' h
  · simp [listTokens]

/-- **The tokens that make a command** are the productions of the grammar. -/
theorem fromTokens_eq_ok_iff : fromTokens ts = .ok c ↔ Production ts c := by
  constructor
  · intro h
    cases ts with
    | nil => cases h
    | cons verb args =>
      dsimp only [fromTokens] at h
      split at h
      · next hverb =>
        obtain ⟨rfl, rfl⟩ := noTokens_eq_ok_iff.mp h
        exact .capabilities hverb
      split at h
      · next hverb =>
        obtain ⟨rfl, rfl⟩ := noTokens_eq_ok_iff.mp h
        exact .help hverb
      split at h
      · next hverb =>
        obtain ⟨rfl, rfl⟩ := noTokens_eq_ok_iff.mp h
        exact .quit hverb
      split at h
      · next hverb =>
        obtain ⟨t, k, rfl, ht, hk, rfl⟩ := typeAndKeyTokens_eq_ok_iff.mp h
        exact .register hverb ht hk
      split at h
      · next hverb =>
        obtain ⟨t, k, rfl, ht, hk, rfl⟩ := typeAndKeyTokens_eq_ok_iff.mp h
        exact .publish hverb ht hk
      split at h
      · next hverb =>
        obtain ⟨t, rfl, ht, rfl⟩ := typeTokens_eq_ok_iff.mp h
        exact .subscribe hverb ht
      split at h
      · next hverb =>
        obtain ⟨t, rfl, ht, rfl⟩ := typeTokens_eq_ok_iff.mp h
        exact .unsubscribe hverb ht
      split at h
      · next hverb =>
        obtain ⟨word, rfl, hword, rfl⟩ := listTokens_eq_ok_iff.mp h
        exact .listTypes hverb hword
      · cases h
  · intro h
    cases h with
    | capabilities hverb => simp [fromTokens, hverb.eq, noTokens]
    | help hverb => simp [fromTokens, hverb.eq, noTokens]
    | quit hverb => simp [fromTokens, hverb.eq, noTokens]
    | register hverb ht hk =>
      simpa [fromTokens, hverb.eq] using
        typeAndKeyTokens_eq_ok_iff.mpr ⟨_, _, rfl, ht, hk, rfl⟩
    | publish hverb ht hk =>
      simpa [fromTokens, hverb.eq] using
        typeAndKeyTokens_eq_ok_iff.mpr ⟨_, _, rfl, ht, hk, rfl⟩
    | subscribe hverb ht =>
      simpa [fromTokens, hverb.eq] using typeTokens_eq_ok_iff.mpr ⟨_, rfl, ht, rfl⟩
    | unsubscribe hverb ht =>
      simpa [fromTokens, hverb.eq] using typeTokens_eq_ok_iff.mpr ⟨_, rfl, ht, rfl⟩
    | listTypes hverb hword =>
      simpa [fromTokens, hverb.eq] using listTokens_eq_ok_iff.mpr ⟨_, rfl, hword, rfl⟩

/-- Why tokens are refused, and with which code. -/
inductive Refused : List Str → Code → Prop
  /-- There is no verb, or it is unknown. -/
  | unrecognized {ts : List Str} (h : Unrecognized ts) : Refused ts status.SYNTAX
  /-- The verb does not go with these arguments. -/
  | arity {ts : List Str} {code : Code} (hverb : ¬Unrecognized ts) (htype : ∀ t, ¬TypeToken ts t)
      (hcode : code = status.SYNTAX_PARAMS ∨ code = status.NOT_IMPLEMENTED) : Refused ts code
  /-- The type is invalid. -/
  | badType {ts : List Str} {t : Str} (htoken : TypeToken ts t) (htype : ¬IsType t) :
      Refused ts status.INVALID_TYPE
  /-- Only the key is invalid. -/
  | badKey {ts : List Str} {t : Str} (htoken : TypeToken ts t) (htype : IsType t) :
      Refused ts status.SYNTAX_PARAMS

/-- A known verb is recognized. -/
theorem not_unrecognized {word : String} {args : List Str} (hverb : IsWord word t)
    (hmem : word ∈ verbs) : ¬Unrecognized (t :: args) :=
  fun h => h word hmem hverb

/-- No type goes with a verb of another kind. -/
theorem not_typeToken {word : String} {args : List Str} (hverb : IsWord word t)
    (hword : word.toList ∉ ["REGISTER".toList, "PUBLISH".toList, "SUBSCRIBE".toList,
      "UNSUBSCRIBE".toList]) (u : Str) : ¬TypeToken (t :: args) u := by
  intro h
  apply hword
  cases h with
  | typeAndKey hother =>
    rcases hother with hother | hother <;> (rw [hverb.unique hother]; simp)
  | typeOnly hother =>
    rcases hother with hother | hother <;> (rw [hverb.unique hother]; simp)

/-- The type that tokens with a type have. -/
theorem typeToken_typeOnly {args : List Str}
    (hverb : IsWord "SUBSCRIBE" t ∨ IsWord "UNSUBSCRIBE" t) {u : Str}
    (h : TypeToken (t :: args) u) : args = [u] := by
  cases h with
  | typeAndKey hother =>
    rcases hverb with hverb | hverb <;> rcases hother with hother | hother <;>
      exact absurd (hverb.unique hother) (by decide)
  | typeOnly => rfl

/-- The type that tokens with a type and a key have. -/
theorem typeToken_typeAndKey {args : List Str}
    (hverb : IsWord "REGISTER" t ∨ IsWord "PUBLISH" t) {u : Str}
    (h : TypeToken (t :: args) u) : ∃ k, args = [u, k] := by
  cases h with
  | typeAndKey => exact ⟨_, rfl⟩
  | typeOnly hother =>
    rcases hverb with hverb | hverb <;> rcases hother with hother | hother <;>
      exact absurd (hverb.unique hother) (by decide)

/-- How a command without arguments is refused. -/
theorem refused_of_noTokens (word : String) {cmd : Command} (hverb : IsWord word t)
    (hmem : word ∈ ["CAPABILITIES", "HELP", "QUIT"]) (h : noTokens cmd ts = .error e) :
    Refused (t :: ts) e.code := by
  have hcode : e.code = status.SYNTAX_PARAMS := by
    cases ts with
    | nil => cases h
    | cons u ts => rw [← Except.error.inj h]
  simp only [List.mem_cons, List.not_mem_nil, or_false] at hmem
  rcases hmem with rfl | rfl | rfl
  all_goals
    exact .arity (not_unrecognized hverb (by simp [verbs])) (not_typeToken hverb (by decide))
      (Or.inl hcode)

/-- How a command with a type is refused. -/
theorem refused_of_typeTokens {cmd : Str → Command}
    (hverb : IsWord "SUBSCRIBE" t ∨ IsWord "UNSUBSCRIBE" t) (h : typeTokens cmd ts = .error e) :
    Refused (t :: ts) e.code := by
  have hknown : ¬Unrecognized (t :: ts) := by
    rcases hverb with hverb | hverb <;> exact not_unrecognized hverb (by simp [verbs])
  rcases ts with _ | ⟨u, _ | ⟨v, ts⟩⟩
  · obtain rfl := Except.error.inj h
    exact .arity hknown (fun w hw => by cases typeToken_typeOnly hverb hw) (Or.inl rfl)
  · by_cases hu : IsType u
    · rw [typeTokens_eq_ok_iff.mpr ⟨u, rfl, hu, rfl⟩] at h
      cases h
    · have hno : validate.isValidType u = false := by
        rwa [Bool.eq_false_iff, Ne, isValidType_iff]
      have hcode : e.code = status.INVALID_TYPE := by
        simp only [typeTokens, checkType, hno] at h
        rw [← Except.error.inj h]
      rw [hcode]
      exact .badType (.typeOnly hverb) hu
  · obtain rfl := Except.error.inj h
    exact .arity hknown (fun w hw => by cases typeToken_typeOnly hverb hw) (Or.inl rfl)

/-- How a command with a type and a key is refused. -/
theorem refused_of_typeAndKeyTokens {cmd : Str → Str → Command}
    (hverb : IsWord "REGISTER" t ∨ IsWord "PUBLISH" t) (h : typeAndKeyTokens cmd ts = .error e) :
    Refused (t :: ts) e.code := by
  have hknown : ¬Unrecognized (t :: ts) := by
    rcases hverb with hverb | hverb <;> exact not_unrecognized hverb (by simp [verbs])
  have harity : (∀ u k, ts ≠ [u, k]) → ∀ w, ¬TypeToken (t :: ts) w := by
    intro hts w hw
    obtain ⟨k, hk⟩ := typeToken_typeAndKey hverb hw
    exact hts w k hk
  rcases ts with _ | ⟨u, _ | ⟨k, _ | ⟨v, ts⟩⟩⟩
  · obtain rfl := Except.error.inj h
    exact .arity hknown (harity (by simp)) (Or.inl rfl)
  · obtain rfl := Except.error.inj h
    exact .arity hknown (harity (by simp)) (Or.inl rfl)
  · by_cases hu : IsType u
    · have hvalid := isValidType_iff.mpr hu
      have hcode : e.code = status.SYNTAX_PARAMS := by
        simp only [typeAndKeyTokens, checkType, checkKey, hvalid, if_true] at h
        split at h
        · cases h
        · rw [← Except.error.inj h]
      rw [hcode]
      exact .badKey (.typeAndKey hverb) hu
    · have hno : validate.isValidType u = false := by
        rwa [Bool.eq_false_iff, Ne, isValidType_iff]
      have hcode : e.code = status.INVALID_TYPE := by
        simp only [typeAndKeyTokens, checkType, hno] at h
        rw [← Except.error.inj h]
      rw [hcode]
      exact .badType (.typeAndKey hverb) hu
  · obtain rfl := Except.error.inj h
    exact .arity hknown (harity (by simp)) (Or.inl rfl)

/-- How a listing is refused. -/
theorem refused_of_listTokens (hverb : IsWord "LIST" t) (h : listTokens ts = .error e) :
    Refused (t :: ts) e.code := by
  have hcode : e.code = status.SYNTAX_PARAMS ∨ e.code = status.NOT_IMPLEMENTED := by
    unfold listTokens at h
    split at h
    · rw [← Except.error.inj h]
      exact Or.inl rfl
    · split at h
      · cases h
      · rw [← Except.error.inj h]
        exact Or.inr rfl
    · rw [← Except.error.inj h]
      exact Or.inr rfl
  exact .arity (not_unrecognized hverb (by simp [verbs])) (not_typeToken hverb (by decide)) hcode

/-- **Tokens are refused for one of these reasons.** -/
theorem refused_of_fromTokens (h : fromTokens ts = .error e) : Refused ts e.code := by
  cases ts with
  | nil =>
    obtain rfl := Except.error.inj h
    exact .unrecognized trivial
  | cons verb args =>
    dsimp only [fromTokens] at h
    split at h
    · next hverb => exact refused_of_noTokens "CAPABILITIES" hverb (by simp) h
    split at h
    · next hverb => exact refused_of_noTokens "HELP" hverb (by simp) h
    split at h
    · next hverb => exact refused_of_noTokens "QUIT" hverb (by simp) h
    split at h
    · next hverb => exact refused_of_typeAndKeyTokens (Or.inl hverb) h
    split at h
    · next hverb => exact refused_of_typeAndKeyTokens (Or.inr hverb) h
    split at h
    · next hverb => exact refused_of_typeTokens (Or.inl hverb) h
    split at h
    · next hverb => exact refused_of_typeTokens (Or.inr hverb) h
    split at h
    · next hverb => exact refused_of_listTokens hverb h
    · next hcap hhelp hquit hreg hpub hsub hunsub hlist =>
      obtain rfl := Except.error.inj h
      refine .unrecognized fun word hmem => ?_
      simp only [verbs, List.mem_cons, List.not_mem_nil, or_false] at hmem
      rcases hmem with rfl | rfl | rfl | rfl | rfl | rfl | rfl | rfl
      · exact hcap
      · exact hhelp
      · exact hquit
      · exact hreg
      · exact hpub
      · exact hsub
      · exact hunsub
      · exact hlist

/-- The code says why. -/
theorem Refused.spec {code : Code} (h : Refused ts code) :
    status.classOf code = .permanent ∧ (code = status.SYNTAX ↔ Unrecognized ts) ∧
      (code = status.INVALID_TYPE ↔ ∃ t, TypeToken ts t ∧ ¬IsType t) := by
  have hknown : ∀ {t}, TypeToken ts t → ¬Unrecognized ts := by
    intro t ht
    cases ht with
    | typeAndKey hverb =>
      rcases hverb with hverb | hverb <;> exact not_unrecognized hverb (by simp [verbs])
    | typeOnly hverb =>
      rcases hverb with hverb | hverb <;> exact not_unrecognized hverb (by simp [verbs])
  cases h with
  | unrecognized h =>
    refine ⟨rfl, iff_of_true rfl h, iff_of_false (by decide) ?_⟩
    rintro ⟨t, ht, _⟩
    exact hknown ht h
  | arity hverb htype hcode =>
    have hno : ¬∃ t, TypeToken ts t ∧ ¬IsType t := fun ⟨t, ht, _⟩ => htype t ht
    rcases hcode with rfl | rfl
    · exact ⟨rfl, iff_of_false (by decide) hverb, iff_of_false (by decide) hno⟩
    · exact ⟨rfl, iff_of_false (by decide) hverb, iff_of_false (by decide) hno⟩
  | badType htoken htype =>
    exact ⟨rfl, iff_of_false (by decide) (hknown htoken), iff_of_true rfl ⟨_, htoken, htype⟩⟩
  | badKey htoken htype =>
    refine ⟨rfl, iff_of_false (by decide) (hknown htoken), iff_of_false (by decide) ?_⟩
    rintro ⟨t, ht, hno⟩
    exact hno (ht.unique htoken ▸ htype)

end Acceptance

end command

end MacroBus
