import MacroBus.Lib.Lines

/-!
# Buffered reading

A buffered reader holds what it has read ahead of its user; its source still returns
some chunks and then the end of the stream. What the reader returns depends on the
octets that remain, not on the chunks in which they arrive.
-/

/-- A buffered reader over a source that returns these chunks and then ends. -/
structure BufReader (α : Type*) where
  /-- What has been read ahead. -/
  buffer : List α := []
  /-- What the source still returns, one chunk a read. -/
  chunks : List (List α)
  /-- An empty read would be the end of the stream. -/
  nonempty : ∀ c ∈ chunks, c ≠ []

namespace BufReader

variable {α : Type*}

/-- Everything that has not been handed out yet. -/
def remaining (r : BufReader α) : List α := r.buffer ++ r.chunks.flatten

/-- A reader that hands out this much, all of it read ahead. -/
def ofList (l : List α) : BufReader α := ⟨l, [], by simp⟩

@[simp] theorem remaining_ofList (l : List α) : (ofList l).remaining = l := by
  simp [remaining, ofList]

@[simp] theorem remaining_mk (buffer : List α) (chunks : List (List α))
    (h : ∀ c ∈ chunks, c ≠ []) : (mk buffer chunks h).remaining = buffer ++ chunks.flatten := rfl

/-- Read one element; `none` at the end of the stream. -/
def readByte (r : BufReader α) : Option (α × BufReader α) :=
  match r with
  | ⟨a :: buffer, chunks, h⟩ => some (a, ⟨buffer, chunks, h⟩)
  | ⟨[], [], _⟩ => none
  | ⟨[], [] :: _, _⟩ => none
  | ⟨[], (a :: chunk) :: chunks, h⟩ => some (a, ⟨chunk, chunks, fun c hc => h c (.tail _ hc)⟩)

/-- Reading one element takes the first that remains. -/
theorem readByte_remaining (r : BufReader α) :
    match r.readByte with
    | some (a, r') => r.remaining = a :: r'.remaining
    | none => r.remaining = [] := by
  obtain ⟨buffer, chunks, h⟩ := r
  cases buffer with
  | cons a buffer => rfl
  | nil =>
    cases chunks with
    | nil => rfl
    | cons chunk chunks =>
      cases chunk with
      | nil => exact absurd rfl (h [] List.mem_cons_self)
      | cons a chunk => rfl

/-- An element that is read leaves less than there was. -/
theorem readByte_lt {r r' : BufReader α} {a : α} (h : r.readByte = some (a, r')) :
    r'.remaining.length < r.remaining.length := by
  have hspec := r.readByte_remaining
  rw [h] at hspec
  rw [hspec, List.length_cons]
  omega

/-- Where something remains, its first element is read. -/
theorem readByte_cons {r : BufReader α} {a : α} {l : List α} (h : r.remaining = a :: l) :
    ∃ r', r.readByte = some (a, r') ∧ r'.remaining = l := by
  have hspec := r.readByte_remaining
  split at hspec
  · next b r' heq =>
    rw [h] at hspec
    obtain ⟨rfl, hrest⟩ := List.cons.inj hspec
    exact ⟨r', heq, hrest.symm⟩
  · rw [h] at hspec
    cases hspec

/-- Where nothing remains, the stream has ended. -/
theorem readByte_nil {r : BufReader α} (h : r.remaining = []) : r.readByte = none := by
  have hspec := r.readByte_remaining
  split at hspec
  · rw [h] at hspec
    cases hspec
  · next heq => exact heq

variable [DecidableEq α]

/-- Read up to and with the first `sep`, or to the end of the stream. -/
def readUntilFrom (sep : α) (buffer : List α) :
    (chunks : List (List α)) → (∀ c ∈ chunks, c ≠ []) → List α × BufReader α
  | [], h =>
    match Lines.cut sep buffer with
    | some (line, rest) => (line ++ [sep], ⟨rest, [], h⟩)
    | none => (buffer, ⟨[], [], h⟩)
  | chunk :: chunks, h =>
    match Lines.cut sep buffer with
    | some (line, rest) => (line ++ [sep], ⟨rest, chunk :: chunks, h⟩)
    | none =>
      let more := readUntilFrom sep chunk chunks fun c hc => h c (.tail _ hc)
      (buffer ++ more.1, more.2)

/-- `AsyncBufReadExt::read_until` -/
def readUntil (sep : α) (r : BufReader α) : List α × BufReader α :=
  readUntilFrom sep r.buffer r.chunks r.nonempty

/-- A line that is there is read with its separator, however it arrives. -/
theorem readUntil_line {sep : α} {r : BufReader α} {line rest : List α}
    (h : r.remaining = line ++ sep :: rest) (hline : sep ∉ line) :
    (r.readUntil sep).1 = line ++ [sep] ∧ (r.readUntil sep).2.remaining = rest := by
  obtain ⟨buffer, chunks, hne⟩ := r
  simp only [remaining_mk] at h
  unfold readUntil
  dsimp only
  induction chunks generalizing buffer line with
  | nil =>
    rw [List.flatten_nil, List.append_nil] at h
    subst h
    simp only [readUntilFrom, Lines.cut_append_cons hline, remaining_mk, List.flatten_nil,
      List.append_nil, and_self]
  | cons chunk chunks ih =>
    cases hcut : Lines.cut sep buffer with
    | some p =>
      obtain ⟨line', rest'⟩ := p
      have hwhole := Lines.cut_append hcut (chunk :: chunks).flatten
      rw [h, Lines.cut_append_cons hline] at hwhole
      obtain ⟨rfl, rfl⟩ := Prod.mk.inj (Option.some.inj hwhole)
      simp only [readUntilFrom, hcut, remaining_mk, and_self]
    | none =>
      -- The buffer holds a first part of the line, and the rest is to be read.
      have hbuffer := Lines.cut_eq_none_iff.mp hcut
      have hsplit : ∃ more, line = buffer ++ more ∧ (chunk :: chunks).flatten = more ++ sep :: rest := by
        rcases List.append_eq_append_iff.mp h with ⟨more, hl, hm⟩ | ⟨more, hb, hm⟩
        · exact ⟨more, hl, hm⟩
        · cases more with
          | nil => exact ⟨[], by simpa using hb.symm, by simpa using hm.symm⟩
          | cons a more =>
            obtain ⟨rfl, _⟩ := List.cons.inj hm
            exact absurd (by rw [hb]; simp) hbuffer
      obtain ⟨more, rfl, hmore⟩ := hsplit
      rw [List.flatten_cons] at hmore
      obtain ⟨hl, hr⟩ := ih (fun hmem => hline (List.mem_append_right _ hmem)) chunk
        (fun c hc => hne c (.tail _ hc)) hmore
      simp only [readUntilFrom, hcut]
      exact ⟨by rw [hl, List.append_assoc], hr⟩

/-- Without a separator everything is read. -/
theorem readUntil_eof {sep : α} {r : BufReader α} (h : sep ∉ r.remaining) :
    (r.readUntil sep).1 = r.remaining ∧ (r.readUntil sep).2.remaining = [] := by
  obtain ⟨buffer, chunks, hne⟩ := r
  simp only [remaining_mk] at h ⊢
  unfold readUntil
  dsimp only
  induction chunks generalizing buffer with
  | nil =>
    have hcut : Lines.cut sep buffer = none := Lines.cut_eq_none_iff.mpr (by simpa using h)
    simp only [readUntilFrom, hcut, remaining_mk, List.flatten_nil, List.append_nil, and_self]
  | cons chunk chunks ih =>
    rw [List.mem_append, not_or] at h
    have hcut : Lines.cut sep buffer = none := Lines.cut_eq_none_iff.mpr h.1
    obtain ⟨hl, hr⟩ := ih chunk (fun c hc => hne c (.tail _ hc)) (by simpa using h.2)
    simp only [readUntilFrom, hcut]
    exact ⟨by rw [hl, List.flatten_cons], hr⟩

end BufReader
