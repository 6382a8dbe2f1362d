import MacroBus.Busd.FrameStream
import MacroBus.Busd.Unstuffing

/-!
# One turn of a reading loop

A peer link does not wait for the end of its stream: `read_loop` acts on a frame as soon as the
last of its octets has arrived. A turn takes one frame off the octets that are there. Octets that
arrive later do not change it, so how a stream is delivered has no part in what is read from it,
and what is wrong with one frame costs no other.
-/

namespace MacroBus

namespace federation

/-- `read_line` on octets that have arrived: the line they begin with, and what stands behind it;
`none` where its newline is still to come. -/
def arrivedLine (octets : Bytes) : Option (Str × Bytes) :=
  (Lines.cut LF octets).map fun p => (lineText p.1, p.2)

/-- `read_body` on octets that have arrived, of which it reads at most so many lines; `none`
where the terminator is still to come. -/
def arrivedBody (limits : Limits) : ℕ → BodyAcc → Bytes → Option (Option (List Str) × Bytes)
  | 0, _, _ => none
  | n + 1, acc, octets =>
    match arrivedLine octets with
    | none => none
    | some (line, rest) =>
      if line = frame.TERMINATOR then some (acc.result, rest)
      else arrivedBody limits n (acc.push limits line) rest

/-- One turn of `read_loop` on octets that have arrived: the call it makes, if any, and what it
leaves; `none` where it waits for more. -/
def turn (limits : Limits) (octets : Bytes) : Option (Option Inbound × Bytes) :=
  match arrivedLine octets with
  | none => none
  | some (line, rest) =>
    if line = [] then some (none, rest)
    else if Str.splitFirst ' ' line = "FEED".toList then
      (arrivedBody limits rest.length {} rest).map fun p =>
        (feedCall (Str.splitSecond ' ' line) p.1, p.2)
    else if Str.splitFirst ' ' line = "RREG".toList then
      some (rregCall (Str.splitSecond ' ' line), rest)
    else some (none, rest)

section Lines

variable {limits : Limits} {octets rest more : Bytes} {line : Str} {n m : ℕ} {acc : BodyAcc}
  {body : Option (List Str)} {call : Option Inbound}

/-- The text of a sent line. -/
@[simp] theorem lineText_asBytes (s : Str) : lineText (Str.asBytes s ++ [CR]) = s := by
  rw [lineText, stripCr_append, fromUtf8Lossy_asBytes]

/-- A line has arrived with its newline. -/
theorem arrivedLine_cons {raw : Bytes} (hraw : LF ∉ raw) (rest : Bytes) :
    arrivedLine (raw ++ LF :: rest) = some (lineText raw, rest) := by
  rw [arrivedLine, Lines.cut_append_cons hraw, Option.map_some]

/-- A sent line has arrived with its newline. -/
theorem arrivedLine_wireLine {s : Str} (hs : '\n' ∉ s) (rest : Bytes) :
    arrivedLine (wireLine s ++ rest) = some (s, rest) := by
  rw [wireLine_eq, List.append_assoc, List.cons_append, List.nil_append,
    arrivedLine_cons (LF_notMem_wire hs), lineText_asBytes]

/-- Octets behind a line do not change it. -/
theorem arrivedLine_append (h : arrivedLine octets = some (line, rest)) (more : Bytes) :
    arrivedLine (octets ++ more) = some (line, rest ++ more) := by
  obtain ⟨⟨raw, tail⟩, hcut, hline⟩ := Option.map_eq_some_iff.mp h
  obtain ⟨rfl, rfl⟩ := Prod.mk.inj hline
  unfold arrivedLine
  rw [Lines.cut_append hcut more, Option.map_some]

/-- A line that arrived is what the reader of the whole stream reads. -/
theorem readLine_of_arrivedLine {br : Reader} (h : arrivedLine br.remaining = some (line, rest)) :
    ∃ br', readLine br = (some line, br') ∧ br'.remaining = rest := by
  obtain ⟨⟨raw, tail⟩, hcut, hline⟩ := Option.map_eq_some_iff.mp h
  obtain ⟨rfl, rfl⟩ := Prod.mk.inj hline
  obtain ⟨hsplit, hraw⟩ := Lines.cut_eq_some_iff.mp hcut
  exact readLine_line hsplit hraw

/-- Octets behind a body do not change it, nor does being allowed more lines. -/
theorem arrivedBody_append (h : arrivedBody limits n acc octets = some (body, rest)) (hnm : n ≤ m)
    (more : Bytes) : arrivedBody limits m acc (octets ++ more) = some (body, rest ++ more) := by
  induction n generalizing m acc octets with
  | zero => cases h
  | succ n ih =>
    obtain ⟨m, rfl⟩ : ∃ k, m = k + 1 := ⟨m - 1, by omega⟩
    cases hline : arrivedLine octets with
    | none => simp [arrivedBody, hline] at h
    | some p =>
      obtain ⟨line, tail⟩ := p
      simp only [arrivedBody, hline] at h
      simp only [arrivedBody, arrivedLine_append hline more]
      by_cases hend : line = frame.TERMINATOR
      · rw [if_pos hend] at h ⊢
        obtain ⟨rfl, rfl⟩ := Prod.mk.inj (Option.some.inj h)
        rfl
      · rw [if_neg hend] at h ⊢
        exact ih h (by omega)

/-- A body that arrived is what the reader of the whole stream reads. -/
theorem readBodyFrom_of_arrivedBody {br : Reader}
    (h : arrivedBody limits n acc br.remaining = some (body, rest)) :
    ∃ br', readBodyFrom limits acc br = (some body, br') ∧ br'.remaining = rest := by
  induction n generalizing acc br with
  | zero => cases h
  | succ n ih =>
    cases hline : arrivedLine br.remaining with
    | none => simp [arrivedBody, hline] at h
    | some p =>
      obtain ⟨line, tail⟩ := p
      obtain ⟨br₁, hread, hrest⟩ := readLine_of_arrivedLine hline
      simp only [arrivedBody, hline] at h
      rw [readBodyFrom_some hread]
      by_cases hend : line = frame.TERMINATOR
      · rw [if_pos hend] at h ⊢
        obtain ⟨rfl, rfl⟩ := Prod.mk.inj (Option.some.inj h)
        exact ⟨br₁, rfl, hrest⟩
      · rw [if_neg hend] at h ⊢
        exact ih (hrest ▸ h)

/-- The lines of a body, none of which is the terminator, and the terminator. -/
theorem arrivedBody_lines (limits : Limits) {lines : List Bytes} {last : Bytes}
    (hlines : ∀ raw ∈ lines, LF ∉ raw ∧ lineText raw ≠ frame.TERMINATOR) (hlast : LF ∉ last)
    (hend : lineText last = frame.TERMINATOR) (hn : lines.length < n) (acc : BodyAcc)
    (rest : Bytes) : arrivedBody limits n acc (Lines.join LF lines ++ (last ++ LF :: rest)) =
      some (((lines.map lineText).foldl (BodyAcc.push limits) acc).result, rest) := by
  induction lines generalizing n acc with
  | nil =>
    obtain ⟨n, rfl⟩ : ∃ k, n = k + 1 := ⟨n - 1, by simp only [List.length_nil] at hn; omega⟩
    simp only [Lines.join_nil, List.nil_append, arrivedBody, arrivedLine_cons hlast, hend, if_true,
      List.map_nil, List.foldl_nil]
  | cons raw lines ih =>
    rw [List.length_cons] at hn
    obtain ⟨n, rfl⟩ : ∃ k, n = k + 1 := ⟨n - 1, by omega⟩
    obtain ⟨hraw, hne⟩ := hlines raw List.mem_cons_self
    rw [Lines.join_cons, List.append_assoc, List.cons_append, List.map_cons, List.foldl_cons]
    simp only [arrivedBody, arrivedLine_cons hraw, if_neg hne]
    exact ih (fun raw' h => hlines raw' (List.mem_cons_of_mem _ h)) (by omega) _

/-- A body is made of complete lines. -/
theorem lines_of_arrivedBody (h : arrivedBody limits n acc octets = some (body, rest)) :
    ∃ lines last, octets = Lines.join LF lines ++ (last ++ LF :: rest) ∧
      (∀ raw ∈ lines, LF ∉ raw ∧ lineText raw ≠ frame.TERMINATOR) ∧ LF ∉ last ∧
      lineText last = frame.TERMINATOR := by
  induction n generalizing acc octets with
  | zero => cases h
  | succ n ih =>
    cases hcut : Lines.cut LF octets with
    | none => simp [arrivedBody, arrivedLine, hcut] at h
    | some p =>
      obtain ⟨raw, tail⟩ := p
      obtain ⟨rfl, hraw⟩ := Lines.cut_eq_some_iff.mp hcut
      simp only [arrivedBody, arrivedLine_cons hraw] at h
      by_cases hend : lineText raw = frame.TERMINATOR
      · rw [if_pos hend] at h
        obtain ⟨_, rfl⟩ := Prod.mk.inj (Option.some.inj h)
        exact ⟨[], raw, by simp, by simp, hraw, hend⟩
      · rw [if_neg hend] at h
        obtain ⟨lines, last, rfl, hlines, hlast, hlastText⟩ := ih h
        refine ⟨raw :: lines, last, by simp, fun raw' hmem => ?_, hlast, hlastText⟩
        rcases List.mem_cons.mp hmem with rfl | hmem
        · exact ⟨hraw, hend⟩
        · exact hlines raw' hmem

/-- Complete lines are no fewer than their octets. -/
theorem length_le_join (lines : List Bytes) : lines.length ≤ (Lines.join LF lines).length := by
  induction lines with
  | nil => simp
  | cons raw lines ih =>
    rw [Lines.join_cons, List.length_append, List.length_cons, List.length_cons]
    omega

end Lines

section Turns

variable {limits : Limits} {octets rest : Bytes} {call : Option Inbound}

/-- **Octets that arrive later do not change a turn.** -/
theorem turn_append (h : turn limits octets = some (call, rest)) (more : Bytes) :
    turn limits (octets ++ more) = some (call, rest ++ more) := by
  unfold turn at h ⊢
  cases hline : arrivedLine octets with
  | none => simp [hline] at h
  | some p =>
    obtain ⟨line, tail⟩ := p
    simp only [hline] at h
    simp only [arrivedLine_append hline more]
    by_cases hnil : line = []
    · rw [if_pos hnil] at h ⊢
      obtain ⟨rfl, rfl⟩ := Prod.mk.inj (Option.some.inj h)
      rfl
    rw [if_neg hnil] at h ⊢
    by_cases hfeed : Str.splitFirst ' ' line = "FEED".toList
    · rw [if_pos hfeed] at h ⊢
      obtain ⟨⟨body, tail'⟩, hbody, hcall⟩ := Option.map_eq_some_iff.mp h
      obtain ⟨rfl, rfl⟩ := Prod.mk.inj hcall
      have hle : tail.length ≤ (tail ++ more).length := by simp
      rw [arrivedBody_append hbody hle more, Option.map_some]
    rw [if_neg hfeed] at h ⊢
    by_cases hrreg : Str.splitFirst ' ' line = "RREG".toList
    · rw [if_pos hrreg] at h ⊢
      obtain ⟨rfl, rfl⟩ := Prod.mk.inj (Option.some.inj h)
      rfl
    · rw [if_neg hrreg] at h ⊢
      obtain ⟨rfl, rfl⟩ := Prod.mk.inj (Option.some.inj h)
      rfl

/-- **A turn is what `read_loop` does first** with the whole stream, however it is delivered. -/
theorem readLoop_turn {br : Reader} (h : turn limits br.remaining = some (call, rest)) :
    ∃ br', br'.remaining = rest ∧
      readLoop limits br = (call.toList ++ (readLoop limits br').1, (readLoop limits br').2) := by
  unfold turn at h
  cases hline : arrivedLine br.remaining with
  | none => simp [hline] at h
  | some p =>
    obtain ⟨line, tail⟩ := p
    obtain ⟨br₁, hread, hrest⟩ := readLine_of_arrivedLine hline
    simp only [hline] at h
    by_cases hnil : line = []
    · rw [if_pos hnil] at h
      obtain ⟨rfl, rfl⟩ := Prod.mk.inj (Option.some.inj h)
      subst hnil
      have hfeed : Str.splitFirst ' ' [] ≠ "FEED".toList := by decide
      have hrreg : Str.splitFirst ' ' [] ≠ "RREG".toList := by decide
      exact ⟨br₁, hrest, readLoop_skip hread hfeed hrreg⟩
    rw [if_neg hnil] at h
    by_cases hfeed : Str.splitFirst ' ' line = "FEED".toList
    · rw [if_pos hfeed] at h
      obtain ⟨⟨body, tail'⟩, hbody, hcall⟩ := Option.map_eq_some_iff.mp h
      obtain ⟨rfl, rfl⟩ := Prod.mk.inj hcall
      rw [← hrest] at hbody
      obtain ⟨br₂, hread₂, hrest₂⟩ := readBodyFrom_of_arrivedBody hbody
      exact ⟨br₂, hrest₂, readLoop_feed hread hfeed hread₂⟩
    rw [if_neg hfeed] at h
    by_cases hrreg : Str.splitFirst ' ' line = "RREG".toList
    · rw [if_pos hrreg] at h
      obtain ⟨rfl, rfl⟩ := Prod.mk.inj (Option.some.inj h)
      exact ⟨br₁, hrest, readLoop_rreg hread hrreg⟩
    · rw [if_neg hrreg] at h
      obtain ⟨rfl, rfl⟩ := Prod.mk.inj (Option.some.inj h)
      exact ⟨br₁, hrest, readLoop_skip hread hfeed hrreg⟩

end Turns

section Arrival

variable {limits : Limits} {br br' : Reader}

/-- The next line does not depend on how it arrives. -/
theorem readLine_congr (h : br.remaining = br'.remaining) :
    (readLine br).1 = (readLine br').1 ∧ (readLine br).2.remaining = (readLine br').2.remaining := by
  cases hcut : Lines.cut LF br.remaining with
  | some p =>
    obtain ⟨hsplit, hraw⟩ := Lines.cut_eq_some_iff.mp hcut
    obtain ⟨br₁, hread, hrest⟩ := readLine_line hsplit hraw
    obtain ⟨br₂, hread', hrest'⟩ := readLine_line (h ▸ hsplit) hraw
    rw [hread, hread']
    exact ⟨rfl, hrest.trans hrest'.symm⟩
  | none =>
    have hraw := Lines.cut_eq_none_iff.mp hcut
    by_cases hnil : br.remaining = []
    · obtain ⟨br₁, hread, hrest⟩ := readLine_eof hnil
      obtain ⟨br₂, hread', hrest'⟩ := readLine_eof (h ▸ hnil)
      rw [hread, hread']
      exact ⟨rfl, hrest.trans hrest'.symm⟩
    · obtain ⟨br₁, hread, hrest⟩ := readLine_last hraw hnil
      obtain ⟨br₂, hread', hrest'⟩ := readLine_last (h ▸ hraw) (h ▸ hnil)
      rw [hread, hread', h]
      exact ⟨rfl, hrest.trans hrest'.symm⟩

/-- A body does not depend on how it arrives. -/
theorem readBodyFrom_congr (limits : Limits) (acc : BodyAcc) (h : br.remaining = br'.remaining) :
    (readBodyFrom limits acc br).1 = (readBodyFrom limits acc br').1 ∧
      (readBodyFrom limits acc br).2.remaining = (readBodyFrom limits acc br').2.remaining := by
  induction hn : br.remaining.length using Nat.strong_induction_on generalizing acc br br' with
  | _ n ih =>
    obtain ⟨hline, hrest⟩ := readLine_congr h
    rcases hread : readLine br with ⟨_ | line, br₁⟩ <;>
      rcases hread' : readLine br' with ⟨line', br₂⟩ <;> rw [hread, hread'] at hline hrest <;>
      dsimp only at hline hrest <;> subst hline
    · rw [readBodyFrom_none hread, readBodyFrom_none hread']
      exact ⟨rfl, hrest⟩
    · have hlt := readLine_lt hread
      rw [readBodyFrom_some hread, readBodyFrom_some hread']
      split
      · exact ⟨rfl, hrest⟩
      · exact ih _ (hn ▸ hlt) _ hrest rfl

/-- **The calls of `read_loop` do not depend on how the octets arrive.** -/
theorem readLoop_congr (h : br.remaining = br'.remaining) :
    readLoop limits br = readLoop limits br' := by
  induction hn : br.remaining.length using Nat.strong_induction_on generalizing br br' with
  | _ n ih =>
    obtain ⟨hline, hrest⟩ := readLine_congr h
    rcases hread : readLine br with ⟨_ | line, br₁⟩ <;>
      rcases hread' : readLine br' with ⟨line', br₂⟩ <;> rw [hread, hread'] at hline hrest <;>
      dsimp only at hline hrest <;> subst hline
    · rw [readLoop_none hread, readLoop_none hread']
    · have hlt := readLine_lt hread
      by_cases hfeed : Str.splitFirst ' ' line = "FEED".toList
      · obtain ⟨hbody, htail⟩ := readBodyFrom_congr limits {} hrest
        have hle := readBodyFrom_le limits {} br₁
        rcases hread₁ : readBodyFrom limits {} br₁ with ⟨_ | body, br₃⟩ <;>
          rcases hread₂ : readBodyFrom limits {} br₂ with ⟨body', br₄⟩ <;>
          rw [hread₁, hread₂] at hbody htail <;> dsimp only at hbody htail <;> subst hbody
        · rw [readLoop_midBody hread hfeed hread₁, readLoop_midBody hread' hfeed hread₂]
        · rw [hread₁] at hle
          dsimp only at hle
          have hfewer : br₃.remaining.length < n := by omega
          rw [readLoop_feed hread hfeed hread₁, readLoop_feed hread' hfeed hread₂,
            ih _ hfewer htail rfl]
      by_cases hrreg : Str.splitFirst ' ' line = "RREG".toList
      · rw [readLoop_rreg hread hrreg, readLoop_rreg hread' hrreg, ih _ (hn ▸ hlt) hrest rfl]
      · rw [readLoop_skip hread hfeed hrreg, readLoop_skip hread' hfeed hrreg,
          ih _ (hn ▸ hlt) hrest rfl]

end Arrival

/-- What a link may carry, well formed or not: a line that is no FEED header, or a FEED header and
all behind it up to the line that reads as the terminator. -/
inductive Item
  | line (raw : Bytes)
  | feed (header : Bytes) (lines : List Bytes) (last : Bytes)

namespace Item

/-- The octets of an item. -/
def octets : Item → Bytes
  | .line raw => raw ++ [LF]
  | .feed header lines last => header ++ LF :: (Lines.join LF lines ++ (last ++ [LF]))

/-- An item is cut off where it ends. -/
def Delimited : Item → Prop
  | .line raw => LF ∉ raw ∧ Str.splitFirst ' ' (lineText raw) ≠ "FEED".toList
  | .feed header lines last =>
    LF ∉ header ∧ Str.splitFirst ' ' (lineText header) = "FEED".toList ∧
      (∀ raw ∈ lines, LF ∉ raw ∧ lineText raw ≠ frame.TERMINATOR) ∧ LF ∉ last ∧
      lineText last = frame.TERMINATOR

instance : DecidablePred Delimited
  | .line raw =>
    inferInstanceAs (Decidable (LF ∉ raw ∧ Str.splitFirst ' ' (lineText raw) ≠ "FEED".toList))
  | .feed header lines last =>
    inferInstanceAs (Decidable (LF ∉ header ∧ Str.splitFirst ' ' (lineText header) = "FEED".toList ∧
      (∀ raw ∈ lines, LF ∉ raw ∧ lineText raw ≠ frame.TERMINATOR) ∧ LF ∉ last ∧
      lineText last = frame.TERMINATOR))

/-- The call that is made for an item, if it is well formed. -/
def call (limits : Limits) : Item → Option Inbound
  | .line raw =>
    if Str.splitFirst ' ' (lineText raw) = "RREG".toList then
      rregCall (Str.splitSecond ' ' (lineText raw))
    else none
  | .feed header lines _ =>
    feedCall (Str.splitSecond ' ' (lineText header))
      ((lines.map lineText).foldl (BodyAcc.push limits) {}).result

end Item

section Items

variable {limits : Limits} {octets rest : Bytes} {call : Option Inbound}

/-- **A turn takes one item.** -/
theorem turn_item (limits : Limits) {item : Item} (hitem : item.Delimited) (rest : Bytes) :
    turn limits (item.octets ++ rest) = some (item.call limits, rest) := by
  cases item with
  | line raw =>
    obtain ⟨hraw, hfeed⟩ := hitem
    have hline : arrivedLine ((Item.line raw).octets ++ rest) = some (lineText raw, rest) := by
      rw [Item.octets, List.append_assoc]
      exact arrivedLine_cons hraw rest
    simp only [turn, hline, Item.call]
    by_cases hnil : lineText raw = []
    · rw [if_pos hnil, hnil, if_neg (by decide)]
    rw [if_neg hnil, if_neg hfeed]
    split <;> rfl
  | feed header lines last =>
    obtain ⟨hheader, hfeed, hlines, hlast, hend⟩ := hitem
    have hline : arrivedLine ((Item.feed header lines last).octets ++ rest) =
        some (lineText header, Lines.join LF lines ++ (last ++ LF :: rest)) := by
      rw [Item.octets, List.append_assoc, List.cons_append, List.append_assoc, List.append_assoc]
      exact arrivedLine_cons hheader _
    have hnil : lineText header ≠ [] := by
      intro hnil
      rw [hnil] at hfeed
      exact absurd hfeed (by decide)
    have hlen : lines.length < (Lines.join LF lines ++ (last ++ LF :: rest)).length := by
      have hle := length_le_join lines
      simp only [List.length_append, List.length_cons]
      omega
    simp only [turn, hline, Item.call]
    rw [if_neg hnil, if_pos hfeed, arrivedBody_lines limits hlines hlast hend hlen {} rest,
      Option.map_some]

/-- **What a turn takes is an item.** -/
theorem item_of_turn (h : turn limits octets = some (call, rest)) :
    ∃ item : Item, item.Delimited ∧ octets = item.octets ++ rest ∧ call = item.call limits := by
  cases hcut : Lines.cut LF octets with
  | none => simp [turn, arrivedLine, hcut] at h
  | some p =>
    obtain ⟨raw, tail⟩ := p
    obtain ⟨rfl, hraw⟩ := Lines.cut_eq_some_iff.mp hcut
    have hline := arrivedLine_cons hraw tail
    have hitem : ∃ item : Item, item.Delimited ∧ raw ++ LF :: tail = item.octets ++ rest := by
      by_cases hfeed : Str.splitFirst ' ' (lineText raw) = "FEED".toList
      · have hnil : lineText raw ≠ [] := by
          intro hnil
          rw [hnil] at hfeed
          exact absurd hfeed (by decide)
        simp only [turn, hline, if_neg hnil, if_pos hfeed] at h
        obtain ⟨⟨body, tail'⟩, hbody, hcall⟩ := Option.map_eq_some_iff.mp h
        obtain ⟨_, rfl⟩ := Prod.mk.inj hcall
        obtain ⟨lines, last, rfl, hlines⟩ := lines_of_arrivedBody hbody
        exact ⟨.feed raw lines last, ⟨hraw, hfeed, hlines⟩, by simp [Item.octets]⟩
      · have htail : tail = rest := by
          simp only [turn, hline, if_neg hfeed] at h
          split at h
          · exact (Prod.mk.inj (Option.some.inj h)).2
          · split at h <;> exact (Prod.mk.inj (Option.some.inj h)).2
        exact ⟨.line raw, ⟨hraw, hfeed⟩, by simp [Item.octets, htail]⟩
    obtain ⟨item, hdelimited, heq⟩ := hitem
    have hturn := turn_item limits hdelimited rest
    rw [← heq, h] at hturn
    exact ⟨item, hdelimited, heq, (Prod.mk.inj (Option.some.inj hturn)).1⟩

/-- **The calls of `read_loop` are those of the well-formed items**, in order, whatever stands
between them; then it goes on behind the items. -/
theorem readLoop_items (limits : Limits) {items : List Item} (hitems : ∀ item ∈ items, item.Delimited)
    {br : Reader} (h : br.remaining = items.flatMap Item.octets ++ rest) :
    ∃ br', br'.remaining = rest ∧ readLoop limits br =
      (items.filterMap (Item.call limits) ++ (readLoop limits br').1, (readLoop limits br').2) := by
  induction items generalizing br with
  | nil => exact ⟨br, h, rfl⟩
  | cons item items ih =>
    have hturn := turn_item limits (hitems item List.mem_cons_self)
      (items.flatMap Item.octets ++ rest)
    rw [← List.append_assoc, ← List.flatMap_cons, ← h] at hturn
    obtain ⟨br₁, hrest₁, hloop₁⟩ := readLoop_turn hturn
    obtain ⟨br', hrest, hloop⟩ := ih (fun i hi => hitems i (List.mem_cons_of_mem _ hi)) hrest₁
    refine ⟨br', hrest, ?_⟩
    rw [hloop₁, hloop, List.filterMap_cons]
    cases item.call limits with
    | none => rfl
    | some call => rfl

/-- **What is malformed costs nothing else**: an item that makes no call, be it a line of no known
verb, a registration with a missing or unreadable field, a message without its header fields or
one that is too large, changes nothing of what is read before it and behind it, to the end of the
stream and however the octets arrive. -/
theorem malformed_is_isolated (limits : Limits) {before : List Item} {bad : Item} (rest : Bytes)
    (hbefore : ∀ item ∈ before, item.Delimited) (hbad : bad.Delimited)
    (hcall : bad.call limits = none) {br br' : Reader}
    (hwith : br.remaining = before.flatMap Item.octets ++ (bad.octets ++ rest))
    (hwithout : br'.remaining = before.flatMap Item.octets ++ rest) :
    readLoop limits br = readLoop limits br' := by
  obtain ⟨br₁, hrest₁, hloop₁⟩ := readLoop_items limits hbefore hwith
  obtain ⟨br₂, hrest₂, hloop₂⟩ := readLoop_items limits hbefore hwithout
  have hturn := turn_item limits hbad rest
  rw [← hrest₁, hcall] at hturn
  obtain ⟨br₃, hrest₃, hloop₃⟩ := readLoop_turn hturn
  rw [hloop₁, hloop₂, hloop₃, Option.toList_none, List.nil_append,
    readLoop_congr (hrest₃.trans hrest₂.symm)]

/-- A registration whose time is no number, between a registration and a message. -/
theorem malformed_is_isolated_registration :
    readLoop {} (.ofList (Str.asBytes
      "RREG t k d1 7\r\nRREG u k d1 soon\r\nFEED t d1-1 d1\r\nhi\r\n.\r\nFEED t".toList)) =
    readLoop {} (.ofList (Str.asBytes
      "RREG t k d1 7\r\nFEED t d1-1 d1\r\nhi\r\n.\r\nFEED t".toList)) := by
  have hbefore : ∀ item ∈ [Item.line (Str.asBytes "RREG t k d1 7\r".toList)], item.Delimited := by
    decide
  have hbad : (Item.line (Str.asBytes "RREG u k d1 soon\r".toList)).Delimited := by decide
  refine malformed_is_isolated {}
    (Str.asBytes "FEED t d1-1 d1\r\nhi\r\n.\r\nFEED t".toList) hbefore hbad (by decide) ?_ ?_
  · rw [BufReader.remaining_ofList]
    decide
  · rw [BufReader.remaining_ofList]
    decide

end Items

/-- The item that a frame is sent as. -/
def item : OutFrame → Item
  | .feed msg => .feed (Str.asBytes msg.feedHeader ++ [CR])
      (msg.body.map fun line => Str.asBytes (frame.stuffLine line) ++ [CR]) (DOT ++ [CR])
  | .rreg typeName reg => .line (Str.asBytes ("RREG".toList ++ ' ' :: (typeName ++ ' ' ::
      (reg.key ++ ' ' :: (reg.originDaemon ++ ' ' :: decimal reg.ts)))) ++ [CR])

section Frames

variable {f : OutFrame}

/-- The octets of a sent body. -/
theorem asBytes_encodeLines_eq_join (lines : List Str) : Str.asBytes (frame.encodeLines lines) =
    Lines.join LF (lines.map fun line => Str.asBytes (frame.stuffLine line) ++ [CR]) := by
  induction lines with
  | nil => rfl
  | cons line lines ih =>
    rw [asBytes_encodeLines_cons, ih, wireLine_eq, List.map_cons, Lines.join_cons,
      List.append_assoc, List.cons_append, List.nil_append]

/-- A frame is sent as its item. -/
theorem octets_item (f : OutFrame) : (item f).octets = Str.asBytes f.serialize := by
  cases f with
  | feed msg =>
    have hsplit : Str.asBytes (OutFrame.feed msg).serialize =
        wireLine msg.feedHeader ++ Str.asBytes (frame.encodeBody msg.body) :=
      Utf8.encode_append (msg.feedHeader ++ frame.CRLF) (frame.encodeBody msg.body)
    have hdot : wireLine frame.TERMINATOR = DOT ++ [CR] ++ [LF] := by decide
    rw [hsplit, asBytes_encodeBody, asBytes_encodeLines_eq_join, wireLine_eq, hdot]
    simp only [item, Item.octets, List.append_assoc, List.cons_append, List.nil_append]
  | rreg typeName reg =>
    rw [serialize_rreg]
    exact (wireLine_eq _).symm

/-- A frame that survives the wire is cut off where it ends. -/
theorem delimited_item (hf : f.Sendable) : (item f).Delimited := by
  cases f with
  | feed msg =>
    refine ⟨LF_notMem_wire (newline_notMem_feedHeader hf), ?_, ?_, by decide, by decide⟩
    · rw [lineText_asBytes, feedHeader_eq, Str.splitFirst_append_cons (by decide)]
    · intro raw hraw
      obtain ⟨line, hline, rfl⟩ := List.mem_map.mp hraw
      have hplain := newline_notMem_stuffLine (hf.2.2.2 line hline)
      refine ⟨LF_notMem_wire hplain, ?_⟩
      rw [lineText_asBytes]
      exact frame.stuffLine_ne_terminator line
  | rreg typeName reg =>
    refine ⟨LF_notMem_wire (newline_notMem_rreg hf), ?_⟩
    rw [lineText_asBytes, Str.splitFirst_append_cons (by decide)]
    decide

/-- The call for its item is the call a frame stands for. -/
theorem call_item (limits : Limits) (hf : f.Sendable) : (item f).call limits = f.call limits := by
  cases f with
  | feed msg =>
    have hlines : (msg.body.map fun line => Str.asBytes (frame.stuffLine line) ++ [CR]).map
        lineText = msg.body.map frame.stuffLine := by
      rw [List.map_map]
      exact List.map_congr_left fun line _ => lineText_asBytes _
    simp only [item, Item.call, lineText_asBytes, hlines, BodyAcc.result_stuffed,
      feedCall_feedHeader hf, OutFrame.call]
    split <;> rfl
  | rreg typeName reg =>
    have hts : parseUnsigned u64Values (decimal reg.ts) = some reg.ts :=
      parseUnsigned_decimal hf.2.2.2
    simp only [item, Item.call, lineText_asBytes, OutFrame.call]
    rw [if_pos (Str.splitFirst_append_cons (by decide) _), Str.splitSecond_append_cons (by decide),
      rregCall_fields hf.1.field hf.2.1.field hf.2.2.1.field (notMem_decimal (by decide) reg.ts), hts]
    rfl

/-- **A turn takes one frame.** -/
theorem turn_frame (limits : Limits) (hf : f.Sendable) (rest : Bytes) :
    turn limits (Str.asBytes f.serialize ++ rest) = some (f.call limits, rest) := by
  rw [← octets_item, turn_item limits (delimited_item hf), call_item limits hf]

/-- **A turn on what has arrived of a stream of frames** takes the first of them. -/
theorem turn_of_append {limits : Limits} {frames : List OutFrame} {octets tail rest : Bytes}
    {call : Option Inbound} (hframes : ∀ f ∈ frames, f.Sendable)
    (hoctets : octets ++ tail = frameStream frames) (hturn : turn limits octets = some (call, rest)) :
    ∃ f more, frames = f :: more ∧ call = f.call limits ∧ rest ++ tail = frameStream more := by
  have hall := turn_append hturn tail
  rw [hoctets] at hall
  cases frames with
  | nil => cases hall
  | cons f more =>
    rw [frameStream_cons, turn_frame limits (hframes f List.mem_cons_self)] at hall
    obtain ⟨hcall, hrest⟩ := Prod.mk.inj (Option.some.inj hall)
    exact ⟨f, more, rfl, hcall.symm, hrest.symm⟩

end Frames

end federation

end MacroBus
