import MacroBus.Lib.Least
import MacroBus.Busd.Registry

/-!
# Applying the registrations of peers

What a table holds for a type after a list of registrations is the first of the records
with the lowest `(ts, origin)` tuple among the record held before and those of the list.
So order and repetition do not matter, except where two records share that tuple.
-/

namespace MacroBus

namespace Registry

/-- Apply registrations learned from peers, one after the other. -/
def applyAll (r : Registry) (records : List (Str × TypeReg)) : Registry :=
  records.foldl (fun r record => (r.applyRemoteRegistration record.1 record.2).2) r

/-- The records for a type. -/
def recordsOf (typeName : Str) (records : List (Str × TypeReg)) : List TypeReg :=
  (records.filter fun record => record.1 = typeName).map Prod.snd

variable {r : Registry} {typeName : Str} {records records' : List (Str × TypeReg)}

/-- A record of the list, by its type. -/
theorem mem_recordsOf {reg : TypeReg} :
    reg ∈ recordsOf typeName records ↔ (typeName, reg) ∈ records := by
  unfold recordsOf
  rw [List.mem_map]
  constructor
  · rintro ⟨⟨t, reg'⟩, hmem, rfl⟩
    obtain ⟨hin, ht⟩ := List.mem_filter.mp hmem
    have htype : t = typeName := of_decide_eq_true ht
    rwa [htype] at hin
  · intro hmem
    exact ⟨(typeName, reg), List.mem_filter.mpr ⟨hmem, decide_eq_true rfl⟩, rfl⟩

/-- **One registration** keeps the lower of two records for its type. -/
theorem lookup_applyRemoteRegistration (r : Registry) (t : Str) (incoming : TypeReg)
    (typeName : Str) :
    (r.applyRemoteRegistration t incoming).2.types.lookup typeName =
      if t = typeName then Least.keep TypeReg.tuple (r.types.lookup typeName) incoming
      else r.types.lookup typeName := by
  rcases happly : r.applyRemoteRegistration t incoming with ⟨_ | effective, r'⟩
  · obtain ⟨⟨existing, hheld, hle⟩, rfl⟩ := applyRemoteRegistration_eq_none_iff.mp happly
    by_cases ht : t = typeName
    · subst ht
      rw [if_pos rfl, hheld]
      exact (if_neg hle.not_gt).symm
    · rw [if_neg ht]
  · obtain ⟨hlt, _, rfl⟩ := applyRemoteRegistration_eq_some_iff.mp happly
    by_cases ht : t = typeName
    · subst ht
      rw [if_pos rfl, AList.lookup_insert]
      cases hheld : r.types.lookup t with
      | none => rfl
      | some existing => exact (if_pos (hlt existing hheld)).symm
    · rw [if_neg ht, AList.lookup_insert_ne (Ne.symm ht)]

/-- **All registrations** keep the first of the lowest records. -/
theorem lookup_applyAll (r : Registry) (records : List (Str × TypeReg)) (typeName : Str) :
    (r.applyAll records).types.lookup typeName =
      Least.keepAll TypeReg.tuple (r.types.lookup typeName) (recordsOf typeName records) := by
  induction records generalizing r with
  | nil => rfl
  | cons record records ih =>
    have hnext : r.applyAll (record :: records) =
        (r.applyRemoteRegistration record.1 record.2).2.applyAll records := rfl
    rw [hnext, ih, lookup_applyRemoteRegistration]
    by_cases ht : record.1 = typeName
    · have hrecords : recordsOf typeName (record :: records) =
          record.2 :: recordsOf typeName records := by
        simp [recordsOf, ht]
      rw [if_pos ht, hrecords]
      rfl
    · have hrecords : recordsOf typeName (record :: records) = recordsOf typeName records := by
        simp [recordsOf, ht]
      rw [if_neg ht, hrecords]

/-- **Applying registrations is commutative and idempotent exactly without ties**: the table
depends only on which records are applied, not on their order or on how often, if and only if
no two different records for a type share the lowest tuple of the list below the record held
before. -/
theorem peer_registrations_commute_iff (r : Registry) (records : List (Str × TypeReg)) :
    (∀ records', (∀ record, record ∈ records' ↔ record ∈ records) → ∀ typeName,
      (r.applyAll records').types.lookup typeName = (r.applyAll records).types.lookup typeName) ↔
    ∀ typeName,
      Least.NoTies TypeReg.tuple (r.types.lookup typeName) (recordsOf typeName records) := by
  constructor
  · intro hall typeName a ha b hb htuple hle hbelow
    -- Whichever of the two records comes first is the one that is kept.
    have hfirst : ∀ c, c ∈ recordsOf typeName records →
        (∀ d ∈ recordsOf typeName records, c.tuple ≤ d.tuple) →
        Least.Below TypeReg.tuple (r.types.lookup typeName) c →
        (r.applyAll records).types.lookup typeName = some c := by
      intro c hc hcle hcbelow
      have hmem := mem_recordsOf.mp hc
      have hsame := hall ((typeName, c) :: records) (fun record => by
        constructor
        · intro hrecord
          rcases List.mem_cons.mp hrecord with rfl | hrecord
          · exact hmem
          · exact hrecord
        · exact List.mem_cons_of_mem _) typeName
      have hcons : recordsOf typeName ((typeName, c) :: records) =
          c :: recordsOf typeName records := by
        simp [recordsOf]
      rw [← hsame, lookup_applyAll, hcons]
      exact Least.keepAll_cons_of_le hcbelow hcle
    have hkeepa := hfirst a ha hle hbelow
    have hkeepb := hfirst b hb (fun d hd => htuple ▸ hle d hd) fun d hd => htuple ▸ hbelow d hd
    exact Option.some.inj (hkeepa.symm.trans hkeepb)
  · intro hties records' hsame typeName
    rw [lookup_applyAll, lookup_applyAll]
    refine (hties typeName).keepAll_congr fun reg => ?_
    rw [mem_recordsOf, mem_recordsOf]
    exact hsame (typeName, reg)

/-- Two registrations of one daemon at the same time: the one that arrives first is kept. -/
theorem peer_registrations_do_not_commute : ∃ (r : Registry) (first second : Str × TypeReg),
    ((r.applyAll [first, second]).types.lookup "t".toList).map TypeReg.key = some "k".toList ∧
      ((r.applyAll [second, first]).types.lookup "t".toList).map TypeReg.key =
        some "m".toList :=
  ⟨Registry.new "d2".toList 1, ("t".toList, ⟨"k".toList, "d1".toList, 0⟩),
    ("t".toList, ⟨"m".toList, "d1".toList, 0⟩), by decide, by decide⟩

end Registry

end MacroBus
