import NodeRpc.Json.Canonical

/-!
# What canonical forms keep

The canonical form of an object has, under every key, the canonical form of what the object has
there, unless that is null.
-/

namespace NodeRpc.Json

theorem sortFields_perm (ps : List (String × Json)) : (sortFields ps).Perm ps :=
  List.mergeSort_perm ps _

/-! ### Fields -/

/-- The fields that are left are among those that there were. -/
theorem canonicalFields_keys (ps : List (String × Json)) :
    ((canonicalFields ps).map (·.1)).Sublist (ps.map (·.1)) := by
  induction ps with
  | nil => exact .slnil
  | cons p ps ih =>
    obtain ⟨k, v⟩ := p
    rw [canonicalFields]
    split
    · exact ih.cons k
    · exact ih.cons_cons k

theorem get?_canonicalFields {ps : List (String × Json)} (hd : (ps.map (·.1)).Nodup) (k : String) :
    Table.get? (canonicalFields ps) k =
      ((Table.get? ps k).filter fun v => !v.isNull).map canonical := by
  induction ps with
  | nil => rfl
  | cons p ps ih =>
    obtain ⟨l, v⟩ := p
    obtain ⟨hnew, hd⟩ := List.nodup_cons.1 hd
    rw [canonicalFields]
    by_cases hl : l = k
    · subst hl
      have hnone : Table.get? (canonicalFields ps) l = none :=
        (Table.get?_eq_none_iff _ l).2 fun hmem => hnew ((canonicalFields_keys ps).subset hmem)
      by_cases hv : v.isNull <;> simp [hv, Table.get?, hnone, Option.filter]
    · by_cases hv : v.isNull <;> simp [hv, Table.get?, hl, ih hd]

/-- Where keys are distinct, their order does not matter. -/
theorem get?_of_perm {ps qs : List (String × Json)} (h : ps.Perm qs) (hd : (qs.map (·.1)).Nodup)
    (k : String) : Table.get? ps k = Table.get? qs k := by
  have hd' : (ps.map (·.1)).Nodup := (h.map (·.1)).nodup_iff.2 hd
  cases hq : Table.get? qs k with
  | some v => exact Table.get?_of_mem hd' (h.mem_iff.2 (Table.mem_of_get? hq))
  | none =>
    rw [Table.get?_eq_none_iff] at hq ⊢
    exact fun hmem => hq ((h.map (·.1)).mem_iff.1 hmem)

/-- What a canonical object has under a key. -/
theorem get?_canonical {ps : List (String × Json)} (hd : (ps.map (·.1)).Nodup) (k : String) :
    (canonical (.obj ps)).get? k =
      (((Json.obj ps).get? k).filter fun v => !v.isNull).map canonical := by
  have hd' : ((canonicalFields ps).map (·.1)).Nodup := (canonicalFields_keys ps).nodup hd
  have hget := get?_of_perm (sortFields_perm (canonicalFields ps)) hd' k
  rw [canonical]
  exact hget.trans (get?_canonicalFields hd k)

end NodeRpc.Json
