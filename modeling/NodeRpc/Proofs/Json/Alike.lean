import Mathlib.Data.List.Nodup
import NodeRpc.Proofs.Json.Canonical

/-!
# Which values have the same canonical form

Two values are alike if they differ in the order of fields and in fields that are null, at any
depth, and in nothing else. That is said here field by field, without sorting; the values that are
alike are those that have the same canonical form.
-/

namespace NodeRpc

/-- Tables with distinct keys that have the same under every key have the same entries. -/
theorem Table.perm_of_get? {κ ν : Type} [DecidableEq κ] {t u : Table κ ν} (ht : t.keys.Nodup)
    (hu : u.keys.Nodup) (h : ∀ k, t.get? k = u.get? k) : t.Perm u := by
  refine (List.perm_ext_iff_of_nodup ht.of_map hu.of_map).2 fun p => ?_
  constructor
  · exact fun hp => mem_of_get? ((h p.1).symm.trans (get?_of_mem ht hp))
  · exact fun hp => mem_of_get? ((h p.1).trans (get?_of_mem hu hp))

namespace Json

/-- The field `k` of an object, unless it is null. -/
def given? (v : Json) (k : String) : Option Json := (v.get? k).filter fun w => !w.isNull

/-- Two values differ at most in the order of fields and in fields that are null. -/
inductive Alike : Json → Json → Prop where
  | null : Alike .null .null
  | bool (b : Bool) : Alike (.bool b) (.bool b)
  | int (n : Int) : Alike (.int n) (.int n)
  | float (x : Binary64) : Alike (.float x) (.float x)
  | str (s : String) : Alike (.str s) (.str s)
  | arr {vs ws : List Json} (hlen : vs.length = ws.length)
      (hitems : ∀ (i : Nat) (v w : Json), vs[i]? = some v → ws[i]? = some w → Alike v w) :
      Alike (.arr vs) (.arr ws)
  | obj {ps qs : List (String × Json)}
      (hkeys : ∀ k, (given? (.obj ps) k).isSome = (given? (.obj qs) k).isSome)
      (hfields : ∀ k v w, given? (.obj ps) k = some v → given? (.obj qs) k = some w → Alike v w) :
      Alike (.obj ps) (.obj qs)

/-! ### Members -/

theorem wellFormedItems_iff (vs : List Json) : WellFormedItems vs ↔ ∀ v ∈ vs, WellFormed v := by
  induction vs with
  | nil => simp [WellFormedItems]
  | cons v vs ih => simp [WellFormedItems, ih]

theorem wellFormedFields_iff (ps : List (String × Json)) :
    WellFormedFields ps ↔ ∀ p ∈ ps, WellFormed p.2 := by
  induction ps with
  | nil => simp [WellFormedFields]
  | cons p ps ih =>
    obtain ⟨k, v⟩ := p
    simp [WellFormedFields, ih]

theorem mem_of_given? {ps : List (String × Json)} {k : String} {v : Json}
    (h : given? (.obj ps) k = some v) : (k, v) ∈ ps :=
  Table.mem_of_get? (Option.filter_eq_some_iff.1 h).1

theorem WellFormed.of_given? {ps : List (String × Json)} (h : WellFormed (.obj ps)) {k : String}
    {v : Json} (hv : given? (.obj ps) k = some v) : WellFormed v := by
  rw [WellFormed] at h
  exact (wellFormedFields_iff ps).1 h.2 _ (mem_of_given? hv)

theorem WellFormed.of_item {vs : List Json} (h : WellFormed (.arr vs)) {i : Nat} {v : Json}
    (hv : vs[i]? = some v) : WellFormed v := by
  rw [WellFormed] at h
  exact (wellFormedItems_iff vs).1 h v (List.mem_of_getElem? hv)

theorem canonicalItems_eq (vs : List Json) : canonicalItems vs = vs.map canonical := by
  induction vs with
  | nil => rfl
  | cons v vs ih => rw [canonicalItems, ih, List.map_cons]

theorem WellFormed.get?_canonicalFields {ps : List (String × Json)} (h : WellFormed (.obj ps))
    (k : String) : Table.get? (canonicalFields ps) k = (given? (.obj ps) k).map canonical := by
  rw [WellFormed] at h
  exact Json.get?_canonicalFields h.1 k

/-- The canonical form of an object has the canonical forms of its fields. -/
theorem WellFormed.get?_canonical {ps : List (String × Json)} (h : WellFormed (.obj ps))
    (k : String) : (canonical (.obj ps)).get? k = (given? (.obj ps) k).map canonical := by
  rw [WellFormed] at h
  exact Json.get?_canonical h.1 k

/-! ### Values with one canonical form are alike -/

mutual

theorem alike_of_canonical : ∀ v w : Json, WellFormed v → WellFormed w →
    v.canonical = w.canonical → Alike v w
  | .null, w, _, _, h => by
    cases w <;> simp [canonical] at h
    exact .null
  | .bool b, w, _, _, h => by
    cases w <;> simp [canonical] at h
    exact h ▸ .bool b
  | .int n, w, _, _, h => by
    cases w <;> simp [canonical] at h
    exact h ▸ .int n
  | .float x, w, _, _, h => by
    cases w <;> simp [canonical] at h
    exact h ▸ .float x
  | .str s, w, _, _, h => by
    cases w <;> simp [canonical] at h
    exact h ▸ .str s
  | .arr vs, w, hv, hw, h => by
    cases w with
    | arr ws =>
      rw [canonical, canonical, arr.injEq, canonicalItems_eq, canonicalItems_eq] at h
      refine .arr (by simpa using congrArg List.length h) fun i a b ha hb => ?_
      have hi := congrArg (fun us : List Json => us[i]?) h
      simp only [List.getElem?_map, ha, hb, Option.map_some, Option.some.injEq] at hi
      exact alike_of_canonicalItems vs a (List.mem_of_getElem? ha) b (hv.of_item ha)
        (hw.of_item hb) hi
    | _ => simp [canonical] at h
  | .obj ps, w, hv, hw, h => by
    cases w with
    | obj qs =>
      have hget : ∀ k, (given? (.obj ps) k).map canonical = (given? (.obj qs) k).map canonical := by
        intro k
        rw [← hv.get?_canonical, ← hw.get?_canonical, h]
      refine .obj (fun k => ?_) fun k a b ha hb => ?_
      · simpa using congrArg Option.isSome (hget k)
      · have hk := hget k
        rw [ha, hb, Option.map_some, Option.map_some, Option.some.injEq] at hk
        exact alike_of_canonicalFields ps (k, a) (mem_of_given? ha) b (hv.of_given? ha)
          (hw.of_given? hb) hk
    | _ => simp [canonical] at h

theorem alike_of_canonicalItems : ∀ (vs : List Json), ∀ v ∈ vs, ∀ w : Json, WellFormed v →
    WellFormed w → v.canonical = w.canonical → Alike v w
  | u :: us, v, hmem, w, hv, hw, h => by
    rcases List.mem_cons.1 hmem with heq | hmem
    · rw [heq] at hv h ⊢
      exact alike_of_canonical u w hv hw h
    · exact alike_of_canonicalItems us v hmem w hv hw h

theorem alike_of_canonicalFields : ∀ (ps : List (String × Json)), ∀ p ∈ ps, ∀ w : Json,
    WellFormed p.2 → WellFormed w → p.2.canonical = w.canonical → Alike p.2 w
  | (k, u) :: ps, p, hmem, w, hv, hw, h => by
    rcases List.mem_cons.1 hmem with heq | hmem
    · rw [heq] at hv h ⊢
      exact alike_of_canonical u w hv hw h
    · exact alike_of_canonicalFields ps p hmem w hv hw h

end

/-! ### Values that are alike have one canonical form -/

/-- Where keys are distinct, sorting forgets the order. -/
theorem sortFields_congr {ps qs : List (String × Json)} (h : ps.Perm qs)
    (hd : (qs.map (·.1)).Nodup) : sortFields ps = sortFields qs := by
  have hsorted : ∀ rs : List (String × Json),
      (sortFields rs).Pairwise fun p q => decide (p.1 ≤ q.1) = true := by
    refine fun rs => List.pairwise_mergeSort (fun p q r hpq hqr => ?_) (fun p q => ?_) rs
    · exact decide_eq_true (String.le_trans (of_decide_eq_true hpq) (of_decide_eq_true hqr))
    · rw [Bool.or_eq_true, decide_eq_true_iff, decide_eq_true_iff]
      exact String.le_total p.1 q.1
  refine List.Perm.eq_of_pairwise (fun p q hp hq hpq hqp => ?_) (hsorted ps) (hsorted qs)
    ((sortFields_perm ps).trans (h.trans (sortFields_perm qs).symm))
  exact List.inj_on_of_nodup_map hd (h.mem_iff.1 ((sortFields_perm ps).mem_iff.1 hp))
    ((sortFields_perm qs).mem_iff.1 hq)
    (String.le_antisymm (of_decide_eq_true hpq) (of_decide_eq_true hqp))

theorem canonical_of_alike {v w : Json} (h : Alike v w) (hv : WellFormed v) (hw : WellFormed w) :
    v.canonical = w.canonical := by
  induction h with
  | @arr vs ws hlen _ ih =>
    rw [canonical, canonical, canonicalItems_eq, canonicalItems_eq]
    refine congrArg Json.arr (List.ext_getElem? fun i => ?_)
    rw [List.getElem?_map, List.getElem?_map]
    cases ha : vs[i]? with
    | none =>
      rw [List.getElem?_eq_none (hlen ▸ List.getElem?_eq_none_iff.1 ha)]
    | some a =>
      have hlt : i < ws.length := hlen ▸ (List.getElem?_eq_some_iff.1 ha).1
      have hb := List.getElem?_eq_getElem hlt
      rw [hb, Option.map_some, Option.map_some, ih i a _ ha hb (hv.of_item ha) (hw.of_item hb)]
  | @obj ps qs hkeys _ ih =>
    have hget : ∀ k, Table.get? (canonicalFields ps) k = Table.get? (canonicalFields qs) k := by
      intro k
      rw [hv.get?_canonicalFields, hw.get?_canonicalFields]
      have hk := hkeys k
      cases ha : given? (.obj ps) k with
      | none =>
        rw [ha, Option.isSome_none, eq_comm, Option.isSome_eq_false_iff,
          Option.isNone_iff_eq_none] at hk
        rw [hk]
      | some a =>
        rw [ha, Option.isSome_some, eq_comm, Option.isSome_iff_exists] at hk
        obtain ⟨b, hb⟩ := hk
        rw [hb, Option.map_some, Option.map_some,
          ih k a b ha hb (hv.of_given? ha) (hw.of_given? hb)]
    rw [WellFormed] at hv hw
    have hd : ((canonicalFields ps).map (·.1)).Nodup := (canonicalFields_keys ps).nodup hv.1
    have hd' : ((canonicalFields qs).map (·.1)).Nodup := (canonicalFields_keys qs).nodup hw.1
    rw [canonical, canonical, sortFields_congr (Table.perm_of_get? hd hd' hget) hd']
  | _ => rfl

/-- The values that are alike are those with the same canonical form. -/
theorem canonical_eq_iff {v w : Json} (hv : WellFormed v) (hw : WellFormed w) :
    v.canonical = w.canonical ↔ Alike v w :=
  ⟨alike_of_canonical v w hv hw, fun h => canonical_of_alike h hv hw⟩

end Json

end NodeRpc
