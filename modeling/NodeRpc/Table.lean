/-!
# Tables in insertion order

A table is a list of key and value pairs. Looking up takes the first pair of a key; putting a key
that is present replaces its value in place, so the order of first insertion is kept. The lemmas
say what each operation does to `get?`.
-/

namespace NodeRpc

/-- What stands where in a list that has grown by one. -/
theorem getElem?_concat {α : Type} (xs : List α) (x : α) (k : Nat) :
    (xs ++ [x])[k]? = if k = xs.length then some x else xs[k]? := by
  rcases Nat.lt_trichotomy k xs.length with h | rfl | h
  · rw [List.getElem?_append_left h, if_neg (by omega)]
  · simp
  · rw [if_neg (by omega), List.getElem?_eq_none (by simp; omega), List.getElem?_eq_none (by omega)]

/-- What is in a list stays where it is when the list grows. -/
theorem getElem?_append_of_some {α : Type} {xs : List α} {k : Nat} {x : α} (h : xs[k]? = some x)
    (ys : List α) : (xs ++ ys)[k]? = some x := by
  rw [List.getElem?_append_left (List.getElem?_eq_some_iff.1 h).1, h]

/-- What a change at one place leaves alone. -/
theorem map_modify_of_eq {α β : Type} {f : α → β} {g : α → α} (h : ∀ x, f (g x) = f x) (n : Nat)
    (xs : List α) : (xs.modify n g).map f = xs.map f := by
  refine List.ext_getElem? fun m => ?_
  rw [List.getElem?_map, List.getElem?_map, List.getElem?_modify]
  cases xs[m]? with
  | none => rfl
  | some x => by_cases hm : n = m <;> simp [hm, h]

/-- A new key may be put at the end of a list of pairs. -/
theorem nodup_fst_concat {α β : Type} {entries : List (α × β)} (h : (entries.map Prod.fst).Nodup)
    {key : α} (hnew : key ∉ entries.map Prod.fst) (value : β) :
    ((entries ++ [(key, value)]).map Prod.fst).Nodup := by
  rw [List.map_append, List.map_singleton, List.nodup_append]
  refine ⟨h, by simp, ?_⟩
  rintro k hk k' hk' rfl
  obtain rfl : k = key := List.mem_singleton.1 hk'
  exact hnew hk

/-- Key and value pairs in the order of first insertion. -/
abbrev Table (κ ν : Type) := List (κ × ν)

namespace Table

variable {κ ν : Type} [DecidableEq κ]

/-- The value of the first pair with key `k`. -/
def get? : Table κ ν → κ → Option ν
  | [], _ => none
  | (k', v) :: t, k => if k' = k then some v else get? t k

/-- Whether some pair has key `k`. -/
def has (t : Table κ ν) (k : κ) : Bool := (t.get? k).isSome

/-- Sets the value of `k`: in place if `k` is present, at the end otherwise. -/
def put : Table κ ν → κ → ν → Table κ ν
  | [], k, v => [(k, v)]
  | (k', v') :: t, k, v => if k' = k then (k, v) :: t else (k', v') :: put t k v

/-- Removes every pair with key `k`. -/
def erase (t : Table κ ν) (k : κ) : Table κ ν := t.filter fun p => p.1 ≠ k

/-- Applies `f` to the values of `k`. -/
def update (t : Table κ ν) (k : κ) (f : ν → ν) : Table κ ν :=
  t.map fun p => if p.1 = k then (p.1, f p.2) else p

/-- The keys, in order. -/
def keys (t : Table κ ν) : List κ := t.map (·.1)

theorem get?_put (t : Table κ ν) (k k' : κ) (v : ν) :
    (t.put k v).get? k' = if k = k' then some v else t.get? k' := by
  induction t with
  | nil => simp [put, get?]
  | cons p t ih =>
    obtain ⟨a, b⟩ := p
    by_cases ha : a = k <;> by_cases hk : k = k' <;> by_cases hak : a = k' <;>
      simp_all [put, get?]

theorem get?_erase (t : Table κ ν) (k k' : κ) :
    (t.erase k).get? k' = if k = k' then none else t.get? k' := by
  induction t with
  | nil => simp [erase, get?]
  | cons p t ih =>
    obtain ⟨a, b⟩ := p
    simp only [erase] at ih
    by_cases ha : a = k <;> by_cases hk : k = k' <;> by_cases hak : a = k' <;>
      simp_all [erase, get?]

theorem get?_update (t : Table κ ν) (k k' : κ) (f : ν → ν) :
    (t.update k f).get? k' = if k = k' then (t.get? k').map f else t.get? k' := by
  induction t with
  | nil => simp [update, get?]
  | cons p t ih =>
    obtain ⟨a, b⟩ := p
    simp only [update] at ih
    by_cases ha : a = k <;> by_cases hk : k = k' <;> by_cases hak : a = k' <;>
      simp_all [update, get?]

theorem mem_of_get? {t : Table κ ν} {k : κ} {v : ν} (h : t.get? k = some v) : (k, v) ∈ t := by
  induction t with
  | nil => simp [get?] at h
  | cons p t ih =>
    obtain ⟨a, b⟩ := p
    by_cases ha : a = k <;> simp_all [get?]

omit [DecidableEq κ] in
@[simp] theorem keys_nil : keys ([] : Table κ ν) = [] := rfl

omit [DecidableEq κ] in
@[simp] theorem keys_cons (p : κ × ν) (t : Table κ ν) : keys (p :: t) = p.1 :: keys t := rfl

theorem get?_append (t u : Table κ ν) (k : κ) :
    get? (t ++ u) k = (t.get? k).or (u.get? k) := by
  induction t with
  | nil => simp [get?]
  | cons p t ih =>
    obtain ⟨a, b⟩ := p
    by_cases ha : a = k <;> simp_all [get?]

theorem get?_eq_none_iff (t : Table κ ν) (k : κ) : t.get? k = none ↔ k ∉ t.keys := by
  induction t with
  | nil => simp [get?]
  | cons p t ih =>
    obtain ⟨a, b⟩ := p
    by_cases ha : a = k
    · simp [get?, ha]
    · have hk : k ≠ a := fun h => ha h.symm
      simpa [get?, ha, hk] using ih

theorem eq_nil_of_get? {t : Table κ ν} (h : ∀ k, t.get? k = none) : t = [] := by
  cases t with
  | nil => rfl
  | cons p t => simpa [get?] using h p.1

theorem has_iff_mem_keys (t : Table κ ν) (k : κ) : t.has k = true ↔ k ∈ t.keys := by
  have h := t.get?_eq_none_iff k
  cases hk : t.get? k with
  | none => simpa [has, hk] using h.1 hk
  | some v =>
    have : k ∈ t.keys := Classical.byContradiction fun hn => by simp [h.2 hn] at hk
    simp [has, hk, this]

/-- Filtering by the key keeps or loses all that is known of a key. -/
theorem get?_filter_key (t : Table κ ν) (keep : κ → Bool) (k : κ) :
    get? (t.filter fun p => keep p.1) k = if keep k then t.get? k else none := by
  induction t with
  | nil => simp [get?]
  | cons p t ih =>
    obtain ⟨a, b⟩ := p
    by_cases ha : a = k <;> cases hb : keep a <;> simp_all [get?]

/-- Where keys are distinct, what is in the table is what is found. -/
theorem get?_of_mem {t : Table κ ν} (hd : t.keys.Nodup) {k : κ} {v : ν} (h : (k, v) ∈ t) :
    t.get? k = some v := by
  induction t with
  | nil => simp at h
  | cons p t ih =>
    obtain ⟨a, b⟩ := p
    simp only [keys_cons, List.nodup_cons] at hd
    rcases List.mem_cons.1 h with heq | hmem
    · obtain ⟨rfl, rfl⟩ := Prod.mk.inj heq
      simp [get?]
    · have hne : a ≠ k := by
        rintro rfl
        exact hd.1 (List.mem_map_of_mem (f := (·.1)) hmem)
      simpa [get?, hne] using ih hd.2 hmem

/-- A table of one value for all its keys. -/
theorem get?_map_const (ks : List κ) (f : κ → ν) (k : κ) :
    get? (ks.map fun k => (k, f k)) k = if k ∈ ks then some (f k) else none := by
  induction ks with
  | nil => simp [get?]
  | cons a ks ih =>
    by_cases ha : a = k
    · simp [get?, ha]
    · have hk : k ≠ a := fun h => ha h.symm
      simpa [get?, ha, hk] using ih

end Table

end NodeRpc
