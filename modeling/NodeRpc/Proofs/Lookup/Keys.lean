import NodeRpc.Lookup.Inquiry
import NodeRpc.Proofs.Lookup.Identity

/-!
# Different entities have different keys

Lookups have the same key only if they ask for the same kind of entity, with the same identity and
the same options.
-/

namespace NodeRpc

/-! ### Records of optional fields -/

namespace Json

/-- The fields of a record that are set. -/
def givens (fields : List (String × Option Json)) : List (String × Json) :=
  fields.flatMap fun f => given f.1 f.2

theorem keys_givens (fields : List (String × Option Json)) :
    ((givens fields).map (·.1)).Sublist (fields.map (·.1)) := by
  induction fields with
  | nil => exact .slnil
  | cons f fields ih =>
    obtain ⟨k, v⟩ := f
    cases v with
    | none => exact ih.cons k
    | some v => exact ih.cons_cons k

theorem get?_givens {fields : List (String × Option Json)} (hd : (fields.map (·.1)).Nodup)
    {k : String} {v : Option Json} (h : (k, v) ∈ fields) : Table.get? (givens fields) k = v := by
  induction fields with
  | nil => simp at h
  | cons f fields ih =>
    obtain ⟨l, w⟩ := f
    obtain ⟨hnew, hd⟩ := List.nodup_cons.1 hd
    have hgivens : givens ((l, w) :: fields) = given l w ++ givens fields := rfl
    rw [hgivens, Table.get?_append]
    rcases List.mem_cons.1 h with heq | h
    · obtain ⟨rfl, rfl⟩ := Prod.mk.inj heq
      have hnone : Table.get? (givens fields) k = none :=
        (Table.get?_eq_none_iff _ k).2 fun hmem => hnew ((keys_givens fields).subset hmem)
      rw [hnone]
      cases v <;> simp [given, Table.get?]
    · have hne : l ≠ k := by
        rintro rfl
        exact hnew (List.mem_map_of_mem (f := (·.1)) h)
      rw [ih hd h]
      cases w <;> simp [given, Table.get?, hne]

/-- An optional field can be told from the canonical form of the record, if values can be told from
their own canonical forms. -/
theorem givens_inj {α : Type} {write : α → Json} (hnull : ∀ a, (write a).isNull = false)
    (hinj : ∀ a b, (write a).canonical = (write b).canonical → a = b)
    {fields fields' : List (String × Option Json)} (hd : (fields.map (·.1)).Nodup)
    (hd' : (fields'.map (·.1)).Nodup)
    (h : canonical (.obj (givens fields)) = canonical (.obj (givens fields'))) {k : String}
    {a b : Option α} (ha : (k, a.map write) ∈ fields) (hb : (k, b.map write) ∈ fields') : a = b := by
  have hget := congrArg (fun v : Json => v.get? k) h
  rw [get?_canonical ((keys_givens fields).nodup hd), get?_canonical ((keys_givens fields').nodup hd'),
    show (Json.obj (givens fields)).get? k = a.map write from get?_givens hd ha,
    show (Json.obj (givens fields')).get? k = b.map write from get?_givens hd' hb] at hget
  cases a with
  | none =>
    cases b with
    | none => rfl
    | some b => simp [Option.filter, hnull] at hget
  | some a =>
    cases b with
    | none => simp [Option.filter, hnull] at hget
    | some b => rw [hinj a b (by simpa [Option.filter, hnull] using hget)]

end Json

/-! ### Options -/

theorem Commitment.toJson_inj (c d : Commitment) (h : c.toJson.canonical = d.toJson.canonical) :
    c = d := by
  cases c <;> cases d <;> simp [toJson, Json.canonical, name] at h ⊢

theorem Encoding.toJson_inj (c d : Encoding) (h : c.toJson.canonical = d.toJson.canonical) :
    c = d := by
  cases c <;> cases d <;> simp [toJson, Json.canonical, name] at h ⊢

theorem Json.ofNat_inj (m n : Nat) (h : (Json.ofNat m).canonical = (Json.ofNat n).canonical) :
    m = n := by
  simp only [ofNat, canonical, int.injEq] at h
  exact Int.ofNat.inj h

theorem Json.str_inj (s t : String) (h : (Json.str s).canonical = (Json.str t).canonical) :
    s = t := by
  simpa [canonical] using h

theorem Json.bool_inj (a b : Bool) (h : (Json.bool a).canonical = (Json.bool b).canonical) :
    a = b := by
  simpa [canonical] using h

theorem DataSlice.toJson_inj (s t : DataSlice) (h : s.toJson.canonical = t.toJson.canonical) :
    s = t := by
  have hgivens : ∀ u : DataSlice, u.toJson =
      .obj (Json.givens [("offset", (some u.offset).map .ofNat),
        ("length", (some u.length).map .ofNat)]) := fun _ => rfl
  rw [hgivens s, hgivens t] at h
  have hoffset : some s.offset = some t.offset :=
    Json.givens_inj (fun _ => rfl) Json.ofNat_inj (by simp) (by simp) h (k := "offset")
      (by simp) (by simp)
  have hlength : some s.length = some t.length :=
    Json.givens_inj (fun _ => rfl) Json.ofNat_inj (by simp) (by simp) h (k := "length")
      (by simp) (by simp)
  cases s
  cases t
  simp_all

namespace AccountOptions

/-- The options as a record. -/
def record (o : AccountOptions) : List (String × Option Json) :=
  [("commitment", o.commitment.map Commitment.toJson), ("encoding", o.encoding.map Encoding.toJson),
    ("dataSlice", o.dataSlice.map DataSlice.toJson), ("minContextSlot", o.minContextSlot.map .ofNat)]

theorem toJson_eq (o : AccountOptions) : o.toJson = .obj (Json.givens o.record) := by
  simp [toJson, Json.givens, record]

theorem toJson_inj {o p : AccountOptions} (h : o.toJson.canonical = p.toJson.canonical) : o = p := by
  have hd : ∀ q : AccountOptions, (q.record.map (·.1)).Nodup := fun q => by
    simp [record]
  rw [toJson_eq, toJson_eq] at h
  have hcommitment : o.commitment = p.commitment :=
    Json.givens_inj (fun _ => rfl) Commitment.toJson_inj (hd o) (hd p) h (k := "commitment")
      (by simp [record]) (by simp [record])
  have hencoding : o.encoding = p.encoding :=
    Json.givens_inj (fun _ => rfl) Encoding.toJson_inj (hd o) (hd p) h (k := "encoding")
      (by simp [record]) (by simp [record])
  have hslice : o.dataSlice = p.dataSlice :=
    Json.givens_inj (fun _ => rfl) DataSlice.toJson_inj (hd o) (hd p) h (k := "dataSlice")
      (by simp [record]) (by simp [record])
  have hslot : o.minContextSlot = p.minContextSlot :=
    Json.givens_inj (fun _ => rfl) Json.ofNat_inj (hd o) (hd p) h (k := "minContextSlot")
      (by simp [record]) (by simp [record])
  cases o
  cases p
  simp_all

end AccountOptions

namespace TransactionOptions

/-- The options as a record. -/
def record (o : TransactionOptions) : List (String × Option Json) :=
  [("commitment", o.commitment.map Commitment.toJson), ("encoding", o.encoding.map Encoding.toJson),
    ("maxSupportedTransactionVersion", o.maxSupportedVersion.map .ofNat)]

theorem toJson_eq (o : TransactionOptions) : o.toJson = .obj (Json.givens o.record) := by
  simp [toJson, Json.givens, record]

theorem toJson_inj {o p : TransactionOptions} (h : o.toJson.canonical = p.toJson.canonical) :
    o = p := by
  have hd : ∀ q : TransactionOptions, (q.record.map (·.1)).Nodup := fun q => by
    simp [record]
  rw [toJson_eq, toJson_eq] at h
  have hcommitment : o.commitment = p.commitment :=
    Json.givens_inj (fun _ => rfl) Commitment.toJson_inj (hd o) (hd p) h (k := "commitment")
      (by simp [record]) (by simp [record])
  have hencoding : o.encoding = p.encoding :=
    Json.givens_inj (fun _ => rfl) Encoding.toJson_inj (hd o) (hd p) h (k := "encoding")
      (by simp [record]) (by simp [record])
  have hversion : o.maxSupportedVersion = p.maxSupportedVersion :=
    Json.givens_inj (fun _ => rfl) Json.ofNat_inj (hd o) (hd p) h
      (k := "maxSupportedTransactionVersion") (by simp [record]) (by simp [record])
  cases o
  cases p
  simp_all

end TransactionOptions

namespace BlockOptions

/-- The options as a record. -/
def record (o : BlockOptions) : List (String × Option Json) :=
  [("commitment", o.commitment.map Commitment.toJson), ("encoding", o.encoding.map Encoding.toJson),
    ("transactionDetails", o.transactionDetails.map .str), ("rewards", o.rewards.map .bool),
    ("maxSupportedTransactionVersion", o.maxSupportedVersion.map .ofNat)]

theorem toJson_eq (o : BlockOptions) : o.toJson = .obj (Json.givens o.record) := by
  simp [toJson, Json.givens, record]

theorem toJson_inj {o p : BlockOptions} (h : o.toJson.canonical = p.toJson.canonical) : o = p := by
  have hd : ∀ q : BlockOptions, (q.record.map (·.1)).Nodup := fun q => by
    simp [record]
  rw [toJson_eq, toJson_eq] at h
  have hcommitment : o.commitment = p.commitment :=
    Json.givens_inj (fun _ => rfl) Commitment.toJson_inj (hd o) (hd p) h (k := "commitment")
      (by simp [record]) (by simp [record])
  have hencoding : o.encoding = p.encoding :=
    Json.givens_inj (fun _ => rfl) Encoding.toJson_inj (hd o) (hd p) h (k := "encoding")
      (by simp [record]) (by simp [record])
  have hdetails : o.transactionDetails = p.transactionDetails :=
    Json.givens_inj (fun _ => rfl) Json.str_inj (hd o) (hd p) h (k := "transactionDetails")
      (by simp [record]) (by simp [record])
  have hrewards : o.rewards = p.rewards :=
    Json.givens_inj (fun _ => rfl) Json.bool_inj (hd o) (hd p) h (k := "rewards")
      (by simp [record]) (by simp [record])
  have hversion : o.maxSupportedVersion = p.maxSupportedVersion :=
    Json.givens_inj (fun _ => rfl) Json.ofNat_inj (hd o) (hd p) h
      (k := "maxSupportedTransactionVersion") (by simp [record]) (by simp [record])
  cases o
  cases p
  simp_all

end BlockOptions

/-! ### Entities -/

namespace Entity

/-- Calls with an identity and options have the same key only if all three are the same. -/
theorem of_make_eq {m n : String} {i j o p : Json}
    (h : LookupKey.make m (.arr [i, o]) = LookupKey.make n (.arr [j, p])) :
    m = n ∧ i.canonical = j.canonical ∧ o.canonical = p.canonical := by
  obtain ⟨hmethod, hcanonical⟩ := LookupKey.make_eq_iff.1 h
  simp only [Json.canonical, Json.canonicalItems, Json.arr.injEq, List.cons.injEq,
    and_true] at hcanonical
  exact ⟨hmethod, hcanonical⟩

/-- Different entities, or the same one with different options, have different keys. -/
theorem key_inj {e f : Entity} (h : e.key = f.key) : e = f := by
  cases e <;> cases f <;> obtain ⟨hmethod, hid, hoptions⟩ := of_make_eq h
  case account.account k l =>
    cases k
    cases l
    obtain rfl := Json.str_inj _ _ hid
    obtain rfl := AccountOptions.toJson_inj hoptions
    rfl
  case transaction.transaction k l =>
    cases k
    cases l
    obtain rfl := Json.str_inj _ _ hid
    obtain rfl := TransactionOptions.toJson_inj hoptions
    rfl
  case block.block =>
    obtain rfl := Json.ofNat_inj _ _ hid
    obtain rfl := BlockOptions.toJson_inj hoptions
    rfl
  -- the methods of different kinds differ
  all_goals simp at hmethod

/-- Different accounts, or the same one with different options, have different keys. -/
theorem account_key_inj {k l : AccountKey} (h : (account k).key = (account l).key) : k = l :=
  account.inj (key_inj h)

end Entity

end NodeRpc
