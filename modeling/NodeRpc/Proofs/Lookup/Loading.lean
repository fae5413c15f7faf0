import Mathlib.Data.List.Forall2
import Mathlib.Data.List.Nodup
import NodeRpc.Lookup.Loaders

/-!
# What the loading of accounts asks and brings

Accounts are asked for by one call for each of the options that they come with, each account in one
of the calls. If the node answers every call with what it has at the addresses asked for, every
account comes to what the node has of it, in the order of the keys.
-/

namespace NodeRpc

/-! ### Nodes that keep to a record of accounts -/

/-- The call for several accounts. -/
def accountsCall (addresses : List String) (o : AccountOptions) : Call :=
  ⟨"getMultipleAccounts", .arr [.arr (addresses.map .str), o.toJson]⟩

/-- A call for several accounts is answered with what `record` has of them; null stands for an
account that there is not. -/
def Call.Answered (record : AccountKey → Json) (call : Call) (outcome : Outcome) : Prop :=
  ∀ addresses o, call = accountsCall addresses o → ∃ fields slot,
    outcome = .ok (.obj fields) ∧
      (Table.get? fields "context").bind AtSlot.slotOf? = some slot ∧
      Table.get? fields "value" = some (.arr (addresses.map fun a => record ⟨a, o⟩))

/-- Every call that is made is answered so. -/
def Ask.Answered (record : AccountKey → Json) (a : Ask) (answer : Answer) : Prop :=
  ∀ calls, a = .calls calls → ∃ outcomes, answer = .ok outcomes ∧
    List.Forall₂ (Call.Answered record) calls outcomes

/-- What a lookup of an account finds where the node keeps to `record`. -/
def foundBy (record : AccountKey → Json) (k : AccountKey) : Json :=
  (record k).set "address" (.str k.address)

/-! ### Groups -/

theorem nodup_eraseDups {α : Type} [DecidableEq α] : ∀ xs : List α, xs.eraseDups.Nodup
  | [] => by simp
  | x :: xs => by
    rw [List.eraseDups_cons, List.nodup_cons, List.mem_eraseDups]
    exact ⟨by simp, nodup_eraseDups (xs.filter fun y => !y == x)⟩
termination_by xs => xs.length
decreasing_by
  have hlen := List.length_filter_le (fun y => !y == x) xs
  simp only [List.length_cons]
  omega

theorem mem_accountGroups {keys : List AccountKey} {g : AccountOptions × List AccountKey} :
    g ∈ accountGroups keys ↔ (∃ k ∈ keys, k.options = g.1) ∧
      g.2 = keys.filter fun k => k.options = g.1 := by
  obtain ⟨o, ks⟩ := g
  unfold accountGroups
  simp only [List.mem_map, List.mem_eraseDups, Prod.mk.injEq]
  constructor
  · rintro ⟨o', ho', rfl, rfl⟩
    exact ⟨ho', rfl⟩
  · rintro ⟨ho, hks⟩
    exact ⟨o, ho, rfl, hks.symm⟩

/-- Every key is in one of the groups. -/
theorem mem_flatMap_accountGroups (keys : List AccountKey) (k : AccountKey) :
    k ∈ (accountGroups keys).flatMap (·.2) ↔ k ∈ keys := by
  rw [List.mem_flatMap]
  constructor
  · rintro ⟨g, hg, hk⟩
    rw [(mem_accountGroups.1 hg).2] at hk
    exact List.mem_of_mem_filter hk
  · intro hk
    refine ⟨(k.options, keys.filter fun l => l.options = k.options), ?_, ?_⟩
    · exact mem_accountGroups.2 ⟨⟨k, hk, rfl⟩, rfl⟩
    · simp [hk]

/-- No key is in two of them. -/
theorem nodup_flatMap_accountGroups {keys : List AccountKey} (hd : keys.Nodup) :
    ((accountGroups keys).flatMap (·.2)).Nodup := by
  rw [List.nodup_flatMap]
  constructor
  · intro g hg
    rw [(mem_accountGroups.1 hg).2]
    exact hd.filter _
  · have hoptions := nodup_eraseDups (keys.map AccountKey.options)
    unfold accountGroups
    rw [List.pairwise_map]
    refine hoptions.imp fun {o p} hne k hk hk' => hne ?_
    have ho := (List.mem_filter.1 hk).2
    have hp := (List.mem_filter.1 hk').2
    simp only [decide_eq_true_eq] at ho hp
    exact ho.symm.trans hp

theorem length_accountGroups {keys : List AccountKey} {g : AccountOptions × List AccountKey}
    (hg : g ∈ accountGroups keys) : 1 ≤ g.2.length ∧ g.2.length ≤ keys.length := by
  obtain ⟨⟨k, hk, ho⟩, hfilter⟩ := mem_accountGroups.1 hg
  rw [hfilter]
  exact ⟨List.length_pos_of_mem (List.mem_filter.2 ⟨hk, by simpa using ho⟩),
    List.length_filter_le _ _⟩

/-! ### Results -/

/-- If each group has brought what `result` says of its keys, so has every key. -/
theorem dealResults_eq (result : AccountKey → KeyResult) (keys : List AccountKey)
    (groups : Table AccountOptions (List KeyResult))
    (h : ∀ o, (∃ k ∈ keys, k.options = o) →
      groups.get? o = some ((keys.filter fun k => k.options = o).map result)) :
    dealResults keys groups = keys.map result := by
  induction keys generalizing groups with
  | nil => rfl
  | cons k keys ih =>
    have hk := h k.options ⟨k, by simp, rfl⟩
    rw [List.filter_cons_of_pos (by simp), List.map_cons] at hk
    rw [dealResults, hk]
    dsimp only
    rw [ih, List.map_cons]
    rintro o ⟨l, hl, rfl⟩
    rw [Table.get?_put]
    split
    · next heq => rw [heq]
    · next hne =>
      rw [h l.options ⟨l, List.mem_cons_of_mem k hl, rfl⟩,
        List.filter_cons_of_neg (by simpa using hne)]

/-! ### Answers -/

/-- What is read of a list of values, some of them null. -/
theorem list?_nullable (vs : List Json) : Json.list? (Json.nullable some) (.arr vs) =
    some (vs.map fun v => if v.isNull then none else some v) := by
  have hone : ∀ v : Json,
      Json.nullable some v = some (if v.isNull then none else some v) := by
    intro v
    cases v <;> rfl
  unfold Json.list? Json.items?
  rw [Option.bind_some]
  induction vs with
  | nil => rfl
  | cons v vs ih => simp [List.mapM_cons, hone, ih]

/-- A client that changes nothing on the way asks for a group as it is. -/
theorem groupQuestion_call {c : Client} (hc : c.registry = {}) {o : AccountOptions}
    (ho : o.normalized c.commitment = o) (keys : List AccountKey) :
    (groupQuestion c (o, keys)).call = accountsCall (keys.map AccountKey.address) o := by
  simp [groupQuestion, Client.multipleAccounts, Client.ask, accountsCall, ho, hc]

/-- What is read of an object that has a slot and a list of values. -/
theorem groupQuestion_read {c : Client} (hc : c.registry = {})
    (g : AccountOptions × List AccountKey) {fields : List (String × Json)} {slot : Nat}
    {vs : List Json} (hslot : (Table.get? fields "context").bind AtSlot.slotOf? = some slot)
    (hvalue : Table.get? fields "value" = some (.arr vs)) :
    (groupQuestion c g).read (.ok (.obj fields)) =
      .ok ⟨slot, vs.map fun v => if v.isNull then none else some v⟩ := by
  have hresponse : c.registry.transformResponse "getMultipleAccounts" (.obj fields) =
      .obj fields := by rw [hc, Registry.transformResponse_empty]
  have hdecode : AtSlot.ofJson? (Json.required (Json.list? (Json.nullable some))) (.obj fields) =
      some ⟨slot, vs.map fun v => if v.isNull then none else some v⟩ := by
    simp [AtSlot.ofJson?, Json.members?, Json.required, hslot, hvalue, list?_nullable]
  unfold groupQuestion Client.multipleAccounts Client.ask
  simp only [Except.bind, hresponse, decodeAs, hdecode]

/-- What a group brings where the node keeps to its record. -/
theorem groupResults_of_answered {record : AccountKey → Json} {c : Client} (hc : c.registry = {})
    {o : AccountOptions} (ho : o.normalized c.commitment = o) {keys : List AccountKey}
    (hkeys : ∀ k ∈ keys, k.options = o) {outcome : Outcome}
    (h : (groupQuestion c (o, keys)).call.Answered record outcome) :
    groupResults keys ((groupQuestion c (o, keys)).read outcome) =
      keys.map fun k => .ok (foundBy record k) := by
  rw [groupQuestion_call hc ho] at h
  obtain ⟨fields, slot, rfl, hslot, hvalue⟩ := h _ _ rfl
  have hentity : ∀ (k : AccountKey) (v : Json),
      k.entity (if v.isNull then none else some v) = v.set "address" (.str k.address) := by
    intro k v
    cases v <;> rfl
  rw [groupQuestion_read hc (o, keys) hslot hvalue, groupResults, if_pos (by simp), List.map_map,
    List.map_map, List.zipWith_map_right, List.zipWith_self]
  refine List.map_congr_left fun k hk => ?_
  rw [Function.comp_apply, Function.comp_apply, hentity, ← hkeys k hk]
  rfl

/-! ### The dialogue -/

/-- What is asked to load accounts. -/
def accountsAsk (c : Client) (keys : List AccountKey) : Ask :=
  .calls ((accountGroups keys).map fun g => (groupQuestion c g).call)

/-- What accounts come to when that is answered. -/
def accountsRead (c : Client) (keys : List AccountKey) (answer : Answer) : BatchOutcome :=
  let groups := accountGroups keys
  let results := List.zipWith (fun g o => (g.1, groupResults g.2 ((groupQuestion c g).read o)))
    groups (answer.outcomes groups.length)
  .ok (dealResults keys results)

/-- Accounts are loaded by one question. -/
theorem loadAccounts_eq (c : Client) (keys : List AccountKey) :
    loadAccounts c keys =
      .ask (accountsAsk c keys) fun answer => .done (accountsRead c keys answer) := rfl

/-- Where the node keeps to its record, every account comes to what it has of it. -/
theorem accountsRead_of_answered {record : AccountKey → Json} {c : Client} (hc : c.registry = {})
    {keys : List AccountKey} (hkeys : ∀ k ∈ keys, k.options.normalized c.commitment = k.options)
    {answer : Answer} (h : (accountsAsk c keys).Answered record answer) :
    accountsRead c keys answer = .ok (keys.map fun k => .ok (foundBy record k)) := by
  obtain ⟨outcomes, rfl, hall⟩ := h _ rfl
  rw [List.forall₂_map_left_iff] at hall
  have hresults : ∀ (groups : List (AccountOptions × List AccountKey)) (outcomes : List Outcome),
      (∀ g ∈ groups, g ∈ accountGroups keys) →
      List.Forall₂ (fun g o => (groupQuestion c g).call.Answered record o) groups outcomes →
      List.zipWith (fun g o => (g.1, groupResults g.2 ((groupQuestion c g).read o)))
          groups outcomes =
        groups.map fun g => (g.1, g.2.map fun k => .ok (foundBy record k)) := by
    intro groups outcomes hgroups hall
    induction hall with
    | nil => rfl
    | @cons g o groups outcomes hg _ ih =>
      obtain ⟨⟨k, hk, ho⟩, hfilter⟩ := mem_accountGroups.1 (hgroups g (by simp))
      have hoptions : ∀ l ∈ g.2, l.options = g.1 := by
        intro l hl
        rw [hfilter] at hl
        exact of_decide_eq_true (List.mem_filter.1 hl).2
      have hone := groupResults_of_answered hc (o := g.1) (by rw [← ho, hkeys k hk]) hoptions hg
      rw [List.zipWith_cons_cons, List.map_cons, ih fun g' hg' => hgroups g' (by simp [hg']),
        hone]
  unfold accountsRead Answer.outcomes
  dsimp only
  rw [hresults _ _ (fun _ hg => hg) hall]
  refine congrArg Except.ok (dealResults_eq _ keys _ ?_)
  rintro o ⟨k, hk, rfl⟩
  have hgroup : ((accountGroups keys).map fun g =>
      (g.1, g.2.map fun k => (.ok (foundBy record k) : KeyResult))) =
      ((keys.map AccountKey.options).eraseDups.map fun o =>
        (o, (keys.filter fun k => k.options = o).map fun k => .ok (foundBy record k))) := by
    unfold accountGroups
    rw [List.map_map]
    rfl
  rw [hgroup, Table.get?_map_const, if_pos]
  exact List.mem_eraseDups.2 (List.mem_map_of_mem hk)

end NodeRpc
