import Mathlib.Data.List.Induction
import NodeRpc.Proofs.Calls.Answers
import NodeRpc.Proofs.Calls.Reservations

/-!
# Pending calls belong to exchanges

What holds of the calls of a connection at all times: the ids of exchanges are spent, no id belongs
to two of them or is reserved, and every pending call is an unanswered call of an exchange that
still waits. `Valid` says so; `valid_apply` shows that an event keeps it, and `valid_after` that it
holds after any events.
-/

namespace NodeRpc

namespace Exchange

/-- Whether the exchange has taken its ids and waits for answers. -/
def isUnderWay (x : Exchange) : Bool :=
  match x.stage with
  | .writing _ | .waiting => true
  | _ => false

/-- What holds of an exchange at all times. -/
structure Valid (x : Exchange) : Prop where
  idsNodup : x.ids.Nodup
  /-- An exchange has its ids from its first turn on. -/
  untaken : x.stage = .fresh → x.ids = [] ∧ x.answers = []
  idsLength : x.stage ≠ .fresh → x.stage ≠ .abandoned → x.ids.length = x.calls.length
  /-- A result that is no failure is what the answers came to. -/
  collected : ∀ outcomes, x.stage = .finished (.ok outcomes) → x.collected? = some outcomes

end Exchange

namespace Calls

/-- What holds of the calls of a connection at all times. -/
structure Valid (c : Calls) : Prop where
  keysNodup : c.pending.keys.Nodup
  exchange : ∀ (k : Nat) (x : Exchange), c.exchanges[k]? = some x → x.Valid
  idsSpent : ∀ (k : Nat) (x : Exchange), c.exchanges[k]? = some x → ∀ i ∈ x.ids, c.Spent i
  /-- No id belongs to two exchanges. -/
  apart : ∀ (k k' : Nat) (x x' : Exchange) (i : Nat), c.exchanges[k]? = some x →
    c.exchanges[k']? = some x' → i ∈ x.ids → i ∈ x'.ids → k = k'
  /-- A pending call is an unanswered call of an exchange under way. -/
  owned : ∀ (i : Nat) (entry : Entry), c.pending.get? i = some entry →
    ∃ x, c.exchanges[entry.exchange]? = some x ∧ x.isUnderWay = true ∧ i ∈ x.ids ∧
      x.answers.get? i = none ∧ entry.batch.isSome = x.batched
  reserves : c.Reserves

theorem valid_empty : Valid {} where
  keysNodup := by simp
  exchange k x h := by simp at h
  idsSpent k x h := by simp at h
  apart k k' x x' i h := by simp at h
  owned i entry h := by simp [Table.get?] at h
  reserves := reserves_empty

theorem Valid.spent_of_pending {c : Calls} (hv : c.Valid) {i : Nat} {entry : Entry}
    (h : c.pending.get? i = some entry) : c.Spent i := by
  obtain ⟨x, hx, _, hi, _⟩ := hv.owned i entry h
  exact hv.idsSpent _ x hx i hi

/-- What holds of the calls hangs on the table, the exchanges and the ids that have been taken. -/
theorem Valid.congr {c c' : Calls} (hv : c.Valid) (hpending : c'.pending = c.pending)
    (hexchanges : c'.exchanges = c.exchanges) (hnext : c'.nextId = c.nextId)
    (hreserved : c'.reserved = c.reserved) : c'.Valid where
  keysNodup := hpending ▸ hv.keysNodup
  exchange k x hx := hv.exchange k x (hexchanges ▸ hx)
  idsSpent k x hx i hi :=
    (spent_congr hreserved hnext).2 (hv.idsSpent k x (hexchanges ▸ hx) i hi)
  apart k k' x x' i hx hx' := hv.apart k k' x x' i (hexchanges ▸ hx) (hexchanges ▸ hx')
  owned i entry hp := by
    rw [hexchanges]
    exact hv.owned i entry (hpending ▸ hp)
  reserves := hv.reserves.congr hreserved hnext fun k => by rw [hexchanges]

/-! ### Replacing an exchange -/

theorem getElem?_setExchange {c : Calls} {k : Nat} {x : Exchange} (hx : c.exchanges[k]? = some x)
    (y : Exchange) (j : Nat) :
    (c.setExchange k y).exchanges[j]? = if k = j then some y else c.exchanges[j]? := by
  have hk : k < c.exchanges.length := (List.getElem?_eq_some_iff.1 hx).1
  unfold setExchange
  simp only [List.getElem?_set]
  split <;> simp_all

/-- A replacement that makes the same calls leaves the calls of every exchange. -/
theorem calls_setExchange {c : Calls} {k : Nat} {x y : Exchange} (hx : c.exchanges[k]? = some x)
    (hcalls : y.calls = x.calls) (j : Nat) : ((c.setExchange k y).exchanges[j]?).map Exchange.calls =
      (c.exchanges[j]?).map Exchange.calls := by
  rw [getElem?_setExchange hx]
  split
  · next h => rw [← h, hx, Option.map_some, Option.map_some, hcalls]
  · rfl

/-- Exchange `k` may become `y`, with the same calls and ids, if what is still pending of it is
still unanswered. -/
theorem Valid.replace {c : Calls} (hv : c.Valid) {k : Nat} {x y : Exchange}
    (hx : c.exchanges[k]? = some x) (hy : y.Valid) (hcalls : y.calls = x.calls)
    (hids : y.ids = x.ids) {pending : Table Nat Entry} (hnodup : pending.keys.Nodup)
    (hpending : ∀ i entry, pending.get? i = some entry → c.pending.get? i = some entry ∧
      (entry.exchange = k →
        y.isUnderWay = true ∧ y.answers.get? i = none ∧ entry.batch.isSome = y.batched)) :
    ({ c with pending }.setExchange k y).Valid := by
  have hget : ∀ j, ({ c with pending }.setExchange k y).exchanges[j]? =
      if k = j then some y else c.exchanges[j]? :=
    getElem?_setExchange (c := { c with pending }) hx y
  -- the ids of every exchange are what they were
  have hback : ∀ j z, ({ c with pending }.setExchange k y).exchanges[j]? = some z →
      ∃ z', c.exchanges[j]? = some z' ∧ z.ids = z'.ids ∧ (k = j ∧ z = y ∨ z = z') := by
    intro j z hz
    rw [hget] at hz
    split at hz
    · next h =>
      obtain rfl := Option.some.inj hz
      exact ⟨x, h ▸ hx, hids, .inl ⟨h, rfl⟩⟩
    · exact ⟨z, hz, rfl, .inr rfl⟩
  refine {
    keysNodup := hnodup
    exchange := ?exchange
    idsSpent := ?idsSpent
    apart := ?apart
    owned := ?owned
    reserves :=
      hv.reserves.congr rfl rfl (calls_setExchange (c := { c with pending }) hx hcalls) }
  case exchange =>
    intro j z hz
    obtain ⟨z', hz', _, ⟨_, rfl⟩ | rfl⟩ := hback j z hz
    · exact hy
    · exact hv.exchange j z hz'
  case idsSpent =>
    intro j z hz i hi
    obtain ⟨z', hz', he, _⟩ := hback j z hz
    exact hv.idsSpent j z' hz' i (he ▸ hi)
  case apart =>
    intro j j' z z' i hz hz' hi hi'
    obtain ⟨w, hw, he, _⟩ := hback j z hz
    obtain ⟨w', hw', he', _⟩ := hback j' z' hz'
    exact hv.apart j j' w w' i hw hw' (he ▸ hi) (he' ▸ hi')
  case owned =>
    intro i entry hp
    obtain ⟨hold, hnew⟩ := hpending i entry hp
    obtain ⟨z, hz, hw, hi, ha, hb⟩ := hv.owned i entry hold
    by_cases hk : entry.exchange = k
    · obtain ⟨hw', ha', hb'⟩ := hnew hk
      have hxz : z = x := by rw [hk, hx] at hz; exact (Option.some.inj hz).symm
      exact ⟨y, by rw [hget, if_pos hk.symm], hw', by rw [hids, ← hxz]; exact hi, ha', hb'⟩
    · exact ⟨z, by rw [hget, if_neg (Ne.symm hk)]; exact hz, hw, hi, ha, hb⟩

theorem pending_forget (c : Calls) (ids : List Nat) (i : Nat) :
    (c.forget ids).pending.get? i = if i ∈ ids then none else c.pending.get? i := by
  have h := Table.get?_filter_key c.pending (fun i => !ids.contains i) i
  unfold forget
  rw [h]
  by_cases hi : i ∈ ids <;> simp [hi]

theorem keys_filter_nodup {t : Table Nat Entry} (h : t.keys.Nodup) (f : Nat × Entry → Bool) :
    Table.keys (t.filter f) |>.Nodup :=
  h.sublist (List.filter_sublist.map _)

/-- An exchange under way may go on to another stage under way. -/
theorem Valid.setStage {c : Calls} (hv : c.Valid) {k : Nat} {x : Exchange}
    (hx : c.exchanges[k]? = some x) (hw : x.isUnderWay = true) {stage : Stage}
    (hs : ({ x with stage } : Exchange).isUnderWay = true) :
    (c.setExchange k { x with stage }).Valid := by
  have hx' := hv.exchange k x hx
  have hlen : x.ids.length = x.calls.length :=
    hx'.idsLength (by rintro h; simp [Exchange.isUnderWay, h] at hw)
      (by rintro h; simp [Exchange.isUnderWay, h] at hw)
  refine hv.replace (y := { x with stage }) hx ⟨hx'.idsNodup, ?_, fun _ _ => hlen, ?_⟩ rfl rfl
    hv.keysNodup fun i entry hp => ⟨hp, fun hk => ?_⟩
  · rintro rfl; simp [Exchange.isUnderWay] at hs
  · rintro outcomes rfl; simp [Exchange.isUnderWay] at hs
  · obtain ⟨z, hz, _, _, ha, hb⟩ := hv.owned i entry hp
    rw [hk, hx] at hz
    obtain rfl := Option.some.inj hz
    exact ⟨hs, ha, hb⟩

/-- An exchange may end, which takes its ids out of the table. -/
theorem Valid.over {c : Calls} (hv : c.Valid) {k : Nat} {x : Exchange}
    (hx : c.exchanges[k]? = some x) {stage : Stage} (hs : stage ≠ .fresh)
    (hlen : stage ≠ .abandoned → x.ids.length = x.calls.length)
    (hok : ∀ outcomes, stage = .finished (.ok outcomes) → x.collected? = some outcomes) :
    ((c.forget x.ids).setExchange k { x with stage }).Valid := by
  have hx' := hv.exchange k x hx
  refine hv.replace (y := { x with stage }) hx
    ⟨hx'.idsNodup, fun h => absurd h hs, fun _ => hlen, hok⟩ rfl rfl
    (keys_filter_nodup hv.keysNodup _) fun i entry hp => ?_
  have hp := (pending_forget c x.ids i).symm.trans hp
  split at hp
  · simp at hp
  · next hi =>
    refine ⟨hp, fun hk => ?_⟩
    -- what is pending of the exchange are ids of its own, and these are gone
    obtain ⟨z, hz, _, hiz, _⟩ := hv.owned i entry hp
    rw [hk, hx] at hz
    obtain rfl := Option.some.inj hz
    exact absurd hiz hi

/-! ### Entering calls -/

/-- The calls once exchange `k` has entered its own, with its write under way. -/
def enter (c : Calls) (k : Nat) (x : Exchange) : Calls :=
  { c with
    nextId := c.nextId + c.lacking k x
    nextBatch := if x.batched && (c.reservation k).batch.isNone then c.nextBatch + 1
      else c.nextBatch
    reserved := c.reserved.erase k
    pending := c.pending ++ (c.newIds k x).map fun id => (id, Entry.mk k (c.newBatch? k x))
    exchanges := c.exchanges.set k { x with ids := c.newIds k x, stage := .writing none } }

theorem pending_enter (c : Calls) (k : Nat) (x : Exchange) (i : Nat) :
    (c.enter k x).pending.get? i =
      (c.pending.get? i).or (if i ∈ c.newIds k x then some ⟨k, c.newBatch? k x⟩ else none) := by
  simp only [enter, Table.get?_append, Table.get?_map_const]

theorem spent_enter {c : Calls} {i : Nat} (h : c.Spent i) (k : Nat) (x : Exchange) :
    (c.enter k x).Spent i := by
  refine h.mono (Nat.le_add_right _ _) fun j hi => .inl ?_
  rw [reservation_erase (c := c) (k := k) rfl] at hi
  split at hi
  · simp at hi
  · exact hi

theorem Valid.enter {c : Calls} (hv : c.Valid) {k : Nat} {x : Exchange}
    (hx : c.exchanges[k]? = some x) (hf : x.stage = .fresh) : (c.enter k x).Valid := by
  have hx' := hv.exchange k x hx
  obtain ⟨hnone, hans⟩ := hx'.untaken hf
  have hget : ∀ j, (c.enter k x).exchanges[j]? =
      if k = j then some { x with ids := c.newIds k x, stage := .writing none }
      else c.exchanges[j]? := getElem?_setExchange hx _
  have hold : ∀ (j : Nat) (z : Exchange) (i : Nat), c.exchanges[j]? = some z → i ∈ z.ids →
      i ∉ c.newIds k x := by
    intro j z i hz hi hnew
    exact not_spent_of_mem_newIds hnew (hv.idsSpent j z hz i hi)
  refine {
    keysNodup := ?keysNodup
    exchange := ?exchange
    idsSpent := ?idsSpent
    apart := ?apart
    owned := ?owned
    reserves := hv.reserves.erase rfl (Nat.le_add_right _ _) (calls_setExchange hx rfl) }
  case keysNodup =>
    simp only [Calls.enter, Table.keys, List.map_append, List.map_map, Function.comp_def,
      List.map_id']
    refine List.nodup_append.2 ⟨hv.keysNodup, nodup_newIds hv.reserves k x, ?_⟩
    rintro i hi j hj rfl
    cases hp : c.pending.get? i with
    | none => exact (Table.get?_eq_none_iff _ _).1 hp hi
    | some entry => exact not_spent_of_mem_newIds hj (hv.spent_of_pending hp)
  case exchange =>
    intro j z hz
    rw [hget] at hz
    split at hz
    · obtain rfl := Option.some.inj hz
      exact ⟨nodup_newIds hv.reserves k x, by simp, fun _ _ => length_newIds hv.reserves hx, by simp⟩
    · exact hv.exchange j z hz
  case idsSpent =>
    intro j z hz i hi
    rw [hget] at hz
    split at hz
    · obtain rfl := Option.some.inj hz
      exact spent_of_mem_newIds hv.reserves rfl rfl hi
    · exact spent_enter (hv.idsSpent j z hz i hi) k x
  case apart =>
    intro j j' z z' i hz hz' hi hi'
    rw [hget] at hz hz'
    split at hz <;> split at hz'
    · next h h' => rw [← h, ← h']
    · next h h' =>
      obtain rfl := Option.some.inj hz
      exact absurd hi (hold j' z' i hz' hi')
    · next h h' =>
      obtain rfl := Option.some.inj hz'
      exact absurd hi' (hold j z i hz hi)
    · exact hv.apart j j' z z' i hz hz' hi hi'
  case owned =>
    intro i entry hp
    rw [pending_enter] at hp
    rcases Option.or_eq_some_iff.1 hp with hp | ⟨_, hp⟩
    · obtain ⟨z, hz, hw, hi, ha, hb⟩ := hv.owned i entry hp
      have hk : k ≠ entry.exchange := by
        rintro rfl
        rw [hx] at hz
        obtain rfl := Option.some.inj hz
        simp [Exchange.isUnderWay, hf] at hw
      exact ⟨z, by rw [hget, if_neg hk]; exact hz, hw, hi, ha, hb⟩
    · split at hp
      · next hi =>
        obtain rfl := Option.some.inj hp
        refine ⟨_, by rw [hget, if_pos rfl], rfl, hi, by simp [hans, Table.get?], ?_⟩
        unfold newBatch?
        cases x.batched <;> rfl
      · simp at hp

/-! Where an exchange goes from its stage does not depend on the stage that the list has for it. -/

theorem finish_setExchange (c : Calls) (k : Nat) (x y : Exchange)
    (r : Except CallError (List Outcome)) : (c.setExchange k y).finish k x r = c.finish k x r := by
  simp [finish, forget, setExchange]

theorem await_setExchange (c : Calls) (k : Nat) (x y : Exchange) :
    (c.setExchange k y).await k x = c.await k x := by
  have hc : (c.setExchange k y).isCancelled x.token = c.isCancelled x.token := rfl
  unfold await
  rw [hc]
  split
  · exact finish_setExchange ..
  · split
    · exact finish_setExchange ..
    · simp [setExchange]

theorem write_setExchange (c : Calls) (k : Nat) (x y : Exchange) :
    (c.setExchange k y).write k x = c.write k x := by
  have hc : (c.setExchange k y).isCancelled x.token = c.isCancelled x.token := rfl
  have hs : (c.setExchange k y).sink = c.sink := rfl
  unfold write
  rw [hc, hs, finish_setExchange]
  split
  · rfl
  · split
    · exact await_setExchange { c with written := c.written ++ [x.frame] } k x y
    · exact finish_setExchange ..
    · simp [setExchange]

/-- The first turn of an exchange takes its ids and goes on from there. -/
theorem start_eq (c : Calls) (k : Nat) (x : Exchange) (hne : x.calls ≠ []) :
    c.start k x =
      if c.closed then (c.enter k x).finish k { x with ids := c.newIds k x } (.error .transportClosed)
      else (c.enter k x).write k { x with ids := c.newIds k x } := by
  have hempty : x.calls.isEmpty = false := by simpa using hne
  have henter : c.enter k x = ({ c with
      nextId := c.nextId + c.lacking k x
      nextBatch := if x.batched && (c.reservation k).batch.isNone then c.nextBatch + 1
        else c.nextBatch
      reserved := c.reserved.erase k
      pending := c.pending ++ (c.newIds k x).map fun id => (id, Entry.mk k (c.newBatch? k x)) } :
      Calls).setExchange k { x with ids := c.newIds k x, stage := .writing none } := rfl
  rw [henter, finish_setExchange, write_setExchange]
  unfold start
  rw [hempty, if_neg (by simp)]
  by_cases hclosed : c.closed = true
  · -- the ids enter the table and leave it again
    have hgone : ((c.newIds k x).map fun id => (id, Entry.mk k (c.newBatch? k x))).filter
        (fun p => !(c.newIds k x).contains p.1) = [] := by
      simp [List.filter_map, List.filter_eq_nil_iff]
    simp only [hclosed, if_true, finish, forget, setExchange, List.filter_append, hgone,
      List.append_nil]
    rfl
  · simp only [hclosed]
    rfl

/-! ### Turns -/

theorem Valid.finish {c : Calls} (hv : c.Valid) {k : Nat} {x : Exchange}
    (hx : c.exchanges[k]? = some x) (hw : x.isUnderWay = true)
    {r : Except CallError (List Outcome)} (hr : ∀ outcomes, r = .ok outcomes →
      x.collected? = some outcomes) : (c.finish k x r).Valid := by
  refine hv.over hx (by simp) (fun _ => ?_) fun outcomes h => hr outcomes (by simpa using h)
  refine (hv.exchange k x hx).idsLength ?_ ?_ <;>
    · intro h
      simp [Exchange.isUnderWay, h] at hw

theorem Valid.await {c : Calls} (hv : c.Valid) {k : Nat} {x : Exchange}
    (hx : c.exchanges[k]? = some x) (hw : x.isUnderWay = true) : (c.await k x).Valid := by
  unfold Calls.await
  split
  · next outcomes h => exact hv.finish hx hw fun _ he => by rw [h, Except.ok.inj he]
  · split
    · exact hv.finish hx hw (by simp)
    · exact hv.setStage hx hw rfl

theorem Valid.write {c : Calls} (hv : c.Valid) {k : Nat} {x : Exchange}
    (hx : c.exchanges[k]? = some x) (hw : x.isUnderWay = true) : (c.write k x).Valid := by
  have hwritten : ({ c with written := c.written ++ [x.frame] } : Calls).Valid :=
    hv.congr rfl rfl rfl rfl
  unfold Calls.write
  split
  · exact hv.finish hx hw (by simp)
  · split
    · exact hwritten.await hx hw
    · exact hv.finish hx hw (by simp)
    · exact hwritten.setStage hx hw rfl

theorem Valid.start {c : Calls} (hv : c.Valid) {k : Nat} {x : Exchange}
    (hx : c.exchanges[k]? = some x) (hf : x.stage = .fresh) : (c.start k x).Valid := by
  by_cases hne : x.calls = []
  · -- nothing is asked, so nothing is taken
    have hids := ((hv.exchange k x hx).untaken hf).1
    have h : c.start k x =
        (c.forget x.ids).setExchange k { x with stage := .finished (.ok []) } := by
      have hall : c.pending.filter (fun _ => true) = c.pending :=
        List.filter_eq_self.2 fun _ _ => rfl
      simp [Calls.start, hne, hids, forget, setExchange, hall]
    rw [h]
    refine hv.over hx (by simp) (fun _ => by simp [hids, hne]) fun outcomes ho => ?_
    simp only [Stage.finished.injEq, Except.ok.injEq] at ho
    simp [Exchange.collected?, hids, ← ho]
  · have hv' := hv.enter hx hf
    have hx' : (c.enter k x).exchanges[k]? =
        some { x with ids := c.newIds k x, stage := .writing none } := by
      have h := getElem?_setExchange hx { x with ids := c.newIds k x, stage := .writing none } k
      rwa [if_pos rfl] at h
    rw [start_eq c k x hne]
    split
    · exact hv'.finish (r := .error .transportClosed) hx' rfl (by simp)
    · have hwrite := hv'.write hx' rfl
      exact hwrite

theorem Valid.run {c : Calls} (hv : c.Valid) (k : Nat) : (c.run k).Valid := by
  unfold Calls.run
  split
  · exact hv
  · next x hx =>
    split
    · next hf => exact hv.start hx hf
    · next reply hs =>
      have hw : x.isUnderWay = true := by simp [Exchange.isUnderWay, hs]
      split
      · exact hv.finish hx hw (by simp)
      · split
        · exact hv
        · exact hv.await hx hw
        · exact hv.finish hx hw (by simp)
    · next hs => exact hv.await hx (by simp [Exchange.isUnderWay, hs])
    · exact hv
    · exact hv

/-! ### Every event -/

theorem Valid.make {c : Calls} (hv : c.Valid) (calls : List Call) (batched : Bool) (token : Token) :
    (c.make calls batched token).Valid := by
  have hget : ∀ (k : Nat) (x : Exchange), (c.make calls batched token).exchanges[k]? = some x →
      c.exchanges[k]? = some x ∨ x = { calls, batched, token } := by
    intro k x hx
    simp only [Calls.make, getElem?_concat] at hx
    split at hx
    · exact .inr (Option.some.inj hx).symm
    · exact .inl hx
  refine {
    keysNodup := hv.keysNodup
    exchange := ?exchange
    idsSpent := ?idsSpent
    apart := ?apart
    owned := ?owned
    reserves := hv.reserves.make calls batched token }
  case exchange =>
    intro k x hx
    rcases hget k x hx with hx | rfl
    · exact hv.exchange k x hx
    · exact ⟨by simp, by simp, by simp, by simp⟩
  case idsSpent =>
    intro k x hx i hi
    rcases hget k x hx with hx | rfl
    · exact hv.idsSpent k x hx i hi
    · simp at hi
  case apart =>
    intro k k' x x' i hx hx' hi hi'
    rcases hget k x hx with hx | rfl
    · rcases hget k' x' hx' with hx' | rfl
      · exact hv.apart k k' x x' i hx hx' hi hi'
      · simp at hi'
    · simp at hi
  case owned =>
    intro i entry hp
    obtain ⟨x, hx, h⟩ := hv.owned i entry hp
    have hlt := (List.getElem?_eq_some_iff.1 hx).1
    exact ⟨x, by simpa [Calls.make, List.getElem?_append, hlt] using hx, h⟩

theorem Valid.reserve {c : Calls} (hv : c.Valid) (k : Nat) : (c.reserve k).Valid where
  keysNodup := by
    rw [pending_reserve]
    exact hv.keysNodup
  exchange := by
    rw [exchanges_reserve]
    exact hv.exchange
  idsSpent j x hx i hi := by
    rw [exchanges_reserve] at hx
    exact spent_reserve (hv.idsSpent j x hx i hi) k
  apart := by
    rw [exchanges_reserve]
    exact hv.apart
  owned := by
    rw [exchanges_reserve, pending_reserve]
    exact hv.owned
  reserves := hv.reserves.reserve k

theorem Valid.abandon {c : Calls} (hv : c.Valid) (k : Nat) : (c.abandon k).Valid := by
  unfold Calls.abandon
  split
  · next x hx =>
    split
    · exact hv.over hx (by simp) (by simp) (by simp)
    · exact hv
  · exact hv

theorem Valid.resume {c : Calls} (hv : c.Valid) (k : Nat) (reply : Except CallError Unit) :
    (c.resume k reply).Valid := by
  unfold Calls.resume
  split
  · next x hx =>
    split
    · next hs => exact hv.setStage hx (by simp [Exchange.isUnderWay, hs]) rfl
    · exact hv
  · exact hv

theorem Valid.answer {c : Calls} (hv : c.Valid) (id : Nat) (o : Outcome) :
    (c.answer id o).Valid := by
  cases hp : c.pending.get? id with
  | none => simpa [Calls.answer, hp] using hv
  | some entry =>
    obtain ⟨x, hx, hw, hi, ha, hb⟩ := hv.owned id entry hp
    have hx' := hv.exchange _ x hx
    have heq : c.answer id o = { c with pending := c.pending.erase id }.setExchange entry.exchange
        { x with answers := x.answers.put id o } := by
      have : Inhabited Exchange := ⟨x⟩
      have hset : c.exchanges.modify entry.exchange
          (fun x => { x with answers := x.answers.put id o }) =
          c.exchanges.set entry.exchange { x with answers := x.answers.put id o } := by
        rw [List.modify_eq_set, hx]
        rfl
      simp [Calls.answer, hp, setExchange, hset]
    rw [heq]
    refine hv.replace (y := { x with answers := x.answers.put id o }) hx
      ⟨hx'.idsNodup, fun h => ?_, hx'.idsLength, fun outcomes h => ?_⟩ rfl rfl
      (keys_filter_nodup hv.keysNodup _) fun i other hp' => ?_
    · have h : x.stage = .fresh := h
      simp [Exchange.isUnderWay, h] at hw
    · have h : x.stage = .finished (.ok outcomes) := h
      simp [Exchange.isUnderWay, h] at hw
    · rw [Table.get?_erase] at hp'
      split at hp'
      · simp at hp'
      · next hne =>
        refine ⟨hp', fun hk => ?_⟩
        obtain ⟨z, hz, _, _, ha', hb'⟩ := hv.owned i other hp'
        rw [hk, hx] at hz
        obtain rfl := Option.some.inj hz
        exact ⟨hw, by simpa [Table.get?_put, hne] using ha', hb'⟩

theorem Valid.answerAll (as : Table Nat Outcome) {c : Calls} (hv : c.Valid) :
    (c.answerAll as).Valid := by
  induction as generalizing c with
  | nil => exact hv
  | cons a as ih => exact ih (hv.answer a.1 a.2)

/-- An event keeps the calls valid. -/
theorem valid_apply {c : Calls} (hv : c.Valid) (e : Event) : (c.apply e).Valid := by
  cases e with
  | call call token => exact hv.make [call] false token
  | batch calls token => exact hv.make calls true token
  | reserve k => exact hv.reserve k
  | run k => exact hv.run k
  | drop k => exact hv.abandon k
  | cancel token => exact hv.congr rfl rfl rfl rfl
  | sink sink => exact hv.congr rfl rfl rfl rfl
  | resume k reply => exact hv.resume k reply
  | route r => exact hv.answerAll _
  | routeBatch responses => exact hv.answerAll _
  | reject error => exact hv.answerAll _
  | close =>
    have h := hv.answerAll (c.pending.keys.map fun id => (id, .error .transportClosed))
    exact h.congr rfl rfl rfl rfl

/-- The calls are valid after any events. -/
theorem valid_after (events : List Event) : (after events).Valid := by
  induction events using List.reverseRecOn with
  | nil => exact valid_empty
  | append_singleton events e ih =>
    rw [after_concat]
    exact valid_apply ih e

end Calls

end NodeRpc
