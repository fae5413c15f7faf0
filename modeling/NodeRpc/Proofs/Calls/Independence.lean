import NodeRpc.Proofs.Calls.Batches
import NodeRpc.Proofs.Calls.Writes

/-!
# Exchanges do not depend on each other

`besides k` is what the other exchanges see of the calls once exchange `k` and its tokens are
hidden. What an event makes of that does not depend on what is hidden (`apply_besides`), with one
exception: an error without an id goes to the oldest batch that is pending, and that may be `k`.
-/

namespace NodeRpc

/-- An exchange of which only its first turn matters to the others, as that takes ids. -/
def Exchange.hidden (x : Exchange) : Exchange :=
  { x with answers := [], stage := if x.stage = .fresh then .fresh else .abandoned }

namespace Calls

variable {c d : Calls} {j k : Nat} {s : List Token}

/-- What there is besides exchange `k`, the tokens `s` and the frames that were written. -/
def besides (c : Calls) (k : Nat) (s : List Token) : Calls := { c with
  pending := c.pending.filter fun p => p.2.exchange ≠ k
  exchanges := c.exchanges.modify k Exchange.hidden
  cancelled := c.cancelled.filter fun t => t ∉ s
  written := [] }

theorem getElem?_besides (c : Calls) (k : Nat) (s : List Token) (j : Nat) :
    (c.besides k s).exchanges[j]? =
      if k = j then (c.exchanges[j]?).map Exchange.hidden else c.exchanges[j]? := by
  simp only [besides, List.getElem?_modify]
  split <;> simp

theorem getElem?_besides_of_ne (hne : j ≠ k) :
    (c.besides k s).exchanges[j]? = c.exchanges[j]? := by
  rw [getElem?_besides, if_neg (Ne.symm hne)]

theorem hidden_hidden (x : Exchange) : x.hidden.hidden = x.hidden := by
  unfold Exchange.hidden
  by_cases h : x.stage = .fresh <;> simp [h]

theorem besides_besides (c : Calls) (k : Nat) (s : List Token) :
    (c.besides k s).besides k s = c.besides k s := by
  have hmodify : (c.exchanges.modify k Exchange.hidden).modify k Exchange.hidden =
      c.exchanges.modify k Exchange.hidden := by
    rw [List.modify_modify_eq]
    congr 1
    exact funext hidden_hidden
  simp [besides, hmodify]

theorem isCancelled_besides {t : Token} (ht : t ∉ s) :
    (c.besides k s).isCancelled t = c.isCancelled t := by
  rw [Bool.eq_iff_iff]
  simp [isCancelled, besides, ht]

/-! ### Turns of another exchange -/

theorem setExchange_besides (hne : j ≠ k) (x : Exchange) :
    (c.setExchange j x).besides k s = (c.besides k s).setExchange j x := by
  have hset : (c.exchanges.set j x).modify k Exchange.hidden =
      (c.exchanges.modify k Exchange.hidden).set j x := by
    refine List.ext_getElem? fun i => ?_
    simp only [List.getElem?_modify, List.getElem?_set, List.length_modify]
    by_cases hj : j = i
    · simp [hj, show ¬ k = i from fun h => hne (hj.trans h.symm)]
    · simp [hj]
  simp [besides, setExchange, hset]

theorem forget_besides (ids : List Nat) :
    (c.forget ids).besides k s = (c.besides k s).forget ids := by
  simp only [besides, forget, List.filter_filter, Bool.and_comm]

theorem finish_besides (hne : j ≠ k) (x : Exchange) (r : Except CallError (List Outcome)) :
    (c.finish j x r).besides k s = (c.besides k s).finish j x r := by
  simp only [finish, setExchange_besides hne, forget_besides]

theorem await_besides (hne : j ≠ k) {x : Exchange} (ht : x.token ∉ s) :
    (c.await j x).besides k s = (c.besides k s).await j x := by
  unfold await
  rw [isCancelled_besides ht]
  split
  · exact finish_besides hne x _
  · split
    · exact finish_besides hne x _
    · exact setExchange_besides hne _

theorem write_besides (hne : j ≠ k) {x : Exchange} (ht : x.token ∉ s) :
    (c.write j x).besides k s = ((c.besides k s).write j x).besides k s := by
  have hfinish : ∀ r, (c.finish j x r).besides k s =
      ((c.besides k s).finish j x r).besides k s := fun r => by
    rw [finish_besides hne, finish_besides hne, besides_besides]
  have hwritten : ∀ frames, { c with written := frames }.besides k s = c.besides k s :=
    fun _ => rfl
  have hwritten' : ∀ frames, { c.besides k s with sink := c.sink, written := frames }.besides k s =
      c.besides k s := fun _ => besides_besides c k s
  have hsink : (c.besides k s).sink = c.sink := rfl
  unfold write
  rw [isCancelled_besides ht, hsink]
  split
  · exact hfinish _
  · split
    · rw [await_besides hne ht, await_besides hne ht, hwritten, hwritten']
    · exact hfinish _
    · rw [setExchange_besides hne, setExchange_besides hne, hwritten, hwritten']

theorem enter_besides (hne : j ≠ k) (x : Exchange) :
    (c.enter j x).besides k s = (c.besides k s).enter j x := by
  have hset := congrArg Calls.exchanges (setExchange_besides (c := c) (s := s) hne
    { x with ids := c.newIds j x, stage := .writing none })
  have hnew : ((c.newIds j x).map fun id => (id, Entry.mk j (c.newBatch? j x))).filter
      (fun p => p.2.exchange ≠ k) =
        (c.newIds j x).map fun id => (id, Entry.mk j (c.newBatch? j x)) := by
    simp [List.filter_eq_self, hne]
  simp only [setExchange, besides] at hset
  simp only [enter, besides, List.filter_append, hset, hnew]
  rfl

theorem start_besides (hne : j ≠ k) {x : Exchange} (ht : x.token ∉ s) :
    (c.start j x).besides k s = ((c.besides k s).start j x).besides k s := by
  by_cases hnone : x.calls = []
  · have hstart : ∀ c : Calls,
        c.start j x = c.setExchange j { x with stage := .finished (.ok []) } :=
      fun c => by simp [start, hnone]
    rw [hstart, hstart, setExchange_besides hne, setExchange_besides hne, besides_besides]
  · have hids : (c.besides k s).newIds j x = c.newIds j x := rfl
    have hclosed : (c.besides k s).closed = c.closed := rfl
    rw [start_eq c j x hnone, start_eq _ j x hnone, hids, hclosed, ← enter_besides hne]
    split
    · rw [finish_besides hne, finish_besides hne, besides_besides]
    · exact write_besides hne ht

theorem run_besides_of_ne (hne : j ≠ k) (ht : ∀ x, c.exchanges[j]? = some x → x.token ∉ s) :
    (c.run j).besides k s = ((c.besides k s).run j).besides k s := by
  unfold run
  rw [getElem?_besides_of_ne hne]
  cases hx : c.exchanges[j]? with
  | none => simp only [besides_besides]
  | some x =>
    have ht := ht x hx
    dsimp only
    rw [isCancelled_besides ht]
    have hfinish : ∀ r, (c.finish j x r).besides k s =
        ((c.besides k s).finish j x r).besides k s := fun r => by
      rw [finish_besides hne, finish_besides hne, besides_besides]
    have hawait : (c.await j x).besides k s = ((c.besides k s).await j x).besides k s := by
      rw [await_besides hne ht, await_besides hne ht, besides_besides]
    split
    · exact start_besides hne ht
    · split
      · exact hfinish _
      · split
        · rw [besides_besides]
        · exact hawait
        · exact hfinish _
    · exact hawait
    · rw [besides_besides]
    · rw [besides_besides]

theorem abandon_besides_of_ne (hne : j ≠ k) :
    (c.abandon j).besides k s = (c.besides k s).abandon j := by
  unfold abandon
  rw [getElem?_besides_of_ne hne]
  split
  · split
    · rw [setExchange_besides hne, forget_besides]
    · rfl
  · rfl

theorem resume_besides_of_ne (hne : j ≠ k) (reply : Except CallError Unit) :
    (c.resume j reply).besides k s = (c.besides k s).resume j reply := by
  unfold resume
  rw [getElem?_besides_of_ne hne]
  split
  · split
    · exact setExchange_besides hne _
    · rfl
  · rfl

theorem make_besides (hk : k < c.exchanges.length) (calls : List Call) (batched : Bool)
    (token : Token) :
    (c.make calls batched token).besides k s = (c.besides k s).make calls batched token := by
  have hmodify : ∀ x, (c.exchanges ++ [x]).modify k Exchange.hidden =
      c.exchanges.modify k Exchange.hidden ++ [x] := by
    intro x
    refine List.ext_getElem? fun i => ?_
    simp only [List.getElem?_modify, List.getElem?_append, List.length_modify]
    by_cases hi : k = i
    · simp [← hi, hk]
    · simp [hi]
  simp [make, besides, hmodify]

/-! ### Turns of the exchange itself -/

/-- What is pending of exchange `k` are ids of its own. -/
theorem pending_besides (hv : c.Valid) {x : Exchange} (hx : c.exchanges[k]? = some x) :
    (c.besides k s).pending = (c.forget x.ids).pending := by
  refine List.filter_congr fun p hp => ?_
  obtain ⟨y, hy, _, hi, _⟩ := hv.owned p.1 p.2 (Table.get?_of_mem hv.keysNodup hp)
  have hiff : p.2.exchange = k ↔ p.1 ∈ x.ids := by
    constructor
    · intro h
      rw [h, hx] at hy
      rwa [Option.some.inj hy]
    · exact fun h => hv.apart _ _ y x p.1 hy hx hi h
  rw [Bool.eq_iff_iff]
  simp [hiff]

theorem besides_setExchange_self {x y : Exchange} (hx : c.exchanges[k]? = some x)
    (hy : y.hidden = x.hidden) : (c.setExchange k y).besides k s = c.besides k s := by
  have hset : (c.exchanges.set k y).modify k Exchange.hidden =
      c.exchanges.modify k Exchange.hidden := by
    refine List.ext_getElem? fun i => ?_
    simp only [List.getElem?_modify, List.getElem?_set]
    by_cases hi : k = i
    · subst hi
      rw [if_pos rfl, if_pos (List.getElem?_eq_some_iff.1 hx).1, hx]
      simp [hy]
    · simp [hi]
  simp [besides, setExchange, hset]

theorem besides_forget_self (hv : c.Valid) {x : Exchange} (hx : c.exchanges[k]? = some x) :
    (c.forget x.ids).besides k s = c.besides k s := by
  have hpending : (c.forget x.ids).pending.filter (fun p => p.2.exchange ≠ k) =
      c.pending.filter (fun p => p.2.exchange ≠ k) := by
    have h := pending_besides (s := s) hv hx
    have h' := congrArg (List.filter fun p => decide (p.2.exchange ≠ k)) h
    simpa [besides, List.filter_filter] using h'.symm
  simp only [besides, hpending]
  rfl

theorem besides_over (hv : c.Valid) {x y : Exchange} (hx : c.exchanges[k]? = some x)
    (hy : y.hidden = x.hidden) :
    ((c.forget x.ids).setExchange k y).besides k s = c.besides k s :=
  (besides_setExchange_self (c := c.forget x.ids) hx hy).trans (besides_forget_self hv hx)

theorem hidden_setStage {x : Exchange} (hs : x.stage ≠ .fresh) {stage : Stage}
    (hstage : stage ≠ .fresh) : ({ x with stage } : Exchange).hidden = x.hidden := by
  simp [Exchange.hidden, hs, hstage]

theorem besides_finish_self (hv : c.Valid) {x : Exchange} (hx : c.exchanges[k]? = some x)
    (hs : x.stage ≠ .fresh) (r : Except CallError (List Outcome)) :
    (c.finish k x r).besides k s = c.besides k s :=
  besides_over hv hx (hidden_setStage hs (by simp))

theorem besides_await_self (hv : c.Valid) {x : Exchange} (hx : c.exchanges[k]? = some x)
    (hs : x.stage ≠ .fresh) : (c.await k x).besides k s = c.besides k s := by
  unfold await
  split
  · exact besides_finish_self hv hx hs _
  · split
    · exact besides_finish_self hv hx hs _
    · exact besides_setExchange_self hx (hidden_setStage hs (by simp))

theorem besides_write_self (hv : c.Valid) {x : Exchange} (hx : c.exchanges[k]? = some x)
    (hs : x.stage ≠ .fresh) : (c.write k x).besides k s = c.besides k s := by
  have hwritten : ({ c with written := c.written ++ [x.frame] } : Calls).Valid :=
    hv.congr rfl rfl rfl rfl
  unfold write
  split
  · exact besides_finish_self hv hx hs _
  · split
    · exact besides_await_self hwritten hx hs
    · exact besides_finish_self hv hx hs _
    · exact besides_setExchange_self (c := { c with written := c.written ++ [x.frame] }) hx
        (hidden_setStage hs (by simp))

/-- A turn that is not the first leaves the others alone. -/
theorem besides_run_self (hv : c.Valid) {x : Exchange} (hx : c.exchanges[k]? = some x)
    (hs : x.stage ≠ .fresh) : (c.run k).besides k s = c.besides k s := by
  unfold run
  rw [hx]
  dsimp only
  split
  · next hf => exact absurd hf hs
  · split
    · exact besides_finish_self hv hx hs _
    · split
      · rfl
      · exact besides_await_self hv hx hs
      · exact besides_finish_self hv hx hs _
  · exact besides_await_self hv hx hs
  · rfl
  · rfl

/-! What the first turn does to the others is that it takes ids and, for a batch, a number. -/

theorem hidden_of_fresh (hv : c.Valid) {x : Exchange} (hx : c.exchanges[k]? = some x)
    (hf : x.stage = .fresh) : x.hidden = x := by
  cases x
  have hans := ((hv.exchange k _ hx).untaken hf).2
  dsimp only at hf hans
  simp [Exchange.hidden, hf, hans]

theorem Valid.besides (hv : c.Valid) {x : Exchange} (hx : c.exchanges[k]? = some x) :
    (c.besides k s).Valid := by
  have hx' := hv.exchange k x hx
  have hhidden : x.hidden.Valid := by
    refine ⟨hx'.idsNodup, fun h => ⟨?_, rfl⟩, fun h h' => ?_, fun outcomes h => ?_⟩ <;>
      by_cases hf : x.stage = .fresh <;> simp_all [Exchange.hidden]
    exact (hx'.untaken hf).1
  have hreplace := hv.replace hx hhidden rfl rfl
    (keys_filter_nodup hv.keysNodup fun p => p.2.exchange ≠ k) fun i entry hp => by
      have hmem := List.mem_filter.1 (Table.mem_of_get? hp)
      exact ⟨Table.get?_of_mem hv.keysNodup hmem.1, fun h => by simp [h] at hmem⟩
  have hmodify : c.exchanges.modify k Exchange.hidden = c.exchanges.set k x.hidden := by
    have : Inhabited Exchange := ⟨x⟩
    rw [List.modify_eq_set, hx]
    rfl
  unfold Calls.besides
  rw [hmodify]
  exact hreplace.congr rfl rfl rfl rfl

theorem besides_setExchange_besides (y : Exchange) :
    (c.setExchange k y).besides k s = ((c.besides k s).setExchange k y).besides k s := by
  have hset : (c.exchanges.set k y).modify k Exchange.hidden =
      ((c.exchanges.modify k Exchange.hidden).set k y).modify k Exchange.hidden := by
    refine List.ext_getElem? fun i => ?_
    simp only [List.getElem?_modify, List.getElem?_set, List.length_modify]
    by_cases hi : k = i <;> simp [hi]
  simp [besides, setExchange, hset]

theorem besides_enter_self (x : Exchange) :
    (c.enter k x).besides k s = ((c.besides k s).enter k x).besides k s := by
  have hset := congrArg Calls.exchanges (besides_setExchange_besides (c := c) (k := k) (s := s)
    { x with ids := c.newIds k x, stage := .writing none })
  have hnew : ∀ (ids : List Nat) batch, (ids.map fun id => (id, Entry.mk k batch)).filter
      (fun p => p.2.exchange ≠ k) = [] := by simp [List.filter_eq_nil_iff]
  have hagain : ∀ (t : Table Nat Entry), (t.filter fun p => p.2.exchange ≠ k).filter
      (fun p => p.2.exchange ≠ k) = t.filter fun p => p.2.exchange ≠ k := by
    simp [List.filter_filter]
  have htokens : (c.cancelled.filter fun t => t ∉ s).filter (fun t => t ∉ s) =
      c.cancelled.filter fun t => t ∉ s := by simp [List.filter_filter]
  simp only [setExchange, besides] at hset
  simp only [enter, besides, List.filter_append, hnew, hagain, htokens, hset]
  rfl

theorem besides_start_self (hv : c.Valid) {x : Exchange} (hx : c.exchanges[k]? = some x)
    (hf : x.stage = .fresh) (hne : x.calls ≠ []) :
    (c.start k x).besides k s = (c.enter k x).besides k s := by
  have hv' := hv.enter hx hf
  have hx' : (c.enter k x).exchanges[k]? =
      some { x with ids := c.newIds k x, stage := .writing none } := by
    have h := getElem?_setExchange hx { x with ids := c.newIds k x, stage := .writing none } k
    rwa [if_pos rfl] at h
  rw [start_eq c k x hne]
  split
  · exact besides_finish_self hv' hx' (by simp) _
  · have hwrite := besides_write_self (s := s) hv' hx' (by simp)
    exact hwrite

theorem run_besides_self (hv : c.Valid) {x : Exchange} (hx : c.exchanges[k]? = some x) :
    (c.run k).besides k s = ((c.besides k s).run k).besides k s := by
  have hget : (c.besides k s).exchanges[k]? = some x.hidden := by
    rw [getElem?_besides, if_pos rfl, hx]
    rfl
  by_cases hf : x.stage = .fresh
  · rw [hidden_of_fresh hv hx hf] at hget
    have hrun : c.run k = c.start k x := by simp [run, hx, hf]
    have hrun' : (c.besides k s).run k = (c.besides k s).start k x := by simp [run, hget, hf]
    rw [hrun, hrun']
    by_cases hne : x.calls = []
    · have hstart : ∀ c : Calls,
          c.start k x = c.setExchange k { x with stage := .finished (.ok []) } :=
        fun c => by simp [start, hne]
      rw [hstart, hstart, besides_setExchange_besides]
    · rw [besides_start_self hv hx hf hne, besides_start_self (hv.besides hx) hget hf hne,
        besides_enter_self]
  · have hidle : (c.besides k s).run k = c.besides k s := by
      simp [run, hget, Exchange.hidden, hf]
    rw [besides_run_self hv hx hf, hidle, besides_besides]

theorem abandon_besides_self (hv : c.Valid) {x : Exchange} (hx : c.exchanges[k]? = some x) :
    (c.abandon k).besides k s = ((c.besides k s).abandon k).besides k s := by
  have hget : (c.besides k s).exchanges[k]? = some x.hidden := by
    rw [getElem?_besides, if_pos rfl, hx]
    rfl
  by_cases hf : x.stage = .fresh
  · rw [hidden_of_fresh hv hx hf] at hget
    have hlive : x.isLive = true := by simp [Exchange.isLive, hf]
    simp only [abandon, hx, hget, hlive, if_true]
    rw [besides_setExchange_besides, besides_forget_self hv hx, ← forget_besides,
      besides_forget_self hv hx]
  · have hidle : (c.besides k s).abandon k = c.besides k s := by
      simp [abandon, hget, Exchange.hidden, hf, Exchange.isLive]
    rw [hidle, besides_besides]
    unfold abandon
    rw [hx]
    dsimp only
    split
    · exact besides_over hv hx (hidden_setStage hf (by simp))
    · rfl

theorem resume_besides_self {x : Exchange} (hx : c.exchanges[k]? = some x)
    (reply : Except CallError Unit) :
    (c.resume k reply).besides k s = ((c.besides k s).resume k reply).besides k s := by
  have hidle : (c.besides k s).resume k reply = c.besides k s := by
    have hget : (c.besides k s).exchanges[k]? = some x.hidden := by
      rw [getElem?_besides, if_pos rfl, hx]
      rfl
    by_cases hf : x.stage = .fresh <;> simp [resume, hget, Exchange.hidden, hf]
  rw [hidle, besides_besides]
  unfold resume
  rw [hx]
  dsimp only
  split
  · next hs => exact besides_setExchange_self hx (hidden_setStage (by simp [hs]) (by simp))
  · rfl

/-! ### Answers -/

theorem get?_besides (hv : c.Valid) {x : Exchange} (hx : c.exchanges[k]? = some x) (i : Nat) :
    (c.besides k s).pending.get? i = if i ∈ x.ids then none else c.pending.get? i := by
  rw [pending_besides hv hx, pending_forget]

/-- An answer to a call of exchange `k` does nothing to the others. -/
theorem answer_besides (hv : c.Valid) {x : Exchange} (hx : c.exchanges[k]? = some x) (id : Nat)
    (o : Outcome) : (c.answer id o).besides k s = (c.besides k s).answer id o := by
  have herase : (c.pending.erase id).filter (fun p => p.2.exchange ≠ k) =
      (c.besides k s).pending.erase id := by
    simp only [Table.erase, besides, List.filter_filter, Bool.and_comm]
  have hget := get?_besides (s := s) hv hx id
  cases hp : c.pending.get? id with
  | none =>
    rw [hp, ite_self] at hget
    simp [answer, hp, hget]
  | some entry =>
    obtain ⟨y, hy, _, hi, _⟩ := hv.owned id entry hp
    by_cases hk : entry.exchange = k
    · subst hk
      obtain rfl := Option.some.inj (hx.symm.trans hy)
      rw [if_pos hi] at hget
      -- the id is hidden, so erasing it changes nothing
      have hgone : (c.besides entry.exchange s).pending.erase id =
          (c.besides entry.exchange s).pending := by
        refine List.filter_eq_self.2 fun p hmem => ?_
        have hne : p.1 ≠ id := by
          rintro rfl
          exact (Table.get?_eq_none_iff _ _).1 hget (List.mem_map_of_mem hmem)
        simpa using hne
      have hmodify : (c.exchanges.modify entry.exchange fun x =>
          { x with answers := x.answers.put id o }).modify entry.exchange Exchange.hidden =
          c.exchanges.modify entry.exchange Exchange.hidden := by
        rw [List.modify_modify_eq]
        rfl
      rw [hgone] at herase
      simp only [answer, hp, hget]
      simp only [besides, herase, hmodify]
    · have hout : id ∉ x.ids := fun h => hk (hv.apart _ _ y x id hy hx hi h)
      rw [if_neg hout, hp] at hget
      have hmodify : (c.exchanges.modify entry.exchange fun x =>
          { x with answers := x.answers.put id o }).modify k Exchange.hidden =
          (c.exchanges.modify k Exchange.hidden).modify entry.exchange fun x =>
            { x with answers := x.answers.put id o } := by
        refine List.ext_getElem? fun i => ?_
        simp only [List.getElem?_modify]
        by_cases hi : k = i
        · simp [← hi, hk]
        · simp [hi]
      simp only [answer, hp, hget]
      simp only [besides, hmodify] at herase ⊢
      rw [herase]

theorem answerAll_besides (as : Table Nat Outcome) (hv : c.Valid) {x : Exchange}
    (hx : c.exchanges[k]? = some x) :
    (c.answerAll as).besides k s = (c.besides k s).answerAll as := by
  induction as generalizing c x with
  | nil => rfl
  | cons a as ih =>
    have hget := exchanges_answer c a.1 a.2 k
    rw [hx, Option.map_some] at hget
    rw [answerAll_cons, answerAll_cons, ih (hv.answer a.1 a.2) hget, answer_besides hv hx]

/-- Answers to calls that are not pending do nothing. -/
theorem answerAll_filter (as : Table Nat Outcome) {ids : List Nat}
    (hids : ∀ i ∈ ids, c.pending.get? i = none) :
    c.answerAll as = c.answerAll (as.filter fun a => a.1 ∉ ids) := by
  induction as generalizing c with
  | nil => rfl
  | cons a as ih =>
    by_cases ha : a.1 ∈ ids
    · have hsame : c.answer a.1 a.2 = c := by simp [answer, hids a.1 ha]
      rw [answerAll_cons, hsame, ih hids, List.filter_cons_of_neg (by simpa using ha)]
    · rw [List.filter_cons_of_pos (by simpa using ha), answerAll_cons, answerAll_cons]
      refine ih fun i hi => ?_
      rw [pending_answer, hids i hi, ite_self]

/-- What the others see of some answers is what they would see without those to exchange `k`. -/
theorem answers_besides (hv : c.Valid) {x : Exchange} (hx : c.exchanges[k]? = some x)
    {as bs : Table Nat Outcome} (h : as.filter (fun a => a.1 ∉ x.ids) = bs) :
    (c.answerAll as).besides k s = (c.besides k s).answerAll bs := by
  rw [answerAll_besides as hv hx, answerAll_filter as fun i hi => ?_, h]
  rw [get?_besides hv hx, if_pos hi]

/-! What a frame answers, when some ids are forgotten. -/

section Forget

variable {ids : List Nat}

theorem has_of_forget (hp : d.pending = (c.forget ids).pending) (i : Nat) :
    d.pending.has i = (c.pending.has i && decide (i ∉ ids)) := by
  rw [hp]
  unfold Table.has
  rw [pending_forget]
  by_cases hi : i ∈ ids <;> simp [hi]

theorem answerOf_of_forget (hclosed : d.closed = c.closed)
    (hp : d.pending = (c.forget ids).pending) (r : Response) :
    (c.answerOf r).filter (fun a => a.1 ∉ ids) = d.answerOf r := by
  unfold answerOf
  rw [has_of_forget hp, hclosed]
  by_cases hr : r.id ∈ ids
  · simp only [hr, not_true_eq_false, decide_false, Bool.and_false, Bool.false_eq_true, if_false]
    split <;> simp [hr]
  · simp only [hr, not_false_eq_true, decide_true, Bool.and_true]
    split <;> simp [hr]

theorem firstAnswers_of_forget (responses : List Response) (hclosed : d.closed = c.closed)
    (hp : d.pending = (c.forget ids).pending) :
    (c.firstAnswers responses).filter (fun a => a.1 ∉ ids) = d.firstAnswers responses := by
  induction responses generalizing c d with
  | nil => rfl
  | cons r rs ih =>
    rw [firstAnswers, firstAnswers, List.filter_append, answerOf_of_forget hclosed hp]
    congr 1
    refine ih hclosed ?_
    simp only [hp, Table.erase, forget, List.filter_filter, Bool.and_comm]

theorem mem_firstAnswers_of_forget (responses : List Response) (hclosed : d.closed = c.closed)
    (hp : d.pending = (c.forget ids).pending) (a : Nat × Outcome) :
    a ∈ d.firstAnswers responses ↔ a ∈ c.firstAnswers responses ∧ a.1 ∉ ids := by
  rw [← firstAnswers_of_forget responses hclosed hp, List.mem_filter, decide_eq_true_iff]

/-- A call that is not forgotten is in a batch that is answered in part if and only if it is so
without the forgotten ids, as these are in other batches. -/
theorem mem_touched_of_forget (responses : List Response) (hclosed : d.closed = c.closed)
    (hp : d.pending = (c.forget ids).pending) {b : Nat}
    (hout : ∀ j other, c.pending.get? j = some other → other.batch = some b → j ∉ ids) :
    b ∈ (d.firstAnswers responses).filterMap (fun a => (d.pending.get? a.1).bind Entry.batch) ↔
      b ∈ (c.firstAnswers responses).filterMap fun a => (c.pending.get? a.1).bind Entry.batch := by
  have hget : ∀ i, i ∉ ids → d.pending.get? i = c.pending.get? i := fun i hi => by
    rw [hp, pending_forget, if_neg hi]
  simp only [List.mem_filterMap, mem_firstAnswers_of_forget responses hclosed hp]
  constructor
  · rintro ⟨a, ⟨ha, hi⟩, hb⟩
    exact ⟨a, ha, by rw [← hget a.1 hi]; exact hb⟩
  · rintro ⟨a, ha, hb⟩
    obtain ⟨other, hother, hob⟩ := Option.bind_eq_some_iff.1 hb
    have hi := hout a.1 other hother hob
    exact ⟨a, ⟨ha, hi⟩, by rw [hget a.1 hi]; exact hb⟩

/-- What is forgotten of a batch is all of it, so the other batches are answered as before. -/
theorem batchAnswers_of_forget (hclosed : d.closed = c.closed)
    (hp : d.pending = (c.forget ids).pending)
    (hwhole : ∀ i j entry other, c.pending.get? i = some entry → c.pending.get? j = some other →
      entry.batch.isSome = true → entry.batch = other.batch → (i ∈ ids ↔ j ∈ ids))
    (hd : c.pending.keys.Nodup) (responses : List Response) :
    (c.batchAnswers responses).filter (fun a => a.1 ∉ ids) = d.batchAnswers responses := by
  unfold batchAnswers
  simp only [List.filter_append, firstAnswers_of_forget responses hclosed hp, List.filter_map]
  congr 2
  rw [congrArg (List.filter _) hp]
  simp only [forget, List.filter_filter]
  refine List.filter_congr fun p hmem => ?_
  have hentry := Table.get?_of_mem hd hmem
  by_cases hi : p.1 ∈ ids
  · simp [hi]
  · cases hbatch : p.2.batch with
    | none => simp
    | some b =>
      have hkey : p.1 ∈ (d.firstAnswers responses).map (·.1) ↔
          p.1 ∈ (c.firstAnswers responses).map (·.1) := by
        simp only [List.mem_map, mem_firstAnswers_of_forget responses hclosed hp]
        constructor
        · rintro ⟨a, ⟨ha, _⟩, heq⟩
          exact ⟨a, ha, heq⟩
        · rintro ⟨a, ha, heq⟩
          exact ⟨a, ⟨ha, heq ▸ hi⟩, heq⟩
      have htouched := mem_touched_of_forget (b := b) responses hclosed hp
        fun j other hj hob h => hi ((hwhole p.1 j p.2 other hentry hj (by simp [hbatch])
          (hbatch.trans hob.symm)).2 h)
      simp only [List.contains_eq_mem, Option.map_some, Option.getD_some,
        decide_eq_decide.2 hkey, decide_eq_decide.2 htouched]
      simp [hi]

end Forget

theorem route_besides (hv : c.Valid) {x : Exchange} (hx : c.exchanges[k]? = some x) (r : Response) :
    (c.route r).besides k s = (c.besides k s).route r :=
  answers_besides hv hx
    (answerOf_of_forget (c := c) (d := c.besides k s) rfl (pending_besides hv hx) r)

theorem routeBatch_besides (hv : c.Valid) (hb : c.Batches) {x : Exchange}
    (hx : c.exchanges[k]? = some x) (responses : List Response) :
    (c.routeBatch responses).besides k s = (c.besides k s).routeBatch responses := by
  have hids : ∀ i entry, c.pending.get? i = some entry → (i ∈ x.ids ↔ entry.exchange = k) := by
    intro i entry hp
    obtain ⟨y, hy, _, hi, _⟩ := hv.owned i entry hp
    constructor
    · exact fun h => hv.apart _ _ y x i hy hx hi h
    · intro h
      rw [h, hx] at hy
      rwa [Option.some.inj hy]
  refine answers_besides hv hx (batchAnswers_of_forget (c := c) (d := c.besides k s) rfl
    (pending_besides hv hx) ?_ hv.keysNodup _)
  intro i j entry other hi hj hsome hbatch
  rw [hids i entry hi, hids j other hj, (hb.batch_iff i j entry other hi hj hsome).2 hbatch]

theorem close_besides (hv : c.Valid) {x : Exchange} (hx : c.exchanges[k]? = some x) :
    c.close.besides k s = (c.besides k s).close := by
  have hanswers : (c.pending.keys.map fun id => (id, (.error .transportClosed : Outcome))).filter
      (fun a => a.1 ∉ x.ids) =
      (c.besides k s).pending.keys.map fun id => (id, .error .transportClosed) := by
    rw [pending_besides hv hx]
    simp only [Table.keys, forget, List.map_map, List.filter_map]
    congr 1
    refine List.filter_congr fun p _ => ?_
    simp
  have h := answers_besides (s := s) hv hx hanswers
  unfold close
  rw [← h]
  rfl

/-- What the others see of an error without an id depends on the exchange that it fails. -/
theorem reject_besides (hv : c.Valid) (hb : c.Batches) {x : Exchange}
    (hx : c.exchanges[k]? = some x) (error : ErrorObject) :
    (c.reject error).besides k s = (c.besides k s).answerAll
      (((c.besides k s).pending.filter fun p => c.rejected? = some p.2.exchange).map fun p =>
        (p.1, .error (.protocol error))) := by
  refine answers_besides hv hx ?_
  rw [rejectionAnswers_eq hb hv.keysNodup, pending_besides hv hx]
  simp only [forget, List.filter_map, List.filter_filter]
  congr 1
  refine List.filter_congr fun p _ => ?_
  simp [Bool.and_comm]

/-! ### Every event -/

theorem hidden_fresh_iff (x : Exchange) : x.hidden.stage = .fresh ↔ x.stage = .fresh := by
  by_cases h : x.stage = .fresh <;> simp [Exchange.hidden, h]

/-- Which number an exchange takes ahead does not depend on what is hidden of it. -/
theorem reserve_besides (c : Calls) (j k : Nat) (s : List Token) :
    (c.reserve j).besides k s = (c.besides k s).reserve j := by
  have hreservation : (c.besides k s).reservation j = c.reservation j := rfl
  unfold reserve
  cases hx : c.exchanges[j]? with
  | none => simp [getElem?_besides, hx]
  | some x =>
    obtain ⟨y, hy, hcalls, hbatched, hfresh⟩ : ∃ y, (c.besides k s).exchanges[j]? = some y ∧
        y.calls = x.calls ∧ y.batched = x.batched ∧ (y.stage = .fresh ↔ x.stage = .fresh) := by
      rw [getElem?_besides, hx]
      split
      · exact ⟨x.hidden, rfl, rfl, rfl, hidden_fresh_iff x⟩
      · exact ⟨x, rfl, rfl, rfl, Iff.rfl⟩
    rw [hy]
    dsimp only
    simp only [hcalls, hbatched, hreservation, ne_eq, hfresh,
      apply_ite (fun d : Calls => d.besides k s)]
    rfl

theorem cancel_besides (t : Token) :
    (c.cancel t).besides k s = ((c.besides k s).cancel t).besides k s := by
  have h := congrArg Calls.exchanges (besides_besides c k s)
  simp only [besides] at h
  by_cases ht : t ∈ s <;> simp [cancel, besides, ht, h]

/-- What an event other than an error without an id makes of the others does not depend on what is
hidden. -/
theorem apply_besides (hv : c.Valid) (hb : c.Batches) {x : Exchange}
    (hx : c.exchanges[k]? = some x)
    (htokens : ∀ j y, j ≠ k → c.exchanges[j]? = some y → y.token ∉ s) {e : Event}
    (he : ∀ error, e ≠ .reject error) :
    (c.apply e).besides k s = ((c.besides k s).apply e).besides k s := by
  have hlt := (List.getElem?_eq_some_iff.1 hx).1
  have hagain : ∀ {c' d' : Calls}, c'.besides k s = d' → c'.besides k s = d'.besides k s := by
    rintro c' _ rfl
    rw [besides_besides]
  cases e with
  | call call token => exact hagain (make_besides hlt [call] false token)
  | batch calls token => exact hagain (make_besides hlt calls true token)
  | reserve j => exact hagain (reserve_besides c j k s)
  | run j =>
    by_cases hj : j = k
    · subst hj
      exact run_besides_self hv hx
    · exact run_besides_of_ne hj fun y hy => htokens j y hj hy
  | drop j =>
    by_cases hj : j = k
    · subst hj
      exact abandon_besides_self hv hx
    · exact hagain (abandon_besides_of_ne hj)
  | cancel token => exact cancel_besides token
  | sink sink =>
    have hsink : ∀ c : Calls, { c with sink }.besides k s = { c.besides k s with sink } :=
      fun _ => rfl
    exact hagain (hsink c)
  | resume j reply =>
    by_cases hj : j = k
    · subst hj
      exact resume_besides_self hx reply
    · exact hagain (resume_besides_of_ne hj reply)
  | route r => exact hagain (route_besides hv hx r)
  | routeBatch responses => exact hagain (routeBatch_besides hv hb hx responses)
  | reject error => exact absurd rfl (he error)
  | close => exact hagain (close_besides hv hx)

end Calls

end NodeRpc
