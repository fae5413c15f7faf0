import NodeRpc.Proofs.Calls.Cancelling
import NodeRpc.Proofs.Calls.Closing
import NodeRpc.Proofs.Calls.Independence
import NodeRpc.Proofs.Calls.Rejections

/-!
# Withdrawing an exchange

Two runs are compared: one as it is, and one in which exchange `k` is withdrawn at some point, by a
cancellation of its own or because nobody waits for it any more, and all else is the same. A turn
that finds nothing to do changes nothing (`run_of_not_canRun`), so the turns that the exchange has
in one of the runs only may be had in both. The others are the same in the two runs, unless `k` is a
batch that an error without an id would have failed: once it is withdrawn, the error fails the
oldest of the other batches (`Diverts`).
-/

namespace NodeRpc.Calls

/-- A turn of an exchange that has nothing to do. -/
theorem run_of_not_canRun {c : Calls} {k : Nat} (h : c.canRun k = false) : c.run k = c := by
  unfold canRun at h
  unfold run
  split
  · rfl
  · next x hx =>
    rw [hx] at h
    dsimp only at h
    cases hs : x.stage with
    | fresh => simp [hs] at h
    | writing reply =>
      rw [hs] at h
      obtain ⟨rfl, hc⟩ : reply = none ∧ c.isCancelled x.token = false := by simpa using h
      simp [hc]
    | waiting =>
      rw [hs] at h
      obtain ⟨hnone, hc⟩ : x.collected? = none ∧ c.isCancelled x.token = false := by simpa using h
      have hsame : c.setExchange k { x with stage := .waiting } = c := by
        rw [← hs]
        obtain ⟨hlt, rfl⟩ := List.getElem?_eq_some_iff.1 hx
        have hset := List.set_getElem_self hlt
        simp only [setExchange, hset]
      simp [await, hnone, hc, hsame]
    | finished r => rfl
    | abandoned => rfl

/-- What an exchange is made with stays. -/
theorem made_after {events more : List Event} {k : Nat} {x x' : Exchange}
    (hx : (after events).exchanges[k]? = some x)
    (hx' : (after (events ++ more)).exchanges[k]? = some x') :
    x'.token = x.token ∧ x'.batched = x.batched := by
  induction more using List.reverseRecOn generalizing x' with
  | nil =>
    rw [List.append_nil, hx] at hx'
    rw [← Option.some.inj hx']
    exact ⟨rfl, rfl⟩
  | append_singleton more e ih =>
    obtain ⟨y, hy⟩ := exists_of_after hx more
    rw [← List.append_assoc, after_concat] at hx'
    have hb := became (valid_after _) hx'
    rw [hy] at hb
    obtain ⟨htoken, hbatched⟩ := ih hy
    rw [← htoken, ← hbatched]
    cases hb with
    | answered hsame =>
      rw [hsame]
      exact ⟨rfl, rfl⟩
    | _ => exact ⟨rfl, rfl⟩

/-- `e` withdraws exchange `k`, which is `x`, in a run of `events`: it is given up after its first
turn, or cancelled by a token that is no other's. -/
inductive Withdraws (events : List Event) (k : Nat) (x : Exchange) : Event → Prop where
  | drop (hs : x.stage ≠ .fresh) : Withdraws events k x (.drop k)
  | cancel (hown : ∀ j y, (after events).exchanges[j]? = some y → y.token = x.token → j = k) :
      Withdraws events k x (.cancel x.token)

theorem after_cons_concat (pre q : List Event) (e f : Event) :
    after (pre ++ e :: (q ++ [f])) = (after (pre ++ e :: q)).apply f := by
  rw [← after_concat, List.append_assoc, List.cons_append]

/-- The tokens that a withdrawal uses up. -/
def Event.tokens : Event → List Token
  | .cancel token => [token]
  | _ => []

/-- The others see nothing of a withdrawal. -/
theorem Withdraws.besides {c : Calls} {events : List Event} {k : Nat} {x : Exchange} {e : Event}
    (he : Withdraws events k x e) (hv : c.Valid) (hx : c.exchanges[k]? = some x) :
    (c.apply e).besides k e.tokens = c.besides k e.tokens := by
  cases he with
  | drop hs =>
    unfold apply abandon
    dsimp only
    rw [hx]
    dsimp only
    split
    · exact besides_over hv hx (hidden_setStage hs (by simp))
    · rfl
  | cancel hown => simp [apply, Calls.cancel, Calls.besides, Event.tokens]

theorem Withdraws.others {events more : List Event} {k : Nat} {x : Exchange} {e : Event}
    (he : Withdraws (events ++ more) k x e) {j : Nat} {y : Exchange} (hne : j ≠ k)
    (hy : (after events).exchanges[j]? = some y) : y.token ∉ e.tokens := by
  cases he with
  | drop => simp [Event.tokens]
  | cancel hown =>
    obtain ⟨y', hy'⟩ := exists_of_after hy more
    simp only [Event.tokens, List.mem_singleton]
    exact fun h => hne (hown j y' hy' ((made_after hy hy').1.trans h))

/-- In every pair of runs that differ by a withdrawal, an event that comes in both makes the same of
the others, if an error without an id fails the same of them in both. -/
theorem besides_apply_congr {c d : Calls} {k : Nat} {s : List Token} (hvc : c.Valid) (hvd : d.Valid)
    (hbc : c.Batches) (hbd : d.Batches) {x y : Exchange} (hx : c.exchanges[k]? = some x)
    (hy : d.exchanges[k]? = some y)
    (htokens : ∀ j z, j ≠ k → c.exchanges[j]? = some z → z.token ∉ s)
    (h : c.besides k s = d.besides k s) {e : Event}
    (he : ∀ error, e = .reject error →
      ∀ j, j ≠ k → (c.rejected? = some j ↔ d.rejected? = some j)) :
    (c.apply e).besides k s = (d.apply e).besides k s := by
  have hsame : ∀ j, j ≠ k → d.exchanges[j]? = c.exchanges[j]? := fun j hj => by
    rw [← getElem?_besides_of_ne (s := s) hj, ← h, getElem?_besides_of_ne hj]
  by_cases hreject : ∃ error, e = .reject error
  · obtain ⟨error, rfl⟩ := hreject
    have hfails := he error rfl
    have hothers : ∀ p ∈ (d.besides k s).pending, p.2.exchange ≠ k := fun p hp => by
      simpa using (List.mem_filter.1 hp).2
    have hfilter : (d.besides k s).pending.filter (fun p => c.rejected? = some p.2.exchange) =
        (d.besides k s).pending.filter fun p => d.rejected? = some p.2.exchange := by
      refine List.filter_congr fun p hp => ?_
      rw [decide_eq_decide]
      exact hfails _ (hothers p hp)
    exact (reject_besides hvc hbc hx error).trans
      (by rw [h, hfilter]; exact (reject_besides hvd hbd hy error).symm)
  · have hne : ∀ error, e ≠ .reject error := fun error he => hreject ⟨error, he⟩
    rw [apply_besides hvc hbc hx htokens hne, h,
      ← apply_besides hvd hbd hy (fun j z hj hz => htokens j z hj (by rwa [← hsame j hj])) hne]

/-! ### What an error without an id fails in the two runs -/

theorem rejected_congr {c d : Calls} (h : d.pending = c.pending) : d.rejected? = c.rejected? := by
  unfold rejected? oldestBatch?
  rw [h]

/-- The table `d` is the table `c` without exchange `k`. Errors without an id fail the same of the
others, if with `k` they would not fail `k`, or no batch is left without it. -/
theorem rejected_iff_of_others {c d : Calls} (hbc : c.Batches) (hvc : c.Valid) (hbd : d.Batches)
    (hvd : d.Valid) {k : Nat} (hothers : d.pending = c.pending.filter fun p => p.2.exchange ≠ k)
    (hk : c.rejected? = some k → ∀ j ≠ k, ¬c.PendingBatch j) {j : Nat} (hj : j ≠ k) :
    c.rejected? = some j ↔ d.rejected? = some j := by
  have hmem : ∀ p, p ∈ d.pending ↔ p ∈ c.pending ∧ p.2.exchange ≠ k := fun p => by
    rw [hothers, List.mem_filter, decide_eq_true_iff]
  have hget : ∀ i entry, d.pending.get? i = some entry →
      c.pending.get? i = some entry ∧ entry.exchange ≠ k := fun i entry hp =>
    have hmem := (hmem _).1 (Table.mem_of_get? hp)
    ⟨Table.get?_of_mem hvc.keysNodup hmem.1, hmem.2⟩
  by_cases hrejected : c.rejected? = some k
  · refine iff_of_false (by simpa [hrejected] using Ne.symm hj) fun hd => ?_
    obtain ⟨i, entry, hp, rfl, hsome, _⟩ := (rejected_eq_some_iff hbd hvd.keysNodup j).1 hd
    exact hk hrejected _ hj ((pendingBatch_iff hvc _).2 ⟨i, entry, (hget i entry hp).1, rfl, hsome⟩)
  · have hold : d.oldestBatch? = c.oldestBatch? := by
      have hsub : ∀ b ∈ d.pending.filterMap fun p => p.2.batch,
          b ∈ c.pending.filterMap fun p => p.2.batch := fun b hb => by
        obtain ⟨p, hp, hbatch⟩ := List.mem_filterMap.1 hb
        exact List.mem_filterMap.2 ⟨p, ((hmem p).1 hp).1, hbatch⟩
      cases hc : c.oldestBatch? with
      | none =>
        refine List.min?_eq_none_iff.2 (List.eq_nil_iff_forall_not_mem.2 fun b hb => ?_)
        have hnil := List.min?_eq_none_iff.1 hc
        simpa [hnil] using hsub b hb
      | some b =>
        -- the oldest batch is not that of `k`, so it is still there
        obtain ⟨hb, hle⟩ := List.min?_eq_some_iff.1 hc
        obtain ⟨p, hp, hbatch⟩ := List.mem_filterMap.1 hb
        have hne : p.2.exchange ≠ k := fun he => hrejected <|
          (rejected_eq_some_iff hbc hvc.keysNodup k).2 ⟨p.1, p.2,
            Table.get?_of_mem hvc.keysNodup hp, he, by simp [hbatch], hbatch.trans hc.symm⟩
        exact List.min?_eq_some_iff.2 ⟨List.mem_filterMap.2 ⟨p, (hmem p).2 ⟨hp, hne⟩, hbatch⟩,
          fun b' hb' => hle b' (hsub b' hb')⟩
    rw [rejected_eq_some_iff hbc hvc.keysNodup, rejected_eq_some_iff hbd hvd.keysNodup, hold]
    constructor
    · rintro ⟨i, entry, hp, rfl, h⟩
      exact ⟨i, entry, Table.get?_of_mem hvd.keysNodup ((hmem _).2 ⟨Table.mem_of_get? hp, hj⟩), rfl,
        h⟩
    · rintro ⟨i, entry, hp, rfl, h⟩
      exact ⟨i, entry, (hget i entry hp).1, rfl, h⟩

/-- An error without an id that comes after `q` would have failed exchange `k`. But the withdrawal
`e` of `k` has taken effect by then, so another batch is failed, of which calls are pending. -/
structure Diverts (pre q : List Event) (k : Nat) (e : Event) : Prop where
  oldest : (after (pre ++ q)).rejected? = some k
  other : ∃ j ≠ k, (after (pre ++ q)).PendingBatch j
  /-- A cancellation takes effect with the next turn. -/
  ended : e = .drop k ∨ .run k ∈ q

section Withdrawn

variable {pre post q : List Event} {k : Nat} {x : Exchange} {e : Event}

/-- Once a withdrawal has taken effect, nothing is pending of its exchange. -/
theorem Withdraws.not_pending (he : Withdraws (pre ++ post) k x e)
    (hx : (after pre).exchanges[k]? = some x) (hended : e = .drop k ∨ .run k ∈ q) {i : Nat}
    {entry : Entry} (hp : (after (pre ++ e :: q)).pending.get? i = some entry) :
    entry.exchange ≠ k := by
  suffices hover : ∃ y, (after (pre ++ e :: q)).exchanges[k]? = some y ∧ y.isLive = false by
    obtain ⟨y, hy, hover⟩ := hover
    exact not_pending_of_over (valid_after _) hy hover hp
  cases he with
  | drop hs =>
    have hdropped : ∃ y, (after (pre ++ [.drop k])).exchanges[k]? = some y ∧ y.isLive = false := by
      have hk := (List.getElem?_eq_some_iff.1 hx).1
      rw [after_concat]
      unfold apply abandon
      dsimp only
      rw [hx]
      dsimp only
      split
      · exact ⟨{ x with stage := .abandoned }, by simp [forget, setExchange, hk], rfl⟩
      · next hlive => exact ⟨x, hx, by simpa using hlive⟩
    obtain ⟨y, hy, hover⟩ := hdropped
    exact ⟨y, by simpa using over_after hy hover q, hover⟩
  | cancel hown =>
    obtain ⟨q₁, q₂, rfl⟩ := List.append_of_mem (hended.resolve_left (by simp))
    obtain ⟨y, hy⟩ := exists_of_after hx (.cancel x.token :: q₁)
    obtain ⟨z, hz⟩ := exists_of_after hy [.run k]
    have hcancelled : (after (pre ++ .cancel x.token :: q₁)).isCancelled y.token = true := by
      rw [(made_after hx hy).1, isCancelled_after]
      simp
    have hover : z.isLive = false := not_live_of_cancelled hy hcancelled (by
      rw [after_concat] at hz
      exact hz)
    exact ⟨z, by simpa using over_after hz hover q₂, hover⟩

/-- Before a withdrawal takes effect, the same is pending as without it. -/
theorem Withdraws.pending_eq (he : Withdraws (pre ++ post) k x e) (hq : q <+: post)
    (hended : ¬(e = .drop k ∨ .run k ∈ q)) :
    (after (pre ++ e :: q)).pending = (after (pre ++ q)).pending := by
  cases he with
  | drop hs => exact absurd (.inl rfl) hended
  | cancel hown =>
    have hown' : ∀ q', q' <+: q → ∀ j y, (after (pre ++ q')).exchanges[j]? = some y →
        y.token = x.token → j = k := by
      intro q' hq' j y hy ht
      obtain ⟨more, rfl⟩ := hq'.trans hq
      obtain ⟨z, hz⟩ := exists_of_after hy more
      rw [← List.append_assoc] at hown
      exact hown j z hz ((made_after hy hz).1.trans ht)
    obtain ⟨l, hl⟩ := after_cancel hown' fun hrun => hended (.inr hrun)
    rw [hl]
    rfl

/-- Where the other exchanges have been the same so far, an error without an id fails the same of
them in both runs, unless it is diverted. -/
theorem Withdraws.rejected_iff (he : Withdraws (pre ++ post) k x e)
    (hx : (after pre).exchanges[k]? = some x) (hq : q <+: post) {s : List Token}
    (hsame : (after (pre ++ q)).besides k s = (after (pre ++ e :: q)).besides k s)
    (hnot : ¬Diverts pre q k e) {j : Nat} (hj : j ≠ k) :
    (after (pre ++ q)).rejected? = some j ↔ (after (pre ++ e :: q)).rejected? = some j := by
  by_cases hended : e = .drop k ∨ .run k ∈ q
  · have hall : (after (pre ++ e :: q)).pending.filter (fun p => p.2.exchange ≠ k) =
        (after (pre ++ e :: q)).pending := by
      refine List.filter_eq_self.2 fun p hp => decide_eq_true ?_
      exact he.not_pending hx hended (Table.get?_of_mem (valid_after _).keysNodup hp)
    have hothers := congrArg Calls.pending hsame
    exact rejected_iff_of_others (batches_after _) (valid_after _) (batches_after _) (valid_after _)
      (hall.symm.trans hothers.symm) (fun hk j hj hp => hnot ⟨hk, ⟨j, hj, hp⟩, hended⟩) hj
  · rw [rejected_congr (he.pending_eq hq hended)]

/-- An error without an id that is diverted does not fail the same in both runs. -/
theorem Diverts.rejected_ne (h : Diverts pre q k e) (he : Withdraws (pre ++ post) k x e)
    (hx : (after pre).exchanges[k]? = some x)
    (hsame : ∀ j, j ≠ k →
      (after (pre ++ q)).exchanges[j]? = (after (pre ++ e :: q)).exchanges[j]?) :
    ∃ j, j ≠ k ∧
      ¬((after (pre ++ q)).rejected? = some j ↔ (after (pre ++ e :: q)).rejected? = some j) := by
  have hv := valid_after (pre ++ q)
  have hv' := valid_after (pre ++ e :: q)
  obtain ⟨j, hj, hpending⟩ := h.other
  obtain ⟨i, entry, hp, rfl, hsome⟩ := (pendingBatch_iff hv j).1 hpending
  obtain ⟨y, hy, hw, hi, hnone, hbatched⟩ := hv.owned i entry hp
  -- the other batch is the same, so with the withdrawal it has a pending call as well
  have hy' := (hsame _ hj).symm.trans hy
  have hkept := complete_after (pre ++ e :: q) _ y i hy' hw hi hnone
  obtain ⟨other, hp', hother⟩ := Option.map_eq_some_iff.1 hkept
  have hpending' : (after (pre ++ e :: q)).PendingBatch entry.exchange :=
    ⟨y, hy', hbatched.symm.trans hsome, (i, other), Table.mem_of_get? hp', hother⟩
  obtain ⟨l, hl⟩ := rejected_isSome_of_pendingBatch (batches_after _) hv' hpending'
  obtain ⟨i', entry', hp'', rfl, _⟩ :=
    (rejected_eq_some_iff (batches_after _) hv'.keysNodup l).1 hl
  have hl' := he.not_pending hx h.ended hp''
  refine ⟨entry'.exchange, hl', fun hiff => hl' ?_⟩
  exact (Option.some.inj (h.oldest.symm.trans (hiff.2 hl))).symm

/-- Without errors that are diverted, the others see the same at every point of both runs. -/
theorem Withdraws.besides_after (he : Withdraws (pre ++ post) k x e)
    (hx : (after pre).exchanges[k]? = some x)
    (hnot : ∀ q error, q ++ [.reject error] <+: post → ¬Diverts pre q k e) (hq : q <+: post) :
    (after (pre ++ q)).besides k e.tokens = (after (pre ++ e :: q)).besides k e.tokens := by
  induction q using List.reverseRecOn with
  | nil =>
    have h := (he.besides (valid_after pre) hx).symm
    rwa [List.append_nil, after_concat]
  | append_singleton q f ih =>
    have hq' : q <+: post := (List.prefix_append _ _).trans hq
    obtain ⟨y, hy⟩ := exists_of_after hx q
    obtain ⟨z, hz⟩ := exists_of_after hx (e :: q)
    rw [← List.append_assoc, after_concat, after_cons_concat]
    refine besides_apply_congr (valid_after _) (valid_after _) (batches_after _) (batches_after _)
      hy hz (fun i w hi hw => ?_) (ih hq') fun error hf i hi => ?_
    · obtain ⟨rest, rfl⟩ := hq'
      rw [← List.append_assoc] at he
      exact he.others hi hw
    · exact he.rejected_iff hx hq' (ih hq') (hnot q error (hf ▸ hq)) hi

/-- Only batches are diverted from. -/
theorem Diverts.batched (h : Diverts pre q k e) (hx : (after pre).exchanges[k]? = some x) :
    x.batched = true := by
  have hv := valid_after (pre ++ q)
  obtain ⟨i, entry, hp, rfl, hsome, _⟩ :=
    (rejected_eq_some_iff (batches_after _) hv.keysNodup k).1 h.oldest
  obtain ⟨y, hy, _, _, _, hbatched⟩ := hv.owned i entry hp
  rw [← (made_after hx hy).2, ← hbatched]
  exact hsome

/-- Every other exchange is the same at every point of both runs if and only if no error without an
id is diverted. So the withdrawal of a single call changes nothing for the others. -/
theorem unaffected_by_withdrawal_iff (pre post : List Event) {k : Nat} {x : Exchange}
    (hx : (after pre).exchanges[k]? = some x) {e : Event} (he : Withdraws (pre ++ post) k x e) :
    ((∀ q, q <+: post → ∀ j, j ≠ k →
      (after (pre ++ q)).exchanges[j]? = (after (pre ++ e :: q)).exchanges[j]?) ↔
    ∀ q error, q ++ [.reject error] <+: post → ¬Diverts pre q k e) ∧
    (x.batched = false → ∀ q, q <+: post → ∀ j, j ≠ k →
      (after (pre ++ q)).exchanges[j]? = (after (pre ++ e :: q)).exchanges[j]?) := by
  have hunaffected : (∀ q error, q ++ [.reject error] <+: post → ¬Diverts pre q k e) →
      ∀ q, q <+: post → ∀ j, j ≠ k →
        (after (pre ++ q)).exchanges[j]? = (after (pre ++ e :: q)).exchanges[j]? := by
    intro hnot q hq j hj
    have hbesides := he.besides_after hx hnot hq
    rw [← getElem?_besides_of_ne (s := e.tokens) hj, hbesides, getElem?_besides_of_ne hj]
  refine ⟨⟨fun hsame q error hq hdiverts => ?_, hunaffected⟩, fun hsingle => ?_⟩
  · have hbefore := hsame q ((List.prefix_append _ _).trans hq)
    obtain ⟨j, hj, hne⟩ := hdiverts.rejected_ne he hx hbefore
    have hafter := hsame _ hq j hj
    rw [← List.append_assoc, after_concat, after_cons_concat] at hafter
    rw [rejected_iff_changed (batches_after _) (valid_after _) error,
      rejected_iff_changed (batches_after _) (valid_after _) error, ← hbefore j hj] at hne
    exact hne (not_congr (Eq.congr_left hafter))
  · refine hunaffected fun q error _ hdiverts => ?_
    simp [hdiverts.batched hx] at hsingle

end Withdrawn

/-- Two batches are pending, and the younger one is cancelled. An error without an id fails the
older one, as it would have done without that. -/
theorem unaffected_by_withdrawal_of_younger :
    let ping : Call := ⟨"ping", .arr []⟩
    let invalid : ErrorObject := ⟨-32600, "Invalid request", none⟩
    let pre : List Event := [.batch [ping] (.caller 0), .batch [ping] (.caller 1), .run 0, .run 1]
    let post : List Event := [.run 1, .reject invalid, .run 0]
    ∃ x, (after (pre ++ .cancel (.caller 1) :: post)).exchanges[0]? = some x ∧
      (after (pre ++ post)).exchanges[0]? = some x ∧
      x.result? = some (.ok [.error (.protocol invalid)]) := by
  intro ping invalid pre post
  let x : Exchange := {
    calls := [ping], batched := true, token := .caller 1, ids := [2], stage := .waiting }
  have hx : (after pre).exchanges[1]? = some x := by decide
  have hown : ∀ j y, (after (pre ++ post)).exchanges[j]? = some y → y.token = x.token → j = 1 := by
    intro j y hy ht
    have htokens : (after (pre ++ post)).exchanges.map Exchange.token = [.caller 0, .caller 1] := by
      decide
    have hj : [Token.caller 0, Token.caller 1][j]? = some (.caller 1) := by
      rw [← htokens, List.getElem?_map, hy]
      exact congrArg some ht
    rcases j with _ | _ | j
    · simp at hj
    · rfl
    · simp at hj
  have hall := (unaffected_by_withdrawal_iff pre post hx (.cancel hown)).1.2 fun q error hq hd => by
    -- the only error without an id comes after the turn of the cancelled batch
    obtain rfl : q = [.run 1] := by
      obtain ⟨rest, hrest⟩ := hq
      match q with
      | [] => simp [post] at hrest
      | [a] => simp_all [post]
      | [a, b] => simp [post] at hrest
      | a :: b :: d :: q =>
        have := congrArg List.length hrest
        simp [post] at this
    have hfirst : (after (pre ++ [.run 1])).rejected? = some 0 := by decide
    simpa using hfirst.symm.trans hd.oldest
  have hend : ((after (pre ++ post)).exchanges[0]?).bind Exchange.result? =
      some (.ok [.error (.protocol invalid)]) := by decide
  obtain ⟨y, hy, hresult⟩ := Option.bind_eq_some_iff.1 hend
  exact ⟨y, (hall post (List.prefix_refl _) 0 (by simp)).symm.trans hy, hy, hresult⟩

/-- A withdrawal can make an error without an id fail the next batch; and one that comes before the
first turn leaves the ids that it would have taken to others. -/
theorem affected_by_withdrawal :
    (¬ ∀ (pre post : List Event) (k j : Nat) (x : Exchange) (e : Event),
      (after pre).exchanges[k]? = some x → Withdraws (pre ++ post) k x e → j ≠ k →
      ((after (pre ++ post)).exchanges[j]?).bind Exchange.result? =
        ((after (pre ++ e :: post)).exchanges[j]?).bind Exchange.result?) ∧
    ¬ ∀ (pre post : List Event) (k j : Nat), (∀ error, .reject error ∉ post) → j ≠ k →
      ((after (pre ++ post)).exchanges[j]?).bind Exchange.result? =
        ((after (pre ++ .drop k :: post)).exchanges[j]?).bind Exchange.result? := by
  let ping : Call := ⟨"ping", .arr []⟩
  constructor
  · intro h
    let invalid : ErrorObject := ⟨-32600, "Invalid request", none⟩
    let pre : List Event := [.batch [ping] (.caller 0), .batch [ping] (.caller 1), .run 0, .run 1]
    let x : Exchange := {
      calls := [ping], batched := true, token := .caller 0, ids := [1], stage := .waiting }
    have hsame := h pre [.reject invalid, .run 1] 0 1 x (.drop 0) (by decide)
      (.drop (by simp [x])) (by simp)
    revert hsame
    decide
  · intro h
    let pre : List Event := [.call ping (.caller 0), .call ping (.caller 1)]
    have hsame := h pre [.run 0, .run 1, .route ⟨2, .ok (.str "pong")⟩, .run 1] 0 1
      (by simp) (by simp)
    revert hsame
    decide

end NodeRpc.Calls
