import NodeRpc.Proofs.Calls.Writes

/-!
# When a cancellation takes effect

Only the turns of an exchange look at its token. Until the exchange whose token was cancelled has
its next turn, all goes as if nothing had been cancelled (`after_cancel`); with that turn the
exchange is over, whatever stage it was at (`not_live_of_cancelled`), and stays so (`over_after`).
-/

namespace NodeRpc.Calls

variable {c : Calls} {k : Nat} {x : Exchange} {l : List Token}

/-- The calls with the tokens `l` cancelled, and all else as it is. -/
def withCancelled (c : Calls) (l : List Token) : Calls := { c with cancelled := l }

/-! ### Before the turn -/

theorem await_withCancelled (h : (c.withCancelled l).isCancelled x.token = c.isCancelled x.token) :
    (c.withCancelled l).await k x = (c.await k x).withCancelled l := by
  unfold await
  rw [h]
  split
  · rfl
  · split <;> rfl

theorem write_withCancelled (h : (c.withCancelled l).isCancelled x.token = c.isCancelled x.token) :
    (c.withCancelled l).write k x = (c.write k x).withCancelled l := by
  have hsink : (c.withCancelled l).sink = c.sink := rfl
  unfold write
  rw [h, hsink]
  split
  · rfl
  · split
    · exact await_withCancelled (c := { c with written := c.written ++ [x.frame] }) h
    · rfl
    · rfl

theorem start_withCancelled (h : (c.withCancelled l).isCancelled x.token = c.isCancelled x.token) :
    (c.withCancelled l).start k x = (c.start k x).withCancelled l := by
  by_cases hne : x.calls = []
  · simp [start, hne, setExchange, withCancelled]
  · have hclosed : (c.withCancelled l).closed = c.closed := rfl
    rw [start_eq _ k x hne, start_eq c k x hne, hclosed]
    split
    · rfl
    · exact write_withCancelled (c := c.enter k x) (x := { x with ids := c.newIds k x }) h

/-- A turn asks for nothing but whether the token of its exchange is cancelled. -/
theorem run_withCancelled
    (h : ∀ x, c.exchanges[k]? = some x →
      (c.withCancelled l).isCancelled x.token = c.isCancelled x.token) :
    (c.withCancelled l).run k = (c.run k).withCancelled l := by
  have hget : (c.withCancelled l).exchanges = c.exchanges := rfl
  unfold run
  rw [hget]
  cases hx : c.exchanges[k]? with
  | none => rfl
  | some x =>
    have h := h x hx
    dsimp only
    rw [h]
    split
    · exact start_withCancelled h
    · split
      · rfl
      · split
        · rfl
        · exact await_withCancelled h
        · rfl
    · exact await_withCancelled h
    · rfl
    · rfl

theorem answerAll_withCancelled (as : Table Nat Outcome) (c : Calls) (l : List Token) :
    (c.withCancelled l).answerAll as = (c.answerAll as).withCancelled l := by
  induction as generalizing c with
  | nil => rfl
  | cons a as ih =>
    have hanswer : (c.withCancelled l).answer a.1 a.2 = (c.answer a.1 a.2).withCancelled l := by
      have hpending : (c.withCancelled l).pending = c.pending := rfl
      unfold answer
      rw [hpending]
      split <;> rfl
    rw [answerAll_cons, answerAll_cons, hanswer, ih]

theorem firstAnswers_withCancelled (responses : List Response) (c : Calls) (l : List Token) :
    (c.withCancelled l).firstAnswers responses = c.firstAnswers responses := by
  induction responses generalizing c with
  | nil => rfl
  | cons r rs ih => exact congrArg (c.answerOf r ++ ·) (ih { c with pending := _ })

/-- What an event makes of the calls does not depend on what is cancelled, but for the turns of the
exchanges whose tokens these are. -/
theorem apply_withCancelled {e : Event}
    (h : ∀ j x, e = .run j → c.exchanges[j]? = some x →
      (c.withCancelled l).isCancelled x.token = c.isCancelled x.token) :
    ∃ l', (c.withCancelled l).apply e = (c.apply e).withCancelled l' := by
  cases e with
  | run j => exact ⟨l, run_withCancelled fun x hx => h j x rfl hx⟩
  | cancel token => exact ⟨token :: l, rfl⟩
  | reserve j =>
    refine ⟨l, ?_⟩
    have hget : (c.withCancelled l).exchanges = c.exchanges := rfl
    have hreservation : (c.withCancelled l).reservation j = c.reservation j := rfl
    unfold apply reserve
    dsimp only
    rw [hget, hreservation]
    split
    · rfl
    · simp only [apply_ite (fun d : Calls => d.withCancelled l)]
      rfl
  | drop j =>
    refine ⟨l, ?_⟩
    have hget : (c.withCancelled l).exchanges = c.exchanges := rfl
    unfold apply abandon
    dsimp only
    rw [hget]
    split
    · split <;> rfl
    · rfl
  | resume j reply =>
    refine ⟨l, ?_⟩
    have hget : (c.withCancelled l).exchanges = c.exchanges := rfl
    unfold apply resume
    dsimp only
    rw [hget]
    split
    · split <;> rfl
    · rfl
  | route r => exact ⟨l, answerAll_withCancelled _ c l⟩
  | routeBatch responses =>
    refine ⟨l, ?_⟩
    have hanswers : (c.withCancelled l).batchAnswers responses = c.batchAnswers responses := by
      unfold batchAnswers
      rw [firstAnswers_withCancelled]
      rfl
    have happly : (c.withCancelled l).apply (.routeBatch responses) =
        (c.withCancelled l).answerAll (c.batchAnswers responses) := by
      rw [← hanswers]
      rfl
    rw [happly]
    exact answerAll_withCancelled _ c l
  | reject error => exact ⟨l, answerAll_withCancelled _ c l⟩
  | close =>
    refine ⟨l, ?_⟩
    have hanswers := answerAll_withCancelled
      (c.pending.keys.map fun id => (id, .error .transportClosed)) c l
    unfold apply close
    dsimp only
    have hkeys : (c.withCancelled l).pending = c.pending := rfl
    rw [hkeys, hanswers]
    rfl
  | _ => exact ⟨l, rfl⟩

/-- A cancellation changes nothing before the exchange that has the token has a turn. -/
theorem after_cancel {pre q : List Event} {t : Token}
    (hown : ∀ q', q' <+: q → ∀ j y, (after (pre ++ q')).exchanges[j]? = some y → y.token = t →
      j = k)
    (hq : .run k ∉ q) : ∃ l, after (pre ++ .cancel t :: q) = (after (pre ++ q)).withCancelled l := by
  induction q using List.reverseRecOn with
  | nil => exact ⟨t :: (after pre).cancelled, by rw [after_concat, List.append_nil]; rfl⟩
  | append_singleton q e ih =>
    rw [List.mem_append, List.mem_singleton, not_or] at hq
    obtain ⟨l, hl⟩ := ih (fun q' hq' => hown q' (hq'.trans (List.prefix_append _ _))) hq.1
    have hcons : pre ++ .cancel t :: (q ++ [e]) = pre ++ .cancel t :: q ++ [e] := by simp
    rw [hcons, after_concat, ← List.append_assoc, after_concat, hl]
    refine apply_withCancelled fun j y he hy => ?_
    -- the turn is of another exchange, which has another token
    have hne : y.token ≠ t := fun ht =>
      hq.2 (he ▸ congrArg Event.run (hown q (List.prefix_append _ _) j y hy ht).symm)
    rw [← hl, Bool.eq_iff_iff, isCancelled_after, isCancelled_after]
    simp [hne]

/-! ### With the turn, and from then on -/

theorem not_live_of_finish {d : Calls} {y x' : Exchange} {r : Except CallError (List Outcome)}
    (hk : k < d.exchanges.length) (hx' : (d.finish k y r).exchanges[k]? = some x') :
    x'.isLive = false := by
  have hget : (d.finish k y r).exchanges[k]? = some { y with stage := .finished r } := by
    simp [finish, forget, setExchange, hk]
  rw [Option.some.inj (hx'.symm.trans hget)]
  rfl

/-- An exchange is over once it has had a turn after its cancellation. -/
theorem not_live_of_cancelled {x' : Exchange} (hx : c.exchanges[k]? = some x)
    (hc : c.isCancelled x.token = true) (hx' : (c.run k).exchanges[k]? = some x') :
    x'.isLive = false := by
  have hk : k < c.exchanges.length := (List.getElem?_eq_some_iff.1 hx).1
  have hawait : (c.await k x).exchanges[k]? = some x' → x'.isLive = false := by
    unfold await
    rw [hc]
    split <;> exact not_live_of_finish hk
  unfold run at hx'
  rw [hx] at hx'
  dsimp only at hx'
  split at hx'
  · by_cases hne : x.calls = []
    · simp only [start, hne, List.isEmpty_nil, if_true, setExchange, List.getElem?_set, hk] at hx'
      rw [← Option.some.inj hx']
      rfl
    · have hlen : k < (c.enter k x).exchanges.length := by simpa [enter] using hk
      have htoken : (c.enter k x).isCancelled x.token = true := hc
      rw [start_eq c k x hne] at hx'
      unfold write at hx'
      rw [htoken] at hx'
      split at hx' <;> exact not_live_of_finish hlen hx'
  · rw [hc] at hx'
    exact not_live_of_finish hk hx'
  · exact hawait hx'
  · next r hs =>
    rw [← Option.some.inj (hx.symm.trans hx')]
    simp [Exchange.isLive, hs]
  · next hs =>
    rw [← Option.some.inj (hx.symm.trans hx')]
    simp [Exchange.isLive, hs]

/-- What is over stays over. -/
theorem over_after {events : List Event} (hx : (after events).exchanges[k]? = some x)
    (hover : x.isLive = false) (more : List Event) :
    (after (events ++ more)).exchanges[k]? = some x := by
  induction more using List.reverseRecOn with
  | nil => rwa [List.append_nil]
  | append_singleton more e ih =>
    rw [← List.append_assoc, after_concat]
    exact apply_of_over (valid_after _) ih hover e

/-- Nothing is pending of an exchange that is over. -/
theorem not_pending_of_over (hv : c.Valid) (hx : c.exchanges[k]? = some x)
    (hover : x.isLive = false) {i : Nat} {entry : Entry} (hp : c.pending.get? i = some entry) :
    entry.exchange ≠ k := by
  rintro rfl
  obtain ⟨y, hy, hw, _⟩ := hv.owned i entry hp
  rw [← Option.some.inj (hx.symm.trans hy)] at hw
  cases hs : x.stage <;> simp_all [Exchange.isUnderWay, Exchange.isLive]

end NodeRpc.Calls
