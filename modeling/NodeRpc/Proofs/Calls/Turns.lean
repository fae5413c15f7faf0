import NodeRpc.Proofs.Calls.Pending

/-!
# What a turn of an exchange does

A turn of exchange `k` changes that exchange only: its stage, and its ids if it is the first turn.
`Next` lists the stages that it can come to, and for every failure why. Turns do not answer calls,
and what they put into the table of pending calls has ids that were not spent before.
-/

namespace NodeRpc.Calls

/-- The stages to which a turn can bring `x`. -/
inductive Next (c : Calls) (x : Exchange) : Stage → Prop where
  | idle : Next c x x.stage
  | writing (hf : x.stage = .fresh) : Next c x (.writing none)
  | waiting : Next c x .waiting
  | done (outcomes : List Outcome) : Next c x (.finished (.ok outcomes))
  | cancelled (h : c.isCancelled x.token = true) : Next c x (.finished (.error .cancelled))
  | closed (hf : x.stage = .fresh) (h : c.closed = true) :
      Next c x (.finished (.error .transportClosed))
  | refused {cause : CallError} (hf : x.stage = .fresh) (h : c.sink = .refuses cause) :
      Next c x (.finished (.error cause))
  | broken {cause : CallError} (h : x.stage = .writing (some (.error cause))) :
      Next c x (.finished (.error cause))

/-- The next stages hang on the sink, on what has been cancelled and closed, and on the stage and
the token of the exchange. -/
theorem Next.congr {c c' : Calls} {x x' : Exchange} {stage : Stage} (h : Next c x stage)
    (hsink : c'.sink = c.sink) (hcancelled : c'.cancelled = c.cancelled)
    (hclosed : c'.closed = c.closed) (hstage : x'.stage = x.stage) (htoken : x'.token = x.token) :
    Next c' x' stage := by
  cases h with
  | idle => rw [← hstage]; exact .idle
  | writing hf => exact .writing (hstage.trans hf)
  | waiting => exact .waiting
  | done outcomes => exact .done outcomes
  | cancelled h =>
    unfold isCancelled at h
    rw [← hcancelled, ← htoken] at h
    exact .cancelled h
  | closed hf h => exact .closed (hstage.trans hf) (hclosed.trans h)
  | refused hf h => exact .refused (hstage.trans hf) (hsink.trans h)
  | broken h => exact .broken (hstage.trans h)

/-! ### What becomes of the exchange -/

theorem await_next (c : Calls) (k : Nat) (x : Exchange) :
    ∃ stage, Next c x stage ∧ (c.await k x).exchanges = c.exchanges.set k { x with stage } := by
  unfold await
  split
  · exact ⟨_, .done _, rfl⟩
  · split
    · next h => exact ⟨_, .cancelled h, rfl⟩
    · exact ⟨_, .waiting, rfl⟩

theorem write_next (c : Calls) (k : Nat) (x : Exchange) (hf : x.stage = .fresh) :
    ∃ stage, Next c x stage ∧ (c.write k x).exchanges = c.exchanges.set k { x with stage } := by
  unfold write
  split
  · next h => exact ⟨_, .cancelled h, rfl⟩
  · split
    · obtain ⟨stage, h, he⟩ := await_next { c with written := c.written ++ [x.frame] } k x
      exact ⟨stage, h.congr rfl rfl rfl rfl rfl, he⟩
    · next h => exact ⟨_, .refused hf h, rfl⟩
    · exact ⟨_, .writing hf, rfl⟩

/-- The first turn gives an exchange its ids and a next stage. -/
theorem start_next (c : Calls) (k : Nat) (x : Exchange) (hf : x.stage = .fresh) :
    ∃ ids stage, Next c x stage ∧
      (c.start k x).exchanges = c.exchanges.set k { x with ids, stage } := by
  by_cases hne : x.calls = []
  · exact ⟨x.ids, _, .done [], by simp [start, hne, setExchange]⟩
  · rw [start_eq c k x hne]
    have henter : (c.enter k x).exchanges =
        c.exchanges.set k { x with ids := c.newIds k x, stage := .writing none } := rfl
    split
    · next h =>
      exact ⟨c.newIds k x, _, .closed hf h, by simp [finish, forget, setExchange, henter]⟩
    · obtain ⟨stage, h, he⟩ := write_next (c.enter k x) k { x with ids := c.newIds k x } hf
      refine ⟨c.newIds k x, stage, h.congr rfl rfl rfl rfl rfl, ?_⟩
      rw [he, henter, List.set_set]

/-- A turn gives an exchange a next stage, and changes nothing else of it but the ids. -/
theorem run_next {c : Calls} {k : Nat} {x : Exchange} (hx : c.exchanges[k]? = some x) :
    ∃ ids stage, Next c x stage ∧
      (c.run k).exchanges = c.exchanges.set k { x with ids, stage } := by
  have hidle : c.exchanges.set k x = c.exchanges := by
    refine List.ext_getElem? fun j => ?_
    rw [List.getElem?_set]
    split
    · next h => subst h; split <;> simp_all
    · rfl
  unfold run
  rw [hx]
  dsimp only
  split
  · next hf => exact start_next c k x hf
  · next reply hs =>
    split
    · next h => exact ⟨_, _, .cancelled h, rfl⟩
    · split
      · exact ⟨x.ids, x.stage, .idle, hidle.symm⟩
      · obtain ⟨stage, h, he⟩ := await_next c k x
        exact ⟨x.ids, stage, h, he⟩
      · next cause => exact ⟨_, _, .broken hs, rfl⟩
  · obtain ⟨stage, h, he⟩ := await_next c k x
    exact ⟨x.ids, stage, h, he⟩
  · exact ⟨x.ids, x.stage, .idle, hidle.symm⟩
  · exact ⟨x.ids, x.stage, .idle, hidle.symm⟩

/-! ### What becomes of the rest -/

/-- What a step leaves as it was: what is cancelled and closed, the ids that are spent, and every
call that was not pending, unless its id was not spent before and the connection is open. -/
structure Keeps (c c' : Calls) : Prop where
  cancelled : c'.cancelled = c.cancelled
  closed : c'.closed = c.closed
  spent : ∀ i, c.Spent i → c'.Spent i
  pending : ∀ i, c.Spent i ∨ c.closed = true → c.pending.get? i = none →
    c'.pending.get? i = none

theorem Keeps.refl (c : Calls) : c.Keeps c := ⟨rfl, rfl, fun _ h => h, fun _ _ h => h⟩

theorem Keeps.trans {c c' c'' : Calls} (h : c.Keeps c') (h' : c'.Keeps c'') : c.Keeps c'' where
  cancelled := h'.cancelled.trans h.cancelled
  closed := h'.closed.trans h.closed
  spent i hi := h'.spent i (h.spent i hi)
  pending i hi hp := h'.pending i (hi.imp (h.spent i) fun hc => h.closed.trans hc)
    (h.pending i hi hp)

theorem setExchange_keeps (c : Calls) (k : Nat) (x : Exchange) : c.Keeps (c.setExchange k x) :=
  ⟨rfl, rfl, fun _ h => h, fun _ _ h => h⟩

theorem forget_keeps (c : Calls) (ids : List Nat) : c.Keeps (c.forget ids) := by
  refine ⟨rfl, rfl, fun _ h => h, fun i _ h => ?_⟩
  rw [pending_forget]
  split
  · rfl
  · exact h

theorem finish_keeps (c : Calls) (k : Nat) (x : Exchange) (r : Except CallError (List Outcome)) :
    c.Keeps (c.finish k x r) :=
  (c.forget_keeps x.ids).trans (setExchange_keeps _ k _)

theorem await_keeps (c : Calls) (k : Nat) (x : Exchange) : c.Keeps (c.await k x) := by
  unfold await
  split
  · exact c.finish_keeps k x _
  · split
    · exact c.finish_keeps k x _
    · exact c.setExchange_keeps k _

theorem write_keeps (c : Calls) (k : Nat) (x : Exchange) : c.Keeps (c.write k x) := by
  have hwritten : c.Keeps { c with written := c.written ++ [x.frame] } :=
    ⟨rfl, rfl, fun _ h => h, fun _ _ h => h⟩
  unfold write
  split
  · exact c.finish_keeps k x _
  · split
    · exact hwritten.trans (await_keeps _ k x)
    · exact c.finish_keeps k x _
    · exact hwritten.trans (setExchange_keeps _ k _)

theorem enter_keeps {c : Calls} (hopen : c.closed = false) (k : Nat) (x : Exchange) :
    c.Keeps (c.enter k x) := by
  refine ⟨rfl, rfl, fun _ h => spent_enter h k x, fun i hi h => ?_⟩
  rw [pending_enter, h]
  split
  · next hnew =>
    rcases hi with hi | hc
    · exact absurd hi (not_spent_of_mem_newIds hnew)
    · simp [hopen] at hc
  · rfl

/-- Ids that enter the table of a closed connection leave it in the same turn. -/
theorem enter_finish_keeps (c : Calls) (k : Nat) (x : Exchange)
    (r : Except CallError (List Outcome)) :
    c.Keeps ((c.enter k x).finish k { x with ids := c.newIds k x } r) := by
  refine ⟨rfl, rfl, fun _ h => spent_enter h k x, fun i _ h => ?_⟩
  have hp := pending_forget (c.enter k x) (c.newIds k x) i
  rw [pending_enter, h] at hp
  refine hp.trans ?_
  split <;> rfl

theorem run_keeps (c : Calls) (k : Nat) : c.Keeps (c.run k) := by
  unfold run
  split
  · exact .refl c
  · next x hx =>
    split
    · by_cases hne : x.calls = []
      · have h : c.start k x = c.setExchange k { x with stage := .finished (.ok []) } := by
          simp [start, hne]
        rw [h]
        exact c.setExchange_keeps k _
      · rw [start_eq c k x hne]
        split
        · exact c.enter_finish_keeps k x _
        · next hc => exact (enter_keeps (by simpa using hc) k x).trans (write_keeps _ k _)
    · split
      · exact c.finish_keeps k x _
      · split
        · exact .refl c
        · exact c.await_keeps k x
        · exact c.finish_keeps k x _
    · exact c.await_keeps k x
    · exact .refl c
    · exact .refl c

end NodeRpc.Calls
