import NodeRpc.Proofs.Calls.Settling

/-!
# A batch that has a connection to itself

One batch is all that is ever asked on a connection, and its frame is written well. Then the calls
of that connection are in one of three states, and a turn or the end of the write (`Event.isQuiet`)
leads from none of them to another, but for the first turn: the batch has not begun (`Unsent`), it
has its ids and waits for all answers, or it has them all (both `Sent`). A frame that answers one of
its calls leads from the second to the third, and what the batch comes to is said there.
-/

namespace NodeRpc

/-- An exchange with the answers `given` has them in the order of its calls. -/
theorem Exchange.collected?_eq {x : Exchange} {given : Option (Nat → Outcome)} (hne : x.ids ≠ [])
    (h : ∀ i ∈ x.ids, x.answers.get? i = given.map (· i)) :
    x.collected? = given.map fun f => x.ids.map f := by
  unfold collected?
  generalize x.ids = ids at hne h
  cases given with
  | none =>
    obtain ⟨i, rest, rfl⟩ := List.exists_cons_of_ne_nil hne
    rw [List.mapM_cons, h i (by simp)]
    rfl
  | some f =>
    clear hne
    induction ids with
    | nil => rfl
    | cons i ids ih =>
      have hrest := ih fun j hj => h j (by simp [hj])
      rw [List.mapM_cons, h i (by simp), hrest]
      rfl

namespace Calls

variable {calls : List Call} {token : Token} {given : Option (Nat → Outcome)} {c : Calls}
  {x : Exchange}

/-- Events by which no write fails, and nothing is given up, cancelled or closed. -/
def Event.isQuiet : Event → Bool
  | .run _ | .resume _ (.ok _) | .sink .accepts | .sink .stalls => true
  | _ => false

/-- The batch has been made and has had no turn. -/
def Unsent (calls : List Call) (token : Token) (c : Calls) : Prop :=
  ∃ sink, (∀ cause, sink ≠ .refuses cause) ∧
    c = { sink, exchanges := [{ calls, batched := true, token }] }

/-- The batch has the ids from one on and is pending, or has been answered by `given`. -/
structure Numbered (calls : List Call) (given : Option (Nat → Outcome)) (c : Calls)
    (x : Exchange) : Prop where
  closed : c.closed = false
  free : c.cancelled = []
  batched : x.batched = true
  ids : x.ids = List.range' 1 calls.length
  answers : ∀ i ∈ x.ids, x.answers.get? i = given.map (· i)
  pending : c.pending = if given.isSome then [] else x.ids.map fun i => (i, ⟨0, some 1⟩)

/-- The batch is under way, or it has come to its answers. -/
structure Sent (calls : List Call) (given : Option (Nat → Outcome)) (c : Calls) (x : Exchange) :
    Prop extends Numbered calls given c x where
  exchanges : c.exchanges = [x]
  stage : x.stage = .writing none ∨ x.stage = .writing (some (.ok ())) ∨ x.stage = .waiting ∨
    ∃ f, given = some f ∧ x.stage = .finished (.ok (x.ids.map f))

theorem Numbered.ids_ne_nil (h : Numbered calls given c x) (hne : calls ≠ []) : x.ids ≠ [] := by
  rw [h.ids]
  simpa using hne

theorem Numbered.forget (h : Numbered calls given c x) (hgiven : given.isSome = true) :
    c.forget x.ids = c := by
  have hnil : c.pending = [] := by rw [h.pending, if_pos hgiven]
  unfold Calls.forget
  rw [hnil, List.filter_nil, ← hnil]

theorem Numbered.keysNodup (h : Numbered calls none c x) : c.pending.keys.Nodup := by
  have hkeys : c.pending.keys = x.ids := by simp [h.pending, Table.keys, Function.comp_def]
  rw [hkeys, h.ids]
  exact List.nodup_range'

/-- While it has no answers, all its ids are pending. -/
theorem Numbered.pending_get? (h : Numbered calls none c x) (i : Nat) :
    c.pending.get? i = if i ∈ x.ids then some ⟨0, some 1⟩ else none := by
  rw [h.pending]
  exact Table.get?_map_const ..

/-- A turn that looks at the answers ends the batch if they are there. -/
theorem Numbered.await (h : Numbered calls given c x) (hne : calls ≠ [])
    (hone : c.exchanges.length = 1) : ∃ x', Sent calls given (c.await 0 x) x' := by
  have hset : ∀ y, c.exchanges.set 0 y = [y] := fun y => by
    obtain ⟨z, hz⟩ := List.length_eq_one_iff.1 hone
    rw [hz]
    rfl
  have hcollected := Exchange.collected?_eq (h.ids_ne_nil hne) h.answers
  unfold Calls.await
  rw [hcollected]
  cases given with
  | none =>
    refine ⟨{ x with stage := .waiting }, ?_⟩
    have hfree : c.isCancelled x.token = false := by simp [isCancelled, h.free]
    dsimp only [Option.map_none]
    rw [hfree]
    exact { h with exchanges := hset _, stage := .inr (.inr (.inl rfl)) }
  | some f =>
    refine ⟨{ x with stage := .finished (.ok (x.ids.map f)) }, ?_⟩
    dsimp only [Option.map_some]
    unfold finish
    rw [h.forget rfl]
    exact { h with exchanges := hset _, stage := .inr (.inr (.inr ⟨f, rfl, rfl⟩)) }

/-! ### Its first turn -/

theorem Unsent.quiet (h : Unsent calls token c) {e : Event} (he : e.isQuiet = true)
    (hrun : e ≠ .run 0) : Unsent calls token (c.apply e) := by
  obtain ⟨sink, hsink, rfl⟩ := h
  cases e with
  | run k =>
    cases k with
    | zero => exact absurd rfl hrun
    | succ k => exact ⟨sink, hsink, by simp [apply, run]⟩
  | resume k reply =>
    refine ⟨sink, hsink, ?_⟩
    cases k with
    | zero => rfl
    | succ k => simp [apply, resume]
  | sink sink' =>
    cases sink' with
    | refuses cause => simp [Event.isQuiet] at he
    | accepts => exact ⟨.accepts, by simp, rfl⟩
    | stalls => exact ⟨.stalls, by simp, rfl⟩
  | _ => simp [Event.isQuiet] at he

/-- The first turn takes the ids and writes the frame. -/
theorem Unsent.run (h : Unsent calls token c) (hne : calls ≠ []) :
    ∃ x, Sent calls none (c.run 0) x := by
  obtain ⟨sink, hsink, rfl⟩ := h
  let ids := List.range' 1 calls.length
  let x : Exchange := { calls, batched := true, token, ids }
  let entered : Calls := {
    sink, nextId := 1 + calls.length, nextBatch := 2
    pending := ids.map fun id => (id, ⟨0, some 1⟩)
    exchanges := [{ calls, batched := true, token }] }
  have hstart : Calls.run { sink, exchanges := [{ calls, batched := true, token }] } 0 =
      entered.write 0 x := by
    have hempty : calls.isEmpty = false := by simpa using hne
    unfold Calls.run start
    dsimp only [List.getElem?_cons_zero]
    rw [hempty]
    rfl
  have hnumbered : ∀ (written : List Outgoing) (stage : Stage),
      Numbered calls none { entered with written } { x with stage } :=
    fun _ _ => ⟨rfl, rfl, rfl, rfl, fun _ _ => rfl, rfl⟩
  rw [hstart]
  unfold write
  cases sink with
  | refuses cause => exact absurd rfl (hsink cause)
  | accepts => exact (hnumbered [x.frame] .fresh).await hne rfl
  | stalls =>
    exact ⟨_, { hnumbered [x.frame] (.writing none) with exchanges := rfl, stage := .inl rfl }⟩

/-! ### While it is under way -/

/-- A quiet event neither answers a call of the batch nor takes an answer from it. -/
theorem Sent.quiet (h : Sent calls given c x) (hne : calls ≠ []) {e : Event}
    (he : e.isQuiet = true) : ∃ x', Sent calls given (c.apply e) x' := by
  have hone : c.exchanges.length = 1 := by simp [h.exchanges]
  cases e with
  | run k =>
    cases k with
    | zero =>
      have hfree : c.isCancelled x.token = false := by simp [isCancelled, h.free]
      unfold apply Calls.run
      dsimp only
      rw [h.exchanges, List.getElem?_cons_zero]
      dsimp only
      rcases h.stage with hs | hs | hs | ⟨f, _, hs⟩
      · rw [hs]
        dsimp only
        rw [hfree]
        exact ⟨x, h⟩
      · rw [hs]
        dsimp only
        rw [hfree]
        exact h.await hne hone
      · rw [hs]
        exact h.await hne hone
      · rw [hs]
        exact ⟨x, h⟩
    | succ k =>
      have hsame : c.apply (.run (k + 1)) = c := by simp [apply, Calls.run, h.exchanges]
      rw [hsame]
      exact ⟨x, h⟩
  | resume k reply =>
    by_cases hwrites : k = 0 ∧ x.stage = .writing none
    · obtain ⟨rfl, hs⟩ := hwrites
      have hresumed : c.apply (.resume 0 reply) =
          { c with exchanges := [{ x with stage := .writing (some reply) }] } := by
        simp [apply, resume, h.exchanges, hs, setExchange]
      obtain ⟨⟨⟩, rfl⟩ : ∃ u, reply = .ok u := by
        cases reply with
        | ok u => exact ⟨u, rfl⟩
        | error cause => simp [Event.isQuiet] at he
      rw [hresumed]
      exact ⟨{ x with stage := .writing (some (.ok ())) },
        { h with exchanges := rfl, stage := .inr (.inl rfl) }⟩
    · have hsame : c.apply (.resume k reply) = c := by
        cases k with
        | zero =>
          have hs : x.stage ≠ .writing none := fun hs => hwrites ⟨rfl, hs⟩
          unfold apply resume
          dsimp only
          rw [h.exchanges, List.getElem?_cons_zero]
          dsimp only
          split
          · next hs' => exact absurd hs' hs
          · rfl
        | succ k => simp [apply, resume, h.exchanges]
      rw [hsame]
      exact ⟨x, h⟩
  | sink sink => exact ⟨x, { h with }⟩
  | _ => simp [Event.isQuiet] at he

theorem Sent.has_iff (h : Sent calls none c x) (i : Nat) :
    c.pending.has i = true ↔ i ∈ List.range' 1 calls.length := by
  rw [Table.has, h.pending_get?, ← h.ids]
  by_cases hi : i ∈ x.ids <;> simp [hi]

/-- A frame that answers one of its calls answers all of them. -/
theorem Sent.answered (h : Sent calls none c x) {responses : List Response}
    (ha : c.Answered responses) :
    ∃ x', Sent calls (some (entryOutcome responses)) (c.routeBatch responses) x' := by
  have hsole : c.Sole 1 := fun i entry hi => by
    rw [h.pending_get?] at hi
    split at hi
    · rw [← Option.some.inj hi]
    · simp at hi
  have hx : c.exchanges[0]? = some x := by simp [h.exchanges]
  obtain ⟨x', hx', hsame, hans⟩ := hsole.answers_routeBatch h.keysNodup h.closed ha hx
  have hone : (c.routeBatch responses).exchanges.length = 1 := by
    rw [routeBatch, length_answerAll, h.exchanges]
    rfl
  have hexchanges : (c.routeBatch responses).exchanges = [x'] := by
    obtain ⟨y, hy⟩ := List.length_eq_one_iff.1 hone
    rw [hy] at hx' ⊢
    rw [Option.some.inj hx']
  have hids : x'.ids = x.ids := by rw [hsame]
  have hstage : x'.stage = x.stage := by rw [hsame]
  refine ⟨x', ⟨?_, ?_, ?_, ?_, fun i hi => ?_, ?_⟩, hexchanges, ?_⟩
  · rw [routeBatch, answerAll_frame]
    exact h.closed
  · rw [routeBatch, answerAll_frame]
    exact h.free
  · rw [hsame]
    exact h.batched
  · rw [hids]
    exact h.ids
  · rw [hids] at hi
    have hpending : (c.pending.get? i).map Entry.exchange = some 0 := by
      rw [h.pending_get?, if_pos hi]
      rfl
    rw [hans, if_pos hpending]
    rfl
  · exact hsole.pending_routeBatch h.keysNodup h.closed ha
  · rcases h.stage with hs | hs | hs | ⟨f, hf, _⟩
    · exact .inl (hstage.trans hs)
    · exact .inr (.inl (hstage.trans hs))
    · exact .inr (.inr (.inl (hstage.trans hs)))
    · simp at hf

/-- It returns nothing but its answers. -/
theorem Sent.of_result? (h : Sent calls given c x) {answer : Except CallError (List Outcome)}
    (hresult : x.result? = some answer) :
    ∃ f, given = some f ∧ answer = .ok ((List.range' 1 calls.length).map f) := by
  rcases h.stage with hs | hs | hs | ⟨f, hf, hs⟩
  · simp [Exchange.result?, hs] at hresult
  · simp [Exchange.result?, hs] at hresult
  · simp [Exchange.result?, hs] at hresult
  · refine ⟨f, hf, ?_⟩
    rw [← h.ids]
    simpa [Exchange.result?, hs] using hresult.symm

/-- If nothing is left to do, an answered batch has come to its answers, unless its frame is still
being written. -/
theorem Sent.finished {f : Nat → Outcome} (h : Sent calls (some f) c x) (hne : calls ≠ [])
    (hrest : c.canRun 0 = false) (hwritten : x.stage ≠ .writing none) :
    x.stage = .finished (.ok (x.ids.map f)) := by
  have hcollected := Exchange.collected?_eq (h.ids_ne_nil hne) h.answers
  rcases h.stage with hs | hs | hs | ⟨g, hg, hs⟩
  · exact absurd hs hwritten
  · simp [canRun, h.exchanges, hs] at hrest
  · simp [canRun, h.exchanges, hs, hcollected] at hrest
  · rw [Option.some.inj hg]
    exact hs

end Calls

end NodeRpc
