import NodeRpc.Proofs.Calls.Causes

/-!
# How writes end

An exchange goes through two waits. While its frame is being written it looks at the write and at
its token only, and only a turn that sees the write end well lets it look at its answers. `Wrote`
says that a turn has seen the write end, and how; `Told` is what the stage of an exchange says
about that, and `told_after` shows it for every run. Once all answers are there, how the write ends
is all that decides what the exchange comes to.
-/

namespace NodeRpc.Calls

/-- What the next turn of exchange `k` sees of the end of its write: nothing, or what the write came
to. A cancellation ends a write too. -/
def writeEnd? (c : Calls) (k : Nat) : Option (Except CallError Unit) :=
  match c.exchanges[k]? with
  | none => none
  | some x =>
    match x.stage with
    | .fresh =>
      if x.calls.isEmpty || c.closed then none
      else if c.isCancelled x.token then some (.error .cancelled)
      else
        match c.sink with
        | .accepts => some (.ok ())
        | .refuses cause => some (.error cause)
        | .stalls => none
    | .writing reply => if c.isCancelled x.token then some (.error .cancelled) else reply
    | _ => none

/-- A turn of exchange `k` has seen its write end with `reply`. -/
def Wrote (events : List Event) (k : Nat) (reply : Except CallError Unit) : Prop :=
  ∃ pre post, events = pre ++ .run k :: post ∧ (after pre).writeEnd? k = some reply

/-- Where a turn brings an exchange that looks at its answers. -/
def awaited (c : Calls) (x : Exchange) : Stage :=
  match x.collected? with
  | some outcomes => .finished (.ok outcomes)
  | none => if c.isCancelled x.token then .finished (.error .cancelled) else .waiting

theorem awaited_cases (c : Calls) (x : Exchange) :
    c.awaited x = .waiting ∨ ∃ r, c.awaited x = .finished r := by
  unfold awaited
  split
  · exact .inr ⟨_, rfl⟩
  · split
    · exact .inr ⟨_, rfl⟩
    · exact .inl rfl

/-! ### Turns, by what they see of the write -/

/-- What a turn of exchange `k` makes of it. -/
inductive Turned (c : Calls) (k : Nat) (x : Exchange) : Exchange → Prop where
  /-- The write has ended well. -/
  | wrote (ids : List Nat) (h : c.writeEnd? k = some (.ok ()))
      (hids : x.stage ≠ .fresh → ids = x.ids) :
      Turned c k x { x with ids, stage := c.awaited { x with ids } }
  /-- The write has failed, or the exchange was cancelled meanwhile. -/
  | failed (ids : List Nat) {cause : CallError} (h : c.writeEnd? k = some (.error cause))
      (hids : x.stage ≠ .fresh → ids = x.ids) :
      Turned c k x { x with ids, stage := .finished (.error cause) }
  /-- Its first turn, and there is nothing to ask. -/
  | empty (hf : x.stage = .fresh) (hnone : x.calls = []) (h : c.writeEnd? k = none) :
      Turned c k x { x with stage := .finished (.ok []) }
  /-- Its first turn, and the connection is closed. -/
  | shut (hf : x.stage = .fresh) (hne : x.calls ≠ []) (h : c.writeEnd? k = none) :
      Turned c k x { x with ids := c.newIds k x, stage := .finished (.error .transportClosed) }
  /-- Its first turn, and the write takes its time. -/
  | begun (hf : x.stage = .fresh) (hne : x.calls ≠ []) (h : c.writeEnd? k = none) :
      Turned c k x { x with ids := c.newIds k x, stage := .writing none }
  | looked (hw : x.stage = .waiting) (h : c.writeEnd? k = none) :
      Turned c k x { x with stage := c.awaited x }
  | idle (hf : x.stage ≠ .fresh) (hw : x.stage ≠ .waiting) (h : c.writeEnd? k = none) :
      Turned c k x x

theorem exchanges_await (c : Calls) (k : Nat) (x : Exchange) :
    (c.await k x).exchanges = c.exchanges.set k { x with stage := c.awaited x } := by
  unfold await awaited
  cases x.collected? with
  | some outcomes => rfl
  | none =>
    cases hc : c.isCancelled x.token with
    | true => simp [finish, forget, setExchange]
    | false => simp [setExchange]

theorem start_turned {c : Calls} {k : Nat} {x : Exchange} (hx : c.exchanges[k]? = some x)
    (hf : x.stage = .fresh) :
    ∃ x', (c.start k x).exchanges = c.exchanges.set k x' ∧ Turned c k x x' := by
  by_cases hne : x.calls = []
  · have hend : c.writeEnd? k = none := by simp [writeEnd?, hx, hf, hne]
    exact ⟨_, by simp [start, hne, setExchange], .empty hf hne hend⟩
  · have henter : ∀ y, ((c.enter k x).setExchange k y).exchanges = c.exchanges.set k y :=
      fun y => by simp [enter, setExchange]
    have hempty : x.calls.isEmpty = false := by simpa using hne
    rw [start_eq c k x hne]
    cases hclosed : c.closed with
    | true =>
      exact ⟨_, henter _, .shut hf hne (by simp [writeEnd?, hx, hf, hclosed])⟩
    | false =>
      have htoken : (c.enter k x).isCancelled x.token = c.isCancelled x.token := rfl
      have hsink : (c.enter k x).sink = c.sink := rfl
      simp only [Bool.false_eq_true, if_false, write, htoken, hsink]
      cases hc : c.isCancelled x.token with
      | true =>
        have hend : c.writeEnd? k = some (.error .cancelled) := by
          simp [writeEnd?, hx, hf, hempty, hclosed, hc]
        exact ⟨_, henter _, .failed (c.newIds k x) hend fun h => absurd hf h⟩
      | false =>
        cases hs : c.sink with
        | accepts =>
          refine ⟨_, (exchanges_await _ k _).trans (henter _), .wrote (c.newIds k x)
            (by simp [writeEnd?, hx, hf, hempty, hclosed, hc, hs]) fun h => absurd hf h⟩
        | refuses cause =>
          have hend : c.writeEnd? k = some (.error cause) := by
            simp [writeEnd?, hx, hf, hempty, hclosed, hc, hs]
          exact ⟨_, henter _, .failed (c.newIds k x) hend fun h => absurd hf h⟩
        | stalls =>
          exact ⟨_, henter _, .begun hf hne (by simp [writeEnd?, hx, hf, hclosed, hc, hs])⟩

/-- A turn changes its exchange as `Turned` says, and no other. -/
theorem run_turned {c : Calls} {k : Nat} {x : Exchange} (hx : c.exchanges[k]? = some x) :
    ∃ x', (c.run k).exchanges = c.exchanges.set k x' ∧ Turned c k x x' := by
  have hidle : c.exchanges = c.exchanges.set k x := by
    obtain ⟨hlt, rfl⟩ := List.getElem?_eq_some_iff.1 hx
    exact (List.set_getElem_self hlt).symm
  unfold run
  rw [hx]
  dsimp only
  cases hs : x.stage with
  | fresh => exact start_turned hx hs
  | writing reply =>
    have hend : c.writeEnd? k =
        if c.isCancelled x.token then some (.error .cancelled) else reply := by
      simp [writeEnd?, hx, hs]
    have hstarted : x.stage ≠ .fresh := by simp [hs]
    cases hc : c.isCancelled x.token with
    | true =>
      rw [hc, if_pos rfl] at hend
      exact ⟨_, rfl, .failed x.ids hend fun _ => rfl⟩
    | false =>
      rw [hc] at hend
      match reply with
      | none => exact ⟨x, hidle, .idle hstarted (by simp [hs]) hend⟩
      | some (.ok ()) =>
        exact ⟨_, exchanges_await c k x, .wrote x.ids hend fun _ => rfl⟩
      | some (.error cause) => exact ⟨_, rfl, .failed x.ids hend fun _ => rfl⟩
  | waiting => exact ⟨_, exchanges_await c k x, .looked hs (by simp [writeEnd?, hx, hs])⟩
  | finished r =>
    exact ⟨x, hidle, .idle (by simp [hs]) (by simp [hs]) (by simp [writeEnd?, hx, hs])⟩
  | abandoned =>
    exact ⟨x, hidle, .idle (by simp [hs]) (by simp [hs]) (by simp [writeEnd?, hx, hs])⟩

theorem turned_of_run {c : Calls} {k : Nat} {x x' : Exchange} (hx : c.exchanges[k]? = some x)
    (hx' : (c.run k).exchanges[k]? = some x') : Turned c k x x' := by
  obtain ⟨y, hy, h⟩ := run_turned hx
  have hget := getElem?_setExchange hx y k
  rw [if_pos rfl] at hget
  rw [hy] at hx'
  obtain rfl := Option.some.inj (hget.symm.trans hx')
  exact h

/-! ### What is over -/

/-- Only exchanges under way are answered. -/
theorem answer_of_not_underWay {c : Calls} (hv : c.Valid) {k : Nat} {x : Exchange}
    (hx : c.exchanges[k]? = some x) (hw : x.isUnderWay = false) (id : Nat) (o : Outcome) :
    (c.answer id o).exchanges[k]? = some x := by
  rw [exchanges_answer, hx, Option.map_some]
  split
  · next h =>
    obtain ⟨entry, hp, rfl⟩ := Option.map_eq_some_iff.1 h
    obtain ⟨y, hy, hw', _⟩ := hv.owned id entry hp
    rw [hx] at hy
    rw [← Option.some.inj hy, hw] at hw'
    simp at hw'
  · rfl

theorem answerAll_of_not_underWay (as : Table Nat Outcome) {c : Calls} (hv : c.Valid) {k : Nat}
    {x : Exchange} (hx : c.exchanges[k]? = some x) (hw : x.isUnderWay = false) :
    (c.answerAll as).exchanges[k]? = some x := by
  induction as generalizing c with
  | nil => exact hx
  | cons a as ih => exact ih (hv.answer a.1 a.2) (answer_of_not_underWay hv hx hw a.1 a.2)

theorem exchanges_run_of_ne {c : Calls} {j k : Nat} (hne : j ≠ k) :
    (c.run j).exchanges[k]? = c.exchanges[k]? := by
  cases hx : c.exchanges[j]? with
  | none => simp [run, hx]
  | some x =>
    obtain ⟨y, hy, _⟩ := run_turned hx
    rw [hy, List.getElem?_set_ne hne]

theorem exchanges_abandon_of_ne {c : Calls} {j k : Nat} (hne : j ≠ k) :
    (c.abandon j).exchanges[k]? = c.exchanges[k]? := by
  unfold abandon
  split
  · split
    · simp [forget, setExchange, hne]
    · rfl
  · rfl

theorem exchanges_resume_of_ne {c : Calls} {j k : Nat} (hne : j ≠ k)
    (reply : Except CallError Unit) : (c.resume j reply).exchanges[k]? = c.exchanges[k]? := by
  unfold resume
  split
  · split
    · simp [setExchange, hne]
    · rfl
  · rfl

/-- What is over stays as it is. -/
theorem apply_of_over {c : Calls} (hv : c.Valid) {k : Nat} {x : Exchange}
    (hx : c.exchanges[k]? = some x) (hover : x.isLive = false) (e : Event) :
    (c.apply e).exchanges[k]? = some x := by
  have hw : x.isUnderWay = false := by
    cases hs : x.stage <;> simp_all [Exchange.isUnderWay, Exchange.isLive]
  have hlt := (List.getElem?_eq_some_iff.1 hx).1
  cases e with
  | call call token => simpa [apply, make, List.getElem?_append, hlt] using hx
  | batch calls token => simpa [apply, make, List.getElem?_append, hlt] using hx
  | reserve j => simpa [apply] using hx
  | run j =>
    by_cases hj : j = k
    · subst hj
      cases hs : x.stage <;> simp_all [apply, run, Exchange.isLive]
    · exact (exchanges_run_of_ne hj).trans hx
  | drop j =>
    by_cases hj : j = k
    · subst hj
      simp [apply, abandon, hx, hover]
    · exact (exchanges_abandon_of_ne hj).trans hx
  | cancel token => exact hx
  | sink sink => exact hx
  | resume j reply =>
    by_cases hj : j = k
    · subst hj
      cases hs : x.stage <;> simp_all [apply, resume, Exchange.isLive]
    · exact (exchanges_resume_of_ne hj reply).trans hx
  | route r => exact answerAll_of_not_underWay _ hv hx hw
  | routeBatch responses => exact answerAll_of_not_underWay _ hv hx hw
  | reject error => exact answerAll_of_not_underWay _ hv hx hw
  | close => exact answerAll_of_not_underWay _ hv hx hw

/-! ### What stays of an exchange that has begun -/

/-- What an exchange keeps from its first turn on. -/
structure Onward (x x' : Exchange) : Prop where
  started : x'.stage ≠ .fresh
  calls : x'.calls = x.calls
  batched : x'.batched = x.batched
  token : x'.token = x.token
  ids : x'.ids = x.ids
  answers : ∀ i o, x.answers.get? i = some o → x'.answers.get? i = some o

theorem Onward.refl {x : Exchange} (h : x.stage ≠ .fresh) : Onward x x :=
  ⟨h, rfl, rfl, rfl, rfl, fun _ _ h => h⟩

theorem Onward.trans {x x' x'' : Exchange} (h : Onward x x') (h' : Onward x' x'') :
    Onward x x'' :=
  ⟨h'.started, h'.calls.trans h.calls, h'.batched.trans h.batched, h'.token.trans h.token,
    h'.ids.trans h.ids, fun i o ho => h'.answers i o (h.answers i o ho)⟩

theorem Onward.collected {x x' : Exchange} (h : Onward x x') {outcomes : List Outcome}
    (hall : x.collected? = some outcomes) : x'.collected? = some outcomes := by
  unfold Exchange.collected? at hall ⊢
  rw [h.ids]
  generalize x.ids = ids at hall
  induction ids generalizing outcomes with
  | nil => exact hall
  | cons id ids ih =>
    rw [List.mapM_cons] at hall ⊢
    obtain ⟨o, ho, hrest⟩ := Option.bind_eq_some_iff.1 hall
    obtain ⟨rest, hrest, heq⟩ := Option.bind_eq_some_iff.1 hrest
    rw [h.answers id o ho]
    simp only [Option.bind_eq_bind, Option.bind_some, ih hrest]
    exact heq

/-- An exchange that has had a turn has started. -/
theorem Turned.started {c : Calls} {k : Nat} {x x' : Exchange} (h : Turned c k x x') :
    x'.stage ≠ .fresh := by
  have hawaited : ∀ y, c.awaited y ≠ .fresh := by
    intro y
    rcases c.awaited_cases y with h | ⟨r, h⟩ <;> simp [h]
  cases h with
  | wrote => exact hawaited _
  | looked => exact hawaited _
  | idle hf => exact hf
  | _ => simp

theorem Turned.calls {c : Calls} {k : Nat} {x x' : Exchange} (h : Turned c k x x') :
    x'.calls = x.calls := by
  cases h <;> rfl

theorem Turned.onward {c : Calls} {k : Nat} {x x' : Exchange} (h : Turned c k x x')
    (hs : x.stage ≠ .fresh) : Onward x x' := by
  have hstarted := h.started
  cases h with
  | wrote ids _ hids => exact ⟨hstarted, rfl, rfl, rfl, hids hs, fun _ _ h => h⟩
  | failed ids _ hids => exact ⟨hstarted, rfl, rfl, rfl, hids hs, fun _ _ h => h⟩
  | empty hf => exact absurd hf hs
  | shut hf => exact absurd hf hs
  | begun hf => exact absurd hf hs
  | looked => exact ⟨hstarted, rfl, rfl, rfl, rfl, fun _ _ h => h⟩
  | idle => exact .refl hs

theorem onward_apply {c : Calls} (hv : c.Valid) {e : Event} {k : Nat} {x x' : Exchange}
    (hx : c.exchanges[k]? = some x) (hs : x.stage ≠ .fresh)
    (hx' : (c.apply e).exchanges[k]? = some x') : Onward x x' := by
  have hb := became hv hx'
  rw [hx] at hb
  cases hb with
  | same => exact .refl hs
  | turned ids he hnext =>
    subst he
    exact (turned_of_run hx hx').onward hs
  | dropped he => exact ⟨by simp, rfl, rfl, rfl, rfl, fun _ _ h => h⟩
  | resumed he hw => exact ⟨by simp, rfl, rfl, rfl, rfl, fun _ _ h => h⟩
  | answered hsame hold hnew =>
    rw [hsame]
    exact ⟨hs, rfl, rfl, rfl, rfl, hold⟩

theorem length_answerAll (as : Table Nat Outcome) (c : Calls) :
    (c.answerAll as).exchanges.length = c.exchanges.length := by
  induction as generalizing c with
  | nil => rfl
  | cons a as ih =>
    rw [answerAll_cons, ih]
    unfold answer
    split <;> simp

/-- What `exchanges_answerAll` says, for an exchange that is there before the answers. -/
theorem exists_answerAll (as : Table Nat Outcome) {c : Calls} {k : Nat} {x : Exchange}
    (hx : c.exchanges[k]? = some x) :
    ∃ x', (c.answerAll as).exchanges[k]? = some x' ∧ x.Answered x' ∧ ∀ i, x'.answers.get? i =
      if (c.pending.get? i).map Entry.exchange = some k
      then (as.get? i).or (x.answers.get? i) else x.answers.get? i := by
  have hlt : k < (c.answerAll as).exchanges.length := by
    rw [length_answerAll]
    exact (List.getElem?_eq_some_iff.1 hx).1
  have hx' := List.getElem?_eq_getElem hlt
  obtain ⟨y, hy, hsame, hans⟩ := exchanges_answerAll as c k hx'
  obtain rfl := Option.some.inj (hx.symm.trans hy)
  exact ⟨_, hx', hsame, hans⟩

/-- Exchanges stay in the list, and only calls and batches add one. -/
theorem length_apply (c : Calls) (e : Event) :
    (c.apply e).exchanges.length =
      match e with
      | .call .. | .batch .. => c.exchanges.length + 1
      | _ => c.exchanges.length := by
  cases e with
  | call call token => simp [apply, make]
  | batch calls token => simp [apply, make]
  | reserve k => simp [apply]
  | run k =>
    cases hx : c.exchanges[k]? with
    | none => simp [apply, run, hx]
    | some x =>
      obtain ⟨y, hy, _⟩ := run_turned hx
      simp [apply, hy]
  | drop k =>
    unfold apply abandon
    dsimp only
    split
    · split <;> simp [forget, setExchange]
    · rfl
  | cancel token => rfl
  | sink sink => rfl
  | resume k reply =>
    unfold apply resume
    dsimp only
    split
    · split <;> simp [setExchange]
    · rfl
  | route r => exact length_answerAll _ c
  | routeBatch responses => exact length_answerAll _ c
  | reject error => exact length_answerAll _ c
  | close => exact length_answerAll _ c

theorem length_le_apply (c : Calls) (e : Event) :
    c.exchanges.length ≤ (c.apply e).exchanges.length := by
  rw [length_apply]
  split <;> omega

theorem exists_of_after {events : List Event} {k : Nat} {x : Exchange}
    (hx : (after events).exchanges[k]? = some x) (more : List Event) :
    ∃ x', (after (events ++ more)).exchanges[k]? = some x' := by
  have hlt : k < (after (events ++ more)).exchanges.length := by
    induction more using List.reverseRecOn with
    | nil => simpa using (List.getElem?_eq_some_iff.1 hx).1
    | append_singleton more e ih =>
      rw [← List.append_assoc, after_concat]
      exact Nat.lt_of_lt_of_le ih (length_le_apply _ e)
  exact ⟨_, List.getElem?_eq_getElem hlt⟩

/-- What an exchange that has begun keeps, whatever happens. -/
theorem onward_after {events more : List Event} {k : Nat} {x x' : Exchange}
    (hx : (after events).exchanges[k]? = some x) (hs : x.stage ≠ .fresh)
    (hx' : (after (events ++ more)).exchanges[k]? = some x') : Onward x x' := by
  induction more using List.reverseRecOn generalizing x' with
  | nil =>
    rw [List.append_nil, hx] at hx'
    rw [← Option.some.inj hx']
    exact .refl hs
  | append_singleton more e ih =>
    obtain ⟨y, hy⟩ := exists_of_after hx more
    rw [← List.append_assoc, after_concat] at hx'
    exact (ih hy).trans (onward_apply (valid_after _) hy (ih hy).started hx')

theorem Turned.not_abandoned {c : Calls} {k : Nat} {x x' : Exchange} (h : Turned c k x x')
    (hs : x.stage ≠ .abandoned) : x'.stage ≠ .abandoned := by
  have hawaited : ∀ y, c.awaited y ≠ .abandoned := by
    intro y
    rcases c.awaited_cases y with h | ⟨r, h⟩ <;> simp [h]
  cases h with
  | wrote => exact hawaited _
  | looked => exact hawaited _
  | idle => exact hs
  | _ => simp

/-- An exchange that was not given up is not abandoned. -/
theorem not_abandoned_after {events more : List Event} {k : Nat} {x x' : Exchange}
    (hx : (after events).exchanges[k]? = some x) (hs : x.stage ≠ .abandoned)
    (hdrop : .drop k ∉ more) (hx' : (after (events ++ more)).exchanges[k]? = some x') :
    x'.stage ≠ .abandoned := by
  induction more using List.reverseRecOn generalizing x' with
  | nil =>
    rw [List.append_nil, hx] at hx'
    rwa [← Option.some.inj hx']
  | append_singleton more e ih =>
    obtain ⟨y, hy⟩ := exists_of_after hx more
    have hstay := ih (fun h => hdrop (List.mem_append_left _ h)) hy
    rw [← List.append_assoc, after_concat] at hx'
    have hb := became (valid_after _) hx'
    rw [hy] at hb
    cases hb with
    | same => exact hstay
    | turned ids he hnext =>
      subst he
      exact (turned_of_run hy hx').not_abandoned hstay
    | dropped he => exact absurd (List.mem_append_right _ (by simp [he])) hdrop
    | resumed he hw => simp
    | answered hsame hold hnew =>
      rw [hsame]
      exact hstay

/-! ### What the stage says about the write -/

theorem wrote_concat (events : List Event) (e : Event) (k : Nat) (reply : Except CallError Unit) :
    Wrote (events ++ [e]) k reply ↔
      Wrote events k reply ∨ e = .run k ∧ (after events).writeEnd? k = some reply := by
  constructor
  · rintro ⟨pre, post, h, hend⟩
    rcases List.eq_nil_or_concat post with rfl | ⟨post, e', rfl⟩
    · obtain ⟨rfl, rfl⟩ : events = pre ∧ e = .run k := by simpa using h
      exact .inr ⟨rfl, hend⟩
    · have h' : events ++ [e] = (pre ++ .run k :: post) ++ [e'] := by simpa using h
      obtain ⟨rfl, _⟩ := List.append_inj' h' rfl
      exact .inl ⟨pre, post, rfl, hend⟩
  · rintro (⟨pre, post, rfl, hend⟩ | ⟨rfl, hend⟩)
    · exact ⟨pre, post ++ [e], by simp, hend⟩
    · exact ⟨events, [], by simp, hend⟩

/-- Before an exchange is made, no turn has seen its write end. -/
theorem not_wrote_of_absent {events : List Event} {k : Nat}
    (hx : (after events).exchanges[k]? = none) (reply : Except CallError Unit) :
    ¬ Wrote events k reply := by
  rintro ⟨pre, post, rfl, hend⟩
  cases hy : (after pre).exchanges[k]? with
  | none => simp [writeEnd?, hy] at hend
  | some y =>
    obtain ⟨y', hy'⟩ := exists_of_after hy (.run k :: post)
    rw [hx] at hy'
    simp at hy'

/-- What the stage of exchange `k` says about the end of its write. -/
def Told (events : List Event) (k : Nat) (x : Exchange) : Prop :=
  match x.stage with
  | .fresh => ∀ reply, ¬ Wrote events k reply
  | .writing _ => x.calls ≠ [] ∧ ∀ reply, ¬ Wrote events k reply
  | .waiting => x.calls ≠ [] ∧ ∀ reply, Wrote events k reply ↔ reply = .ok ()
  | .finished (.ok _) => x.calls ≠ [] → ∀ reply, Wrote events k reply ↔ reply = .ok ()
  | .finished (.error cause) =>
    x.collected? = none ∨ ∀ reply, Wrote events k reply ↔ reply = .error cause
  | .abandoned => True

theorem told_awaited {events : List Event} {k : Nat} {c : Calls} {x : Exchange}
    (hne : x.calls ≠ []) (h : ∀ reply, Wrote events k reply ↔ reply = .ok ()) :
    Told events k { x with stage := c.awaited x } := by
  unfold awaited
  split
  · exact fun _ => h
  · next hnone =>
    split
    · exact .inl hnone
    · exact ⟨hne, h⟩

/-- A turn keeps `Told`: it sees the end of a write only where none has been seen before. -/
theorem Told.turned {events : List Event} {k : Nat} {x x' : Exchange} (h : Told events k x)
    (hv : (after events).Valid) (hx : (after events).exchanges[k]? = some x)
    (ht : Turned (after events) k x x') : Told (events ++ [.run k]) k x' := by
  have hwrote : ∀ reply, Wrote (events ++ [.run k]) k reply ↔
      Wrote events k reply ∨ (after events).writeEnd? k = some reply := by
    intro reply
    simp [wrote_concat]
  have hnever : ∀ {reply}, (after events).writeEnd? k = some reply →
      ∀ reply', Wrote (events ++ [.run k]) k reply' ↔ reply' = reply := by
    intro reply hend reply'
    have hnot : ¬ Wrote events k reply' := by
      unfold Told at h
      cases hs : x.stage with
      | fresh => simp only [hs] at h; exact h reply'
      | writing r => simp only [hs] at h; exact h.2 reply'
      | _ => simp [writeEnd?, hx, hs] at hend
    rw [hwrote, hend, Option.some.injEq]
    exact ⟨fun h => (h.resolve_left hnot).symm, fun h => .inr h.symm⟩
  have hsame : (after events).writeEnd? k = none →
      ∀ reply, Wrote (events ++ [.run k]) k reply ↔ Wrote events k reply := by
    intro hend reply
    simp [hwrote, hend]
  cases ht with
  | wrote ids hend hids =>
    have hne : x.calls ≠ [] := by
      unfold Told at h
      cases hs : x.stage with
      | fresh =>
        intro hnone
        simp [writeEnd?, hx, hs, hnone] at hend
      | writing r => simp only [hs] at h; exact h.1
      | _ => simp [writeEnd?, hx, hs] at hend
    exact told_awaited (x := { x with ids }) hne (hnever hend)
  | failed ids hend hids => exact .inr (hnever hend)
  | empty hf hnone hend => exact fun hne => absurd hnone hne
  | shut hf hne hend =>
    -- it has ids, and none of them is answered
    have hans := ((hv.exchange k x hx).untaken hf).2
    have hlength := length_newIds hv.reserves hx
    have hsome : (after events).newIds k x ≠ [] := by
      rwa [← List.length_pos_iff, hlength, List.length_pos_iff]
    obtain ⟨i, ids, hids⟩ := List.exists_cons_of_ne_nil hsome
    refine .inl ?_
    simp [Exchange.collected?, hids, hans, Table.get?]
  | begun hf hne hend =>
    refine ⟨hne, fun reply hw => ?_⟩
    simp only [Told, hf] at h
    exact h reply ((hsame hend reply).1 hw)
  | looked hw hend =>
    simp only [Told, hw] at h
    exact told_awaited h.1 fun reply => (hsame hend reply).trans (h.2 reply)
  | idle hf hw hend =>
    unfold Told at h ⊢
    simp only [hsame hend]
    exact h

theorem told_after (events : List Event) {k : Nat} {x : Exchange}
    (hx : (after events).exchanges[k]? = some x) : Told events k x := by
  induction events using List.reverseRecOn generalizing x with
  | nil => simp [after] at hx
  | append_singleton events e ih =>
    rw [after_concat] at hx
    have hv := valid_after events
    have hb := became hv hx
    by_cases he : e = .run k
    · subst he
      cases hy : (after events).exchanges[k]? with
      | none => simp [apply, run, hy] at hx
      | some y => exact (ih hy).turned hv hy (turned_of_run hy hx)
    · have hsame : ∀ reply, Wrote (events ++ [e]) k reply ↔ Wrote events k reply := by
        intro reply
        simp [wrote_concat, he]
      have hcongr : ∀ {y}, Told events k y → Told (events ++ [e]) k y := by
        intro y h
        unfold Told at h ⊢
        simp only [hsame]
        exact h
      generalize hy : (after events).exchanges[k]? = o at hb
      cases hb with
      | made calls batched token =>
        exact fun reply hw => not_wrote_of_absent hy reply ((hsame reply).1 hw)
      | same => exact hcongr (ih hy)
      | turned ids he' => exact absurd he' he
      | dropped => trivial
      | @resumed y reply he' hw =>
        have h := ih hy
        simp only [Told, hw] at h
        exact ⟨h.1, fun r hr => h.2 r ((hsame r).1 hr)⟩
      | @answered y x' hans =>
        cases hlive : y.isLive with
        | false =>
          obtain rfl := Option.some.inj (hx.symm.trans (apply_of_over hv hy hlive e))
          exact hcongr (ih hy)
        | true =>
          have h := hcongr (ih hy)
          rw [hans]
          unfold Told at h ⊢
          cases hs : y.stage <;> simp_all [Exchange.isLive]

/-! ### Exchanges that have all their answers -/

/-- An exchange that has all its answers, was not given up and has nothing more to do is writing
still, or it has come to what its write came to. -/
theorem ends_as_written (pre post : List Event) {k : Nat} {x x' : Exchange}
    {outcomes : List Outcome} (hx : (after pre).exchanges[k]? = some x)
    (hw : x.isUnderWay = true) (hall : x.collected? = some outcomes) (hdrop : .drop k ∉ post)
    (hx' : (after (pre ++ post)).exchanges[k]? = some x')
    (hrest : (after (pre ++ post)).canRun k = false) :
    (x'.stage = .writing none ∧ (after (pre ++ post)).isCancelled x.token = false ∧
      ∀ reply, ¬ Wrote (pre ++ post) k reply) ∨
    ∃ reply, x'.stage = .finished (reply.map fun _ => outcomes) ∧
      ∀ reply', Wrote (pre ++ post) k reply' ↔ reply' = reply := by
  have hstarted : x.stage ≠ .fresh := by rintro h; simp [Exchange.isUnderWay, h] at hw
  have hkept : x.stage ≠ .abandoned := by rintro h; simp [Exchange.isUnderWay, h] at hw
  have honward := onward_after hx hstarted hx'
  have hall' := honward.collected hall
  have hne : x'.calls ≠ [] := by
    have h := told_after pre hx
    rw [honward.calls]
    unfold Told at h
    cases hs : x.stage <;> simp_all [Exchange.isUnderWay]
  have htold := told_after (pre ++ post) hx'
  have hnot := not_abandoned_after hx hkept hdrop hx'
  unfold Told at htold
  cases hs : x'.stage with
  | fresh => exact absurd hs honward.started
  | writing reply =>
    simp only [hs] at htold
    simp only [canRun, hx', hs, Bool.or_eq_false_iff, Option.isSome_eq_false_iff,
      Option.isNone_iff_eq_none] at hrest
    rw [hrest.1, ← honward.token]
    exact .inl ⟨rfl, hrest.2, htold.2⟩
  | waiting => simp [canRun, hx', hs, hall'] at hrest
  | finished r =>
    cases r with
    | ok outcomes' =>
      simp only [hs] at htold
      have heq := ((valid_after _).exchange k x' hx').collected outcomes' hs
      rw [hall'] at heq
      rw [← Option.some.inj heq]
      exact .inr ⟨.ok (), rfl, htold hne⟩
    | error cause =>
      simp only [hs, hall', reduceCtorEq, false_or] at htold
      exact .inr ⟨.error cause, rfl, htold⟩
  | abandoned => exact absurd hs hnot

/-- An exchange that has all its answers, was not given up and has nothing more to do has come to
these answers if and only if a turn has seen its write end well, and has failed if and only if a
turn has seen its write fail, for the same cause; a cancellation counts as such a failure only
while the exchange is writing. -/
theorem returns_answers_iff (pre post : List Event) {k : Nat} {x x' : Exchange}
    {outcomes : List Outcome} (hx : (after pre).exchanges[k]? = some x)
    (hw : x.isUnderWay = true) (hall : x.collected? = some outcomes) (hdrop : .drop k ∉ post)
    (hx' : (after (pre ++ post)).exchanges[k]? = some x')
    (hrest : (after (pre ++ post)).canRun k = false) :
    (x'.stage = .finished (.ok outcomes) ↔ Wrote (pre ++ post) k (.ok ())) ∧
    ∀ cause, x'.stage = .finished (.error cause) ↔ Wrote (pre ++ post) k (.error cause) := by
  rcases ends_as_written pre post hx hw hall hdrop hx' hrest with
    ⟨hs, _, hnot⟩ | ⟨reply, hs, hwrote⟩
  · rw [hs]
    exact ⟨iff_of_false (by simp) (hnot _), fun cause => iff_of_false (by simp) (hnot _)⟩
  · rw [hs]
    cases reply with
    | ok u => exact ⟨by simp [hwrote, Except.map], fun cause => by simp [hwrote, Except.map]⟩
    | error cause' =>
      exact ⟨by simp [hwrote, Except.map], fun cause => by simp [hwrote, Except.map, eq_comm]⟩

/-- Both calls of a batch are answered while its frame is being written. The write ends well before
the token is cancelled, so the batch comes to its answers. -/
theorem returns_answers_of_batch :
    let ping : Call := ⟨"ping", .arr []⟩
    let pre : List Event := [.sink .stalls, .batch [ping, ping] (.caller 0), .run 0,
      .routeBatch [⟨2, .ok (.str "second")⟩, ⟨1, .ok (.str "first")⟩]]
    let post : List Event := [.resume 0 (.ok ()), .run 0, .cancel (.caller 0)]
    ((after (pre ++ post)).exchanges[0]?).map Exchange.stage =
      some (.finished (.ok [.ok (.str "first"), .ok (.str "second")])) := by
  intro ping pre post
  let x : Exchange := {
    calls := [ping, ping], batched := true, token := .caller 0, ids := [1, 2]
    answers := [(2, .ok (.str "second")), (1, .ok (.str "first"))]
    stage := .writing none }
  have hx : (after pre).exchanges[0]? = some x := by decide
  obtain ⟨x', hx'⟩ := exists_of_after hx post
  have hwrote : Wrote (pre ++ post) 0 (.ok ()) :=
    ⟨pre ++ [.resume 0 (.ok ())], [.cancel (.caller 0)], rfl, by decide⟩
  rw [hx', Option.map_some]
  exact congrArg some ((returns_answers_iff pre post hx rfl (by decide) (by decide) hx'
    (by decide)).1.2 hwrote)

/-- A response that has been routed is lost where the token is cancelled while the frame is being
written, even if the write ends well before the next turn. -/
theorem answer_lost_to_cancellation :
    ¬ ∀ (pre post : List Event) (k : Nat) (x x' : Exchange) (outcomes : List Outcome),
      (after pre).exchanges[k]? = some x → x.isUnderWay = true → x.collected? = some outcomes →
      .cancel x.token ∉ pre → .drop k ∉ post → (after (pre ++ post)).exchanges[k]? = some x' →
      (after (pre ++ post)).canRun k = false → x'.stage ≠ .finished (.error .cancelled) := by
  intro h
  let ping : Call := ⟨"ping", .arr []⟩
  let x : Exchange := {
    calls := [ping], batched := false, token := .caller 0, ids := [1]
    answers := [(1, .ok (.int 7))], stage := .writing none }
  exact h
    [.sink .stalls, .call ping (.caller 0), .run 0, .route ⟨1, .ok (.int 7)⟩]
    [.cancel (.caller 0), .resume 0 (.ok ()), .run 0] 0 x
    { x with stage := .finished (.error .cancelled) } [.ok (.int 7)]
    (by decide) rfl (by decide) (by decide) (by decide) (by decide) (by decide) rfl

end NodeRpc.Calls
