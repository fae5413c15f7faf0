import NodeRpc.Proofs.Calls.Steps

/-!
# Every outcome has a cause

Whatever a call comes to goes back to an event of its own: to the first response that came while the
call was pending, to a frame or an error without an id that was meant for its batch, to the end of
its own write, to the cancellation of its token, or to the end of the connection. `Cause` lists
these. Ids are never shared, so no response completes two calls, and a batch has one outcome per
call, in the order of the calls.
-/

namespace NodeRpc

/-- What call `j` of a finished exchange came to: an exchange that fails fails all its calls. -/
def Exchange.outcomeAt? (x : Exchange) (j : Nat) : Option Outcome :=
  match x.stage with
  | .finished (.ok outcomes) => outcomes[j]?
  | .finished (.error cause) => if j < x.calls.length then some (.error cause) else none
  | _ => none

namespace Calls

/-- An event of the run answered the call `id` with `o` while it was pending, and no event before it
brought a response to `id` while that was pending. -/
def AnsweredBy (events : List Event) (id : Nat) (o : Outcome) : Prop :=
  ∃ pre e post, events = pre ++ e :: post ∧ (after pre).pending.has id = true ∧
    Answers (after pre) id e o ∧
    ∀ pre' e' post', pre = pre' ++ e' :: post' → (after pre').pending.has id = true →
      responseTo? e'.responses id = none

/-- Why exchange `k`, made with `token`, failed as a whole. -/
inductive Failure (events : List Event) (k : Nat) (token : Token) : CallError → Prop where
  /-- The connection did not take its frame. -/
  | refused (pre post : List Event) {x : Exchange} {cause : CallError}
      (h : events = pre ++ .run k :: post) (hx : (after pre).exchanges[k]? = some x)
      (hf : x.stage = .fresh) (hs : (after pre).sink = .refuses cause) :
      Failure events k token cause
  /-- The write of its frame ended in an error. -/
  | broken (pre post : List Event) {x : Exchange} {cause : CallError}
      (h : events = pre ++ .resume k (.error cause) :: post)
      (hx : (after pre).exchanges[k]? = some x) (hw : x.stage = .writing none) :
      Failure events k token cause
  | cancelled (h : .cancel token ∈ events) : Failure events k token .cancelled
  | closed (h : .close ∈ events) : Failure events k token .transportClosed

/-- Why the call `id` of exchange `k` came to an outcome. -/
inductive Cause (events : List Event) (k : Nat) (token : Token) (id : Nat) : Outcome → Prop where
  | answer {o : Outcome} (h : AnsweredBy events id o) : Cause events k token id o
  | failure {cause : CallError} (h : Failure events k token cause) :
      Cause events k token id (.error cause)

/-! ### Causes stay -/

theorem AnsweredBy.concat {events : List Event} {id : Nat} {o : Outcome}
    (h : AnsweredBy events id o) (e : Event) : AnsweredBy (events ++ [e]) id o := by
  obtain ⟨pre, e', post, rfl, h⟩ := h
  exact ⟨pre, e', post ++ [e], by simp, h⟩

theorem Failure.concat {events : List Event} {k : Nat} {token : Token} {cause : CallError}
    (h : Failure events k token cause) (e : Event) : Failure (events ++ [e]) k token cause := by
  cases h with
  | refused pre post h hx hf hs => exact .refused pre (post ++ [e]) (by rw [h]; simp) hx hf hs
  | broken pre post h hx hw => exact .broken pre (post ++ [e]) (by rw [h]; simp) hx hw
  | cancelled h => exact .cancelled (List.mem_append_left _ h)
  | closed h => exact .closed (List.mem_append_left _ h)

/-! ### What the state knows of the run -/

theorem closed_after (events : List Event) : (after events).closed = true ↔ .close ∈ events := by
  induction events using List.reverseRecOn with
  | nil => simp [after]
  | append_singleton events e ih => rw [after_concat, closed_apply, ih]; simp [eq_comm]

theorem isCancelled_after (events : List Event) (t : Token) :
    (after events).isCancelled t = true ↔ .cancel t ∈ events := by
  induction events using List.reverseRecOn with
  | nil => simp [after, isCancelled]
  | append_singleton events e ih => rw [after_concat, isCancelled_apply, ih]; simp [eq_comm]

/-- While a call is pending, no response to it has come. -/
theorem no_response_while_pending {events : List Event} {id : Nat}
    (hp : (after events).pending.has id = true) {pre : List Event} {e : Event} {post : List Event}
    (h : events = pre ++ e :: post) (hpre : (after pre).pending.has id = true) :
    responseTo? e.responses id = none := by
  cases hr : responseTo? e.responses id with
  | none => rfl
  | some r =>
    exfalso
    obtain ⟨entry, hentry⟩ := Option.isSome_iff_exists.1 hpre
    have hopen : (after pre).closed = false := by
      cases hc : (after pre).closed with
      | false => rfl
      | true =>
        rw [pending_of_closed pre hc id] at hentry
        simp at hentry
    have hspent : (after (pre ++ [e])).Spent id := by
      rw [after_concat]
      exact spent_apply ((valid_after pre).spent_of_pending hentry) e
    have hgone : (after (pre ++ [e])).pending.get? id = none := by
      rw [after_concat]
      exact gone_of_response hopen (by simp [hr])
    have hlater := gone_after (.inl hspent) hgone post
    rw [List.append_assoc, List.singleton_append, ← h] at hlater
    simp [Table.has, hlater] at hp

/-- Every answer and every failure that the state holds has its cause in the run. -/
structure Accounted (events : List Event) : Prop where
  answer : ∀ (k : Nat) (x : Exchange) (i : Nat) (o : Outcome),
    (after events).exchanges[k]? = some x → x.answers.get? i = some o → AnsweredBy events i o
  failure : ∀ (k : Nat) (x : Exchange) (cause : CallError), (after events).exchanges[k]? = some x →
    x.stage = .finished (.error cause) → Failure events k x.token cause
  broken : ∀ (k : Nat) (x : Exchange) (cause : CallError), (after events).exchanges[k]? = some x →
    x.stage = .writing (some (.error cause)) → Failure events k x.token cause

theorem accounted_concat {events : List Event} (h : Accounted events) (e : Event) :
    Accounted (events ++ [e]) := by
  have hv := valid_after events
  refine ⟨fun k x' i o hx' ho => ?_, fun k x' cause hx' hs => ?_, fun k x' cause hx' hs => ?_⟩ <;>
    rw [after_concat] at hx' <;> have hb := became hv hx' <;>
    generalize hx : (after events).exchanges[k]? = x at hb
  · -- answers
    cases hb with
    | made => simp [Table.get?] at ho
    | answered hsame hold hnew =>
      rcases hnew i o ho with ho | ⟨hp, ha⟩
      · exact (h.answer k _ i o hx ho).concat e
      · exact ⟨events, e, [], by simp, hp, ha, fun pre' e' post' he hp' =>
          no_response_while_pending hp he hp'⟩
    | _ => exact (h.answer k _ i o hx ho).concat e
  · -- failures
    cases hb with
    | same x => exact (h.failure k x' cause hx hs).concat e
    | turned ids he hnext =>
      subst he hs
      generalize hstage : Stage.finished (.error cause) = stage at hnext
      cases hnext with
      | idle => exact (h.failure k _ cause hx hstage.symm).concat _
      | cancelled hc =>
        cases hstage
        exact .cancelled (List.mem_append_left _ ((isCancelled_after events _).1 hc))
      | closed hf hc =>
        cases hstage
        exact .closed (List.mem_append_left _ ((closed_after events).1 hc))
      | refused hf hr =>
        cases hstage
        exact .refused events [] (by simp) hx hf hr
      | broken hw =>
        cases hstage
        exact (h.broken k _ cause hx hw).concat _
      | _ => simp at hstage
    | answered hsame hold hnew =>
      rw [hsame] at hs ⊢
      exact (h.failure k _ cause hx hs).concat e
    | _ => simp at hs
  · -- writes that have ended
    cases hb with
    | same x => exact (h.broken k x' cause hx hs).concat e
    | turned ids he hnext =>
      subst hs
      generalize hstage : Stage.writing (some (.error cause)) = stage at hnext
      cases hnext with
      | idle => exact (h.broken k _ cause hx hstage.symm).concat e
      | _ => simp at hstage
    | resumed he hw =>
      cases hs
      subst he
      exact .broken events [] (by simp) hx hw
    | answered hsame hold hnew =>
      rw [hsame] at hs ⊢
      exact (h.broken k _ cause hx hs).concat e
    | _ => simp at hs

theorem accounted (events : List Event) : Accounted events := by
  induction events using List.reverseRecOn with
  | nil => exact ⟨by simp [after], by simp [after], by simp [after]⟩
  | append_singleton events e ih => exact accounted_concat ih e

/-! ### Outcomes by position -/

/-- All answers that are there, at the places of their ids. -/
theorem getElem?_collected {ids : List Nat} {answers : Table Nat Outcome} {outcomes : List Outcome}
    (h : ids.mapM (fun id => answers.get? id) = some outcomes) :
    outcomes.length = ids.length ∧
      ∀ (j i : Nat), ids[j]? = some i → answers.get? i = outcomes[j]? := by
  induction ids generalizing outcomes with
  | nil =>
    obtain rfl : [] = outcomes := by simpa using h
    exact ⟨rfl, fun j i hi => by simp at hi⟩
  | cons id ids ih =>
    rw [List.mapM_cons] at h
    obtain ⟨o, ho, h⟩ := Option.bind_eq_some_iff.1 h
    obtain ⟨rest, hrest, h⟩ := Option.bind_eq_some_iff.1 h
    obtain rfl : o :: rest = outcomes := by simpa using h
    obtain ⟨hlen, hget⟩ := ih hrest
    refine ⟨by simp [hlen], fun j i hi => ?_⟩
    cases j with
    | zero =>
      obtain rfl : id = i := by simpa using hi
      simpa using ho
    | succ j => simpa using hget j i (by simpa using hi)

theorem requests_frame (x : Exchange) :
    x.frame.requests = List.zipWith Request.mk x.ids x.calls := by
  unfold Exchange.frame
  dsimp only
  split
  · next hone => exact hone.symm
  · rfl

theorem getElem?_frame_requests (x : Exchange) {j i : Nat} {call : Call} (hi : x.ids[j]? = some i)
    (hcall : x.calls[j]? = some call) : x.frame.requests[j]? = some ⟨i, call⟩ := by
  rw [requests_frame, List.getElem?_zipWith, hi, hcall]

/-- The answers of an exchange that came to its outcomes. -/
theorem collected_of_finished {events : List Event} {k : Nat} {x : Exchange}
    {outcomes : List Outcome} (hx : (after events).exchanges[k]? = some x)
    (hs : x.stage = .finished (.ok outcomes)) : outcomes.length = x.ids.length ∧
      ∀ (j i : Nat), x.ids[j]? = some i → x.answers.get? i = outcomes[j]? :=
  getElem?_collected (((valid_after events).exchange k x hx).collected outcomes hs)

theorem ids_length_of_finished {events : List Event} {k : Nat} {x : Exchange}
    {r : Except CallError (List Outcome)} (hx : (after events).exchanges[k]? = some x)
    (hs : x.stage = .finished r) : x.ids.length = x.calls.length :=
  ((valid_after events).exchange k x hx).idsLength (by simp [hs]) (by simp [hs])

theorem cause_of_outcome {events : List Event} {k : Nat} {x : Exchange} {j : Nat} {o : Outcome}
    (hx : (after events).exchanges[k]? = some x) (ho : x.outcomeAt? j = some o) :
    ∃ i, x.ids[j]? = some i ∧ Cause events k x.token i o := by
  have h := accounted events
  unfold Exchange.outcomeAt? at ho
  split at ho
  · next outcomes hs =>
    obtain ⟨hlen, hget⟩ := collected_of_finished hx hs
    have hj : j < x.ids.length := by
      have := (List.getElem?_eq_some_iff.1 ho).1
      omega
    have hi := List.getElem?_eq_getElem hj
    refine ⟨x.ids[j], hi, .answer (h.answer k x _ o hx ?_)⟩
    rw [hget j _ hi, ho]
  · next cause hs =>
    split at ho
    · next hj =>
      rw [← Option.some.inj ho]
      rw [← ids_length_of_finished hx hs] at hj
      exact ⟨x.ids[j], List.getElem?_eq_getElem hj, .failure (h.failure k x cause hx hs)⟩
    · simp at ho
  · simp at ho

/-- No id is shared, neither between two exchanges nor within one. -/
theorem ids_apart {events : List Event} {k k' : Nat} {x x' : Exchange} {j j' i : Nat}
    (hx : (after events).exchanges[k]? = some x) (hx' : (after events).exchanges[k']? = some x')
    (hi : x.ids[j]? = some i) (hi' : x'.ids[j']? = some i) : k = k' ∧ j = j' := by
  have hv := valid_after events
  have hk := hv.apart k k' x x' i hx hx' (List.mem_of_getElem? hi) (List.mem_of_getElem? hi')
  subst hk
  rw [hx] at hx'
  obtain rfl := Option.some.inj hx'
  have hj := (List.getElem?_eq_some_iff.1 hi).1
  exact ⟨rfl, (List.getElem?_inj hj (hv.exchange k x hx).idsNodup).1 (hi.trans hi'.symm)⟩

/-- Whatever happens to the calls of a connection, every outcome has its cause in what happened to
the call itself; no two calls share an id, so no response completes two of them; and a batch that
does not fail as a whole has one outcome for each of its calls, in their order. -/
theorem outcomes_have_causes (events : List Event) :
    (∀ (k : Nat) (x : Exchange) (j : Nat) (o : Outcome), (after events).exchanges[k]? = some x →
      x.outcomeAt? j = some o → ∃ i, x.ids[j]? = some i ∧ Cause events k x.token i o) ∧
    (∀ (k k' : Nat) (x x' : Exchange) (j j' i : Nat), (after events).exchanges[k]? = some x →
      (after events).exchanges[k']? = some x' → x.ids[j]? = some i → x'.ids[j']? = some i →
      k = k' ∧ j = j') ∧
    (∀ (k : Nat) (x : Exchange) (outcomes : List Outcome),
      (after events).exchanges[k]? = some x → x.stage = .finished (.ok outcomes) →
      outcomes.length = x.calls.length ∧
      ∀ (j : Nat) (call : Call), x.calls[j]? = some call → ∃ i o,
        x.frame.requests[j]? = some ⟨i, call⟩ ∧ outcomes[j]? = some o ∧
        Cause events k x.token i o) := by
  refine ⟨fun k x j o hx ho => cause_of_outcome hx ho,
    fun k k' x x' j j' i hx hx' hi hi' => ids_apart hx hx' hi hi', fun k x outcomes hx hs => ?_⟩
  have hlen := (collected_of_finished hx hs).1.trans (ids_length_of_finished hx hs)
  refine ⟨hlen, fun j call hcall => ?_⟩
  have hj : j < outcomes.length := by
    have := (List.getElem?_eq_some_iff.1 hcall).1
    omega
  have ho := List.getElem?_eq_getElem hj
  have hat : x.outcomeAt? j = some outcomes[j] := by
    rw [← ho]
    simp only [Exchange.outcomeAt?, hs]
  obtain ⟨i, hi, hc⟩ := cause_of_outcome hx hat
  exact ⟨i, outcomes[j], getElem?_frame_requests x hi hcall, ho, hc⟩

/-- A batch of two is answered out of order: each outcome has its cause, and stands where its call
stood. -/
theorem outcomes_have_causes_of_batch :
    let ping : Call := ⟨"ping", .arr []⟩
    let events : List Event := [.batch [ping, ping] (.caller 0), .run 0,
      .routeBatch [⟨2, .ok (.str "second")⟩, ⟨1, .ok (.str "first")⟩], .run 0]
    ∃ x, (after events).exchanges[0]? = some x ∧
      x.stage = .finished (.ok [.ok (.str "first"), .ok (.str "second")]) ∧
      Cause events 0 (.caller 0) 1 (.ok (.str "first")) ∧
      Cause events 0 (.caller 0) 2 (.ok (.str "second")) := by
  intro ping events
  obtain ⟨hcause, -, -⟩ := outcomes_have_causes events
  let x : Exchange := {
    calls := [ping, ping], batched := true, token := .caller 0, ids := [1, 2]
    answers := [(2, .ok (.str "second")), (1, .ok (.str "first"))]
    stage := .finished (.ok [.ok (.str "first"), .ok (.str "second")]) }
  have hx : (after events).exchanges[0]? = some x := by decide
  obtain ⟨i, hi, h1⟩ := hcause 0 x 0 (.ok (.str "first")) hx rfl
  obtain ⟨i', hi', h2⟩ := hcause 0 x 1 (.ok (.str "second")) hx rfl
  cases hi
  cases hi'
  exact ⟨x, hx, rfl, h1, h2⟩

end Calls

end NodeRpc
