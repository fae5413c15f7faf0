import NodeRpc.Proofs.Calls.Turns

/-!
# What an event does

`Answers` says how an event answers a pending call, and `Became` what it can make of an exchange:
`became` shows that there is nothing else. A call that has left the table of pending calls stays out
of it, whatever happens.
-/

namespace NodeRpc.Calls

/-- The event `e` answers the pending call `id` with an outcome. -/
inductive Answers (c : Calls) (id : Nat) : Event → Outcome → Prop where
  /-- It brings responses, and this is the first of them to `id`. -/
  | response {e : Event} {r : Response} (h : responseTo? e.responses id = some r) :
      Answers c id e r.result
  /-- It brings a batch of responses, to another pending call of the same batch but not to `id`. -/
  | missing {responses : List Response} {j : Nat} {entry other : Entry}
      (hnone : responseTo? responses id = none) (hentry : c.pending.get? id = some entry)
      (hother : c.pending.get? j = some other) (hne : j ≠ id) (hsome : entry.batch.isSome = true)
      (hbatch : entry.batch = other.batch) (hj : (responseTo? responses j).isSome = true) :
      Answers c id (.routeBatch responses) (.error (.malformed (.missingFromBatch id)))
  /-- It is an error without an id, and `id` belongs to the oldest batch that is pending. -/
  | rejection {error : ErrorObject} {entry : Entry} (hentry : c.pending.get? id = some entry)
      (hsome : entry.batch.isSome = true) (hbatch : entry.batch = c.oldestBatch?) :
      Answers c id (.reject error) (.error (.protocol error))
  | closing : Answers c id .close (.error .transportClosed)

/-- What the event `e` can make of exchange `k`, which was there as `x` or was not there. -/
inductive Became (c : Calls) (e : Event) (k : Nat) : Option Exchange → Exchange → Prop where
  | made (calls : List Call) (batched : Bool) (token : Token) :
      Became c e k none { calls, batched, token }
  | same (x : Exchange) : Became c e k (some x) x
  | turned {x : Exchange} (ids : List Nat) {stage : Stage} (he : e = .run k) (h : Next c x stage) :
      Became c e k (some x) { x with ids, stage }
  | dropped {x : Exchange} (he : e = .drop k) : Became c e k (some x) { x with stage := .abandoned }
  | resumed {x : Exchange} {reply : Except CallError Unit} (he : e = .resume k reply)
      (h : x.stage = .writing none) :
      Became c e k (some x) { x with stage := .writing (some reply) }
  | answered {x x' : Exchange} (h : x.Answered x')
      (hold : ∀ i o, x.answers.get? i = some o → x'.answers.get? i = some o)
      (hnew : ∀ i o, x'.answers.get? i = some o →
        x.answers.get? i = some o ∨ c.pending.has i = true ∧ Answers c i e o) :
      Became c e k (some x) x'

/-! ### Inversion -/

theorem became_make {c : Calls} {e : Event} {calls : List Call} {batched : Bool} {token : Token}
    {k : Nat} {x' : Exchange} (h : (c.make calls batched token).exchanges[k]? = some x') :
    Became c e k c.exchanges[k]? x' := by
  simp only [make, getElem?_concat] at h
  split at h
  · next hk =>
    have hnone : c.exchanges[k]? = none := List.getElem?_eq_none (by omega)
    obtain rfl := Option.some.inj h
    rw [hnone]
    exact .made calls batched token
  · rw [h]
    exact .same x'

/-- Where one exchange is replaced, the others are what they were. -/
theorem became_set {c : Calls} {e : Event} {j k : Nat} {x y x' : Exchange}
    (hx : c.exchanges[j]? = some x) (hy : j = k → Became c e k (some x) y)
    (h : (c.exchanges.set j y)[k]? = some x') : Became c e k c.exchanges[k]? x' := by
  have h := (getElem?_setExchange hx y k).symm.trans h
  split at h
  · next hjk =>
    obtain rfl := Option.some.inj h
    rw [← hjk, hx]
    exact hjk ▸ hy hjk
  · rw [h]; exact .same x'

/-- Where an event answers calls, nothing but answers changes. -/
theorem became_answerAll {c : Calls} (hv : c.Valid) {e : Event} {as : Table Nat Outcome}
    (has : ∀ i o, c.pending.has i = true → as.get? i = some o → Answers c i e o) {k : Nat}
    {x' : Exchange} (h : (c.answerAll as).exchanges[k]? = some x') :
    Became c e k c.exchanges[k]? x' := by
  obtain ⟨x, hx, hsame, hans⟩ := exchanges_answerAll as c k h
  rw [hx]
  refine .answered hsame (fun i o ho => ?_) fun i o ho => ?_
  · rw [hans i]
    split
    · next hk =>
      -- what is pending of the exchange has no answer yet
      obtain ⟨entry, hp, rfl⟩ := Option.map_eq_some_iff.1 hk
      obtain ⟨z, hz, _, _, hnone, _⟩ := hv.owned i entry hp
      rw [hx] at hz
      obtain rfl := Option.some.inj hz
      rw [hnone] at ho
      simp at ho
    · exact ho
  · rw [hans i] at ho
    split at ho
    · next hk =>
      rcases Option.or_eq_some_iff.1 ho with ho | ⟨_, ho⟩
      · obtain ⟨entry, hp, _⟩ := Option.map_eq_some_iff.1 hk
        have hhas : c.pending.has i = true := by simp [Table.has, hp]
        exact .inr ⟨hhas, has i o hhas ho⟩
      · exact .inl ho
    · exact .inl ho

/-- All that an event can make of an exchange. -/
theorem became {c : Calls} (hv : c.Valid) {e : Event} {k : Nat} {x' : Exchange}
    (h : (c.apply e).exchanges[k]? = some x') : Became c e k c.exchanges[k]? x' := by
  have hsame : c.exchanges[k]? = some x' → Became c e k c.exchanges[k]? x' := by
    intro h
    rw [h]
    exact .same x'
  cases e with
  | call call token => exact became_make h
  | batch calls token => exact became_make h
  | reserve j =>
    rw [apply, exchanges_reserve] at h
    exact hsame h
  | run j =>
    cases hx : c.exchanges[j]? with
    | none => exact hsame (by simpa [apply, run, hx] using h)
    | some x =>
      obtain ⟨ids, stage, hnext, he⟩ := run_next hx
      simp only [apply, he] at h
      exact became_set hx (fun hjk => .turned ids (by rw [hjk]) hnext) h
  | drop j =>
    cases hx : c.exchanges[j]? with
    | none => exact hsame (by simpa [apply, abandon, hx] using h)
    | some x =>
      simp only [apply, abandon, hx] at h
      split at h
      · exact became_set hx (fun hjk => .dropped (by rw [hjk])) h
      · exact hsame h
  | cancel token => exact hsame h
  | sink sink => exact hsame h
  | resume j reply =>
    cases hx : c.exchanges[j]? with
    | none => exact hsame (by simpa [apply, resume, hx] using h)
    | some x =>
      simp only [apply, resume, hx] at h
      split at h
      · next hs => exact became_set hx (fun hjk => .resumed (by rw [hjk]) hs) h
      · exact hsame h
  | route r =>
    refine became_answerAll hv (fun i o hi ho => ?_) h
    rw [answerOf_get?] at ho
    split at ho
    · obtain ⟨r', hr', rfl⟩ := Option.map_eq_some_iff.1 ho
      exact .response hr'
    · simp at ho
  | routeBatch responses =>
    refine became_answerAll hv (fun i o hi ho => ?_) h
    obtain ⟨r, hr, rfl⟩ | ⟨hnone, rfl, entry, j, other, hentry, hother, hne, hsome, hbatch, hj⟩ :=
      batchAnswers_get? c hv.keysNodup responses i ho
    · exact .response hr
    · exact .missing hnone hentry hother hne hsome hbatch hj
  | reject error =>
    refine became_answerAll hv (fun i o hi ho => ?_) h
    obtain ⟨rfl, entry, hentry, hsome, hbatch⟩ := rejectionAnswers_get? c hv.keysNodup error i ho
    exact .rejection hentry hsome hbatch
  | close =>
    refine became_answerAll (e := .close) hv (fun i o hi ho => ?_) h
    rw [Table.get?_map_const] at ho
    split at ho
    · rw [← Option.some.inj ho]
      exact .closing
    · simp at ho

/-! ### What stays -/

theorem answerAll_keeps (c : Calls) (as : Table Nat Outcome) : c.Keeps (c.answerAll as) := by
  have h := answerAll_frame as c
  refine ⟨by rw [h], by rw [h], fun i => (spent_congr (by rw [h]) (by rw [h])).2, fun i _ hp => ?_⟩
  rw [pending_answerAll]
  split
  · rfl
  · exact hp

theorem abandon_keeps (c : Calls) (k : Nat) : c.Keeps (c.abandon k) := by
  unfold abandon
  split
  · split
    · exact (c.forget_keeps _).trans (setExchange_keeps _ k _)
    · exact .refl c
  · exact .refl c

theorem resume_keeps (c : Calls) (k : Nat) (reply : Except CallError Unit) :
    c.Keeps (c.resume k reply) := by
  unfold resume
  split
  · split
    · exact c.setExchange_keeps k _
    · exact .refl c
  · exact .refl c

theorem reserve_keeps (c : Calls) (k : Nat) : c.Keeps (c.reserve k) := by
  refine ⟨by simp, by simp, fun i hi => spent_reserve hi k, fun i _ hp => ?_⟩
  rwa [pending_reserve]

theorem apply_keeps (c : Calls) {e : Event} (hcancel : ∀ t, e ≠ .cancel t) (hclose : e ≠ .close) :
    c.Keeps (c.apply e) := by
  have hsame : ∀ exchanges sink, c.Keeps { c with exchanges, sink } :=
    fun _ _ => ⟨rfl, rfl, fun _ h => h, fun _ _ h => h⟩
  cases e with
  | call call token => exact hsame _ c.sink
  | batch calls token => exact hsame _ c.sink
  | reserve k => exact c.reserve_keeps k
  | run k => exact c.run_keeps k
  | drop k => exact c.abandon_keeps k
  | cancel token => exact absurd rfl (hcancel token)
  | sink sink => exact hsame c.exchanges sink
  | resume k reply => exact c.resume_keeps k reply
  | route r => exact c.answerAll_keeps _
  | routeBatch responses => exact c.answerAll_keeps _
  | reject error => exact c.answerAll_keeps _
  | close => exact absurd rfl hclose

/-- What is spent stays spent. -/
theorem spent_apply {c : Calls} {i : Nat} (hi : c.Spent i) (e : Event) : (c.apply e).Spent i := by
  by_cases hclose : e = .close
  · subst hclose
    exact (c.answerAll_keeps _).spent i hi
  · by_cases hcancel : ∃ t, e = .cancel t
    · obtain ⟨t, rfl⟩ := hcancel
      exact hi
    · exact (c.apply_keeps (fun t he => hcancel ⟨t, he⟩) hclose).spent i hi

/-- Only `close` closes a connection. -/
theorem closed_apply (c : Calls) (e : Event) :
    (c.apply e).closed = true ↔ c.closed = true ∨ e = .close := by
  by_cases hclose : e = .close
  · subst hclose
    simp [apply, close]
  · by_cases hcancel : ∃ t, e = .cancel t
    · obtain ⟨t, rfl⟩ := hcancel
      simp [apply, cancel]
    · have h := c.apply_keeps (fun t he => hcancel ⟨t, he⟩) hclose
      simp [h.closed, hclose]

/-- Only `cancel` cancels a token. -/
theorem isCancelled_apply (c : Calls) (e : Event) (t : Token) :
    (c.apply e).isCancelled t = true ↔ c.isCancelled t = true ∨ e = .cancel t := by
  unfold isCancelled
  by_cases hcancel : ∃ t', e = .cancel t'
  · obtain ⟨t', rfl⟩ := hcancel
    simp only [apply, cancel, List.contains_iff_mem, List.mem_cons, Event.cancel.injEq]
    rw [or_comm, eq_comm]
  · have hne : e ≠ .cancel t := fun he => hcancel ⟨t, he⟩
    by_cases hclose : e = .close
    · subst hclose
      have h := (c.answerAll_keeps (c.pending.keys.map fun id => (id, .error .transportClosed)))
      simpa [apply, close] using iff_of_eq (congrArg (t ∈ ·) h.cancelled)
    · have h := c.apply_keeps (fun t he => hcancel ⟨t, he⟩) hclose
      simp [h.cancelled, hne]

/-- A call that is not pending any more never is again; nor is any call of a closed connection. -/
theorem gone_apply {c : Calls} {i : Nat} (hi : c.Spent i ∨ c.closed = true)
    (hp : c.pending.get? i = none) (e : Event) :
    ((c.apply e).Spent i ∨ (c.apply e).closed = true) ∧ (c.apply e).pending.get? i = none := by
  by_cases hclose : e = .close
  · subst hclose
    exact ⟨.inr rfl, (c.answerAll_keeps _).pending i hi hp⟩
  · by_cases hcancel : ∃ t, e = .cancel t
    · obtain ⟨t, rfl⟩ := hcancel
      exact ⟨hi, hp⟩
    · have h := c.apply_keeps (fun t he => hcancel ⟨t, he⟩) hclose
      exact ⟨hi.imp (h.spent i) fun hc => h.closed.trans hc, h.pending i hi hp⟩

theorem gone_after {events : List Event} {i : Nat}
    (hi : (after events).Spent i ∨ (after events).closed = true)
    (hp : (after events).pending.get? i = none) (more : List Event) :
    (after (events ++ more)).pending.get? i = none := by
  have h : ((after (events ++ more)).Spent i ∨ (after (events ++ more)).closed = true) ∧
      (after (events ++ more)).pending.get? i = none := by
    induction more using List.reverseRecOn with
    | nil => simpa using ⟨hi, hp⟩
    | append_singleton more e ih =>
      rw [← List.append_assoc, after_concat]
      exact gone_apply ih.1 ih.2 e
  exact h.2

/-- Nothing is pending on a closed connection. -/
theorem pending_of_closed (events : List Event) (h : (after events).closed = true) (i : Nat) :
    (after events).pending.get? i = none := by
  induction events using List.reverseRecOn with
  | nil => rfl
  | append_singleton events e ih =>
    rw [after_concat] at h ⊢
    rcases (closed_apply _ e).1 h with hc | rfl
    · exact (gone_apply (.inr hc) (ih hc) e).2
    · have hp := pending_answerAll
        ((after events).pending.keys.map fun id => (id, .error .transportClosed)) (after events) i
      refine hp.trans ?_
      split
      · rfl
      · next hi =>
        refine (Table.get?_eq_none_iff _ _).2 fun hmem => hi ?_
        simpa [Table.keys] using hmem

/-- A response to a call takes it out of the table of an open connection. -/
theorem gone_of_response {c : Calls} {i : Nat} {e : Event} (hopen : c.closed = false)
    (hr : (responseTo? e.responses i).isSome = true) : (c.apply e).pending.get? i = none := by
  have hgone : ∀ as : Table Nat Outcome, (c.pending.has i = true → (as.get? i).isSome = true) →
      (c.answerAll as).pending.get? i = none := by
    intro as has
    rw [pending_answerAll]
    split
    · rfl
    · next hkey =>
      cases hp : c.pending.get? i with
      | none => rfl
      | some entry =>
        exact absurd ((Table.has_iff_mem_keys as i).1 (has (by simp [Table.has, hp]))) hkey
  obtain ⟨r, hr⟩ := Option.isSome_iff_exists.1 hr
  cases e with
  | route r' =>
    refine hgone _ fun hp => ?_
    have hr : responseTo? [r'] i = some r := hr
    simp [answerOf_get?, hopen, hp, hr]
  | routeBatch responses =>
    refine hgone _ fun hp => ?_
    have hr : responseTo? responses i = some r := hr
    have hfirst : Table.get? (c.firstAnswers responses) i = some r.result := by
      simp [firstAnswers_get?, hopen, hp, hr]
    unfold batchAnswers
    simp only [Table.get?_append, hfirst, Option.some_or, Option.isSome_some]
  | _ => simp [Event.responses, responseTo?] at hr

end NodeRpc.Calls
