import NodeRpc.Calls.Run

/-!
# What answers do

An answer takes its id out of the table and goes to the exchange that waits for it; nothing else
changes. From this follow the answers that a frame of the node gives: which pending calls it
answers, and what each of them gets. Where one id is answered twice, the first answer counts.
-/

namespace NodeRpc

/-- What an exchange is after some answers: the same but for the answers. -/
def Exchange.Answered (x x' : Exchange) : Prop := x' = { x with answers := x'.answers }

namespace Calls

/-! ### Answering one call -/

theorem table_answer (c : Calls) (id : Nat) (o : Outcome) :
    (c.answer id o).pending = c.pending.erase id := by
  unfold answer
  cases hp : c.pending.get? id with
  | some entry => rfl
  | none =>
    refine (List.filter_eq_self.2 fun p hmem => ?_).symm
    have hne : p.1 ≠ id := fun h => (Table.get?_eq_none_iff _ _).1 hp (h ▸ List.mem_map_of_mem hmem)
    simpa using hne

theorem pending_answer (c : Calls) (id : Nat) (o : Outcome) (i : Nat) :
    (c.answer id o).pending.get? i = if id = i then none else c.pending.get? i := by
  rw [table_answer, Table.get?_erase]

/-- An answer changes the answers of the exchange that waits for it, and no other exchange. -/
theorem exchanges_answer (c : Calls) (id : Nat) (o : Outcome) (k : Nat) :
    (c.answer id o).exchanges[k]? = (c.exchanges[k]?).map fun x =>
      if (c.pending.get? id).map Entry.exchange = some k
      then { x with answers := x.answers.put id o } else x := by
  unfold answer
  cases hp : c.pending.get? id with
  | none => simp
  | some entry =>
    simp only [List.getElem?_modify, Option.map_some, Option.some.injEq]
    by_cases h : entry.exchange = k
    · simp [h]
    · simp [h]

/-- Answers leave everything but the table and the exchanges alone. -/
theorem answer_frame (c : Calls) (id : Nat) (o : Outcome) :
    c.answer id o = { c with
      pending := (c.answer id o).pending, exchanges := (c.answer id o).exchanges } := by
  unfold answer
  cases c.pending.get? id <;> rfl

/-! ### Answering many calls -/

theorem answerAll_cons (c : Calls) (a : Nat × Outcome) (as : Table Nat Outcome) :
    c.answerAll (a :: as) = (c.answer a.1 a.2).answerAll as := rfl

theorem answerAll_frame (as : Table Nat Outcome) (c : Calls) :
    c.answerAll as = { c with
      pending := (c.answerAll as).pending, exchanges := (c.answerAll as).exchanges } := by
  induction as generalizing c with
  | nil => rfl
  | cons a as ih => rw [answerAll_cons, ih, answer_frame]

/-- The table keeps what is not answered, in its order. -/
theorem table_answerAll (as : Table Nat Outcome) (c : Calls) :
    (c.answerAll as).pending = c.pending.filter fun p => !as.keys.contains p.1 := by
  induction as generalizing c with
  | nil => exact (List.filter_eq_self.2 fun _ _ => rfl).symm
  | cons a as ih =>
    rw [answerAll_cons, ih, table_answer, Table.erase, List.filter_filter]
    refine List.filter_congr fun p _ => ?_
    by_cases h : p.1 = a.1 <;> simp [h]

theorem pending_answerAll (as : Table Nat Outcome) (c : Calls) (i : Nat) :
    (c.answerAll as).pending.get? i = if i ∈ as.keys then none else c.pending.get? i := by
  rw [table_answerAll, Table.get?_filter_key c.pending (fun i => !as.keys.contains i)]
  by_cases h : i ∈ as.keys <;> simp [h]

/-- The answers of exchange `k` after many: what was given first to a call of its own that was
pending, and what it had for every other. -/
theorem exchanges_answerAll (as : Table Nat Outcome) (c : Calls) (k : Nat) {x' : Exchange}
    (h : (c.answerAll as).exchanges[k]? = some x') :
    ∃ x, c.exchanges[k]? = some x ∧ x.Answered x' ∧ ∀ i, x'.answers.get? i =
      if (c.pending.get? i).map Entry.exchange = some k
      then (as.get? i).or (x.answers.get? i) else x.answers.get? i := by
  induction as generalizing c with
  | nil => exact ⟨x', h, rfl, fun i => by simp [Table.get?]⟩
  | cons a as ih =>
    rw [answerAll_cons] at h
    obtain ⟨y, hy, hsame, hans⟩ := ih _ h
    rw [exchanges_answer] at hy
    obtain ⟨x, hx, rfl⟩ := Option.map_eq_some_iff.1 hy
    refine ⟨x, hx, ?_, ?_⟩
    · unfold Exchange.Answered at hsame ⊢
      split at hsame <;> exact hsame
    · intro i
      rw [hans i, pending_answer]
      by_cases hi : a.1 = i
      · -- the first answer to `i`: later ones find nothing pending
        subst hi
        by_cases hk : (c.pending.get? a.1).map Entry.exchange = some k
        · simp [hk, Table.get?, Table.get?_put]
        · simp [hk]
      · by_cases hk : (c.pending.get? a.1).map Entry.exchange = some k
        · simp [hi, hk, Table.get?, Table.get?_put]
        · simp [hi, hk, Table.get?]

/-! ### What a frame answers -/

/-- The responses that an event brings. -/
def Event.responses : Event → List Response
  | .route r => [r]
  | .routeBatch responses => responses
  | _ => []

/-- The first of some responses to the call `id`. -/
def responseTo? (responses : List Response) (id : Nat) : Option Response :=
  responses.find? fun r => r.id = id

theorem firstAnswers_get? (responses : List Response) (c : Calls) (i : Nat) :
    Table.get? (c.firstAnswers responses) i =
      if c.closed = false ∧ c.pending.has i = true
      then (responseTo? responses i).map Response.result else none := by
  induction responses generalizing c with
  | nil => simp [firstAnswers, responseTo?, Table.get?]
  | cons r rs ih =>
    have hhas : Table.has (c.pending.erase r.id) i =
        if r.id = i then false else c.pending.has i := by
      unfold Table.has
      rw [Table.get?_erase]
      split <;> rfl
    rw [firstAnswers, Table.get?_append, ih, hhas]
    by_cases hr : r.id = i
    · subst hr
      cases hc : c.closed <;> cases hp : c.pending.has r.id <;>
        simp [answerOf, responseTo?, Table.get?, hc, hp]
    · have hnone : Table.get? (c.answerOf r) i = none := by
        unfold answerOf
        split <;> simp [Table.get?, hr]
      simp [hnone, hr, responseTo?]

theorem answerOf_get? (c : Calls) (r : Response) (i : Nat) :
    Table.get? (c.answerOf r) i =
      if c.closed = false ∧ c.pending.has i = true
      then (responseTo? [r] i).map Response.result else none := by
  have h := firstAnswers_get? [r] c i
  simpa [firstAnswers] using h

theorem mem_firstAnswers_iff {c : Calls} (responses : List Response) (i : Nat) :
    i ∈ Table.keys (c.firstAnswers responses) ↔
      c.closed = false ∧ c.pending.has i = true ∧ (responseTo? responses i).isSome := by
  rw [← Table.has_iff_mem_keys, Table.has, firstAnswers_get?]
  by_cases hp : c.closed = false ∧ c.pending.has i = true
  · simp [hp]
  · rw [if_neg hp]
    exact iff_of_false (by simp) fun h => hp ⟨h.1, h.2.1⟩

/-- What a call of a batch comes to by the responses of a frame; the first one counts. -/
def entryOutcome (responses : List Response) (id : Nat) : Outcome :=
  match responseTo? responses id with
  | some r => r.result
  | none => .error (.malformed (.missingFromBatch id))

/-- Whether a frame with these responses answers the pending call `p`: one of them is to it, or to
another pending call of its batch. -/
def settles (c : Calls) (responses : List Response) (p : Nat × Entry) : Bool :=
  (responseTo? responses p.1).isSome || c.pending.any fun q =>
    q.2.batch.isSome && q.2.batch = p.2.batch && (responseTo? responses q.1).isSome

theorem settles_entry_iff {c : Calls} (hd : c.pending.keys.Nodup) (responses : List Response)
    (i : Nat) (entry : Entry) : c.settles responses (i, entry) = true ↔
      (responseTo? responses i).isSome = true ∨
      ∃ j other b, c.pending.get? j = some other ∧ other.batch = some b ∧ entry.batch = some b ∧
        (responseTo? responses j).isSome = true := by
  unfold settles
  rw [Bool.or_eq_true, List.any_eq_true]
  refine or_congr_right ⟨?_, ?_⟩
  · rintro ⟨q, hq, h⟩
    simp only [Bool.and_eq_true, decide_eq_true_eq] at h
    obtain ⟨⟨hsome, hbatch⟩, hfound⟩ := h
    obtain ⟨b, hb⟩ := Option.isSome_iff_exists.1 hsome
    exact ⟨q.1, q.2, b, Table.get?_of_mem hd hq, hb, hbatch.symm.trans hb, hfound⟩
  · rintro ⟨j, other, b, hother, hb, hb', hfound⟩
    exact ⟨(j, other), Table.mem_of_get? hother, by simp [hb, hb', hfound]⟩

/-- The batches that a frame answers in part at least. -/
def touched (c : Calls) (responses : List Response) : List Nat :=
  (c.firstAnswers responses).filterMap fun a => (c.pending.get? a.1).bind Entry.batch

theorem mem_touched_iff (c : Calls) (responses : List Response) (b : Nat) :
    b ∈ c.touched responses ↔ c.closed = false ∧ ∃ j other, c.pending.get? j = some other ∧
      other.batch = some b ∧ (responseTo? responses j).isSome = true := by
  unfold touched
  rw [List.mem_filterMap]
  constructor
  · rintro ⟨a, ha, hb⟩
    obtain ⟨other, hother, hb⟩ := Option.bind_eq_some_iff.1 hb
    have hkey := (mem_firstAnswers_iff responses a.1).1 (List.mem_map_of_mem ha)
    exact ⟨hkey.1, a.1, other, hother, hb, hkey.2.2⟩
  · rintro ⟨hopen, j, other, hother, hb, hfound⟩
    have hkey := (mem_firstAnswers_iff (c := c) responses j).2
      ⟨hopen, by simp [Table.has, hother], hfound⟩
    obtain ⟨a, ha, rfl⟩ := List.mem_map.1 hkey
    exact ⟨a, ha, by rw [hother, Option.bind_some, hb]⟩

/-- The calls that a frame leaves out although it answers others of their batch. -/
def missed (c : Calls) (responses : List Response) : List Nat :=
  (c.pending.filter fun p => !((c.firstAnswers responses).map (·.1)).contains p.1 &&
    (p.2.batch.map (c.touched responses).contains).getD false).map (·.1)

theorem mem_missed_iff {c : Calls} (hd : c.pending.keys.Nodup) (responses : List Response) (i : Nat) :
    i ∈ c.missed responses ↔ c.closed = false ∧ responseTo? responses i = none ∧
      ∃ entry, c.pending.get? i = some entry ∧ c.settles responses (i, entry) = true := by
  have hout : ∀ entry, c.pending.get? i = some entry → c.closed = false →
      (i ∉ (c.firstAnswers responses).map (·.1) ↔ responseTo? responses i = none) := by
    intro entry hentry hopen
    have hkey := mem_firstAnswers_iff (c := c) responses i
    simp only [hopen, Table.has, hentry, Option.isSome_some, true_and, Table.keys] at hkey
    rw [hkey, Bool.not_eq_true, Option.isSome_eq_false_iff, Option.isNone_iff_eq_none]
  unfold missed
  rw [List.mem_map]
  simp only [List.mem_filter, Bool.and_eq_true, Bool.not_eq_true', List.contains_eq_mem,
    decide_eq_false_iff_not]
  constructor
  · rintro ⟨⟨i, entry⟩, ⟨hmem, hnot, htouched⟩, rfl⟩
    have hentry := Table.get?_of_mem hd hmem
    cases hb : entry.batch with
    | none => simp [hb] at htouched
    | some b =>
      have htouched : b ∈ c.touched responses := by simpa [hb] using htouched
      obtain ⟨hopen, j, other, hother, hother', hfound⟩ := (mem_touched_iff c responses b).1 htouched
      exact ⟨hopen, (hout entry hentry hopen).1 hnot, entry, hentry,
        (settles_entry_iff hd responses i entry).2 (.inr ⟨j, other, b, hother, hother', hb, hfound⟩)⟩
  · rintro ⟨hopen, hr, entry, hentry, hsettled⟩
    obtain hsome | ⟨j, other, b, hother, hother', hb, hfound⟩ :=
      (settles_entry_iff hd _ _ _).1 hsettled
    · simp [hr] at hsome
    · have htouched := (mem_touched_iff c responses b).2 ⟨hopen, j, other, hother, hother', hfound⟩
      exact ⟨(i, entry), ⟨Table.mem_of_get? hentry, (hout entry hentry hopen).2 hr,
        by simp [hb, htouched]⟩, rfl⟩

theorem batchAnswers_eq (c : Calls) (responses : List Response) :
    c.batchAnswers responses = c.firstAnswers responses ++
      (c.missed responses).map fun id => (id, .error (.malformed (.missingFromBatch id))) := by
  simp [batchAnswers, missed, touched, Function.comp_def]

/-- What a batch of responses gives to a call: the first response to it, or an error where there is
none but the batch of the call is answered in part. It gives nothing to a call that is not pending,
and nothing at all on a closed connection. -/
theorem batchAnswers_get?_eq (c : Calls) (hd : c.pending.keys.Nodup) (responses : List Response)
    (i : Nat) : Table.get? (c.batchAnswers responses) i =
      if c.closed = false ∧ (c.pending.get? i).any (fun entry => c.settles responses (i, entry))
      then some (entryOutcome responses i) else none := by
  rw [batchAnswers_eq, Table.get?_append, firstAnswers_get?, Table.get?_map_const]
  rcases Option.eq_none_or_eq_some (c.pending.get? i) with hp | ⟨entry, hp⟩
  · have hmissed : i ∉ c.missed responses := by simp [mem_missed_iff hd, hp]
    simp [Table.has, hp, hmissed]
  · cases hr : responseTo? responses i with
    | some r =>
      have hmissed : i ∉ c.missed responses := by simp [mem_missed_iff hd, hr]
      simp [Table.has, hp, hmissed, hr, settles, entryOutcome]
    | none =>
      have hmissed : i ∈ c.missed responses ↔
          c.closed = false ∧ c.settles responses (i, entry) = true := by
        simp [mem_missed_iff hd, hr, hp]
      simp [hp, hmissed, hr, entryOutcome]

/-- The pending calls of a batch that is answered in part, and not themselves, get an error. -/
theorem batchAnswers_get? (c : Calls) (hd : c.pending.keys.Nodup) (responses : List Response)
    (i : Nat) {o : Outcome} (h : Table.get? (c.batchAnswers responses) i = some o) :
    (∃ r, responseTo? responses i = some r ∧ o = r.result) ∨
    (responseTo? responses i = none ∧ o = .error (.malformed (.missingFromBatch i)) ∧
      ∃ entry j other, c.pending.get? i = some entry ∧ c.pending.get? j = some other ∧ j ≠ i ∧
        entry.batch.isSome ∧ entry.batch = other.batch ∧ (responseTo? responses j).isSome) := by
  rw [batchAnswers_get?_eq c hd] at h
  obtain ⟨⟨hopen, hany⟩, ho⟩ := Option.ite_none_right_eq_some.1 h
  obtain ⟨entry, hentry, hsettled⟩ := (Option.any_eq_true _ _).1 hany
  obtain rfl := Option.some.inj ho
  unfold entryOutcome
  cases hr : responseTo? responses i with
  | some r => exact .inl ⟨r, rfl, rfl⟩
  | none =>
    obtain hsome | ⟨j, other, b, hother, hb, hb', hfound⟩ :=
      (settles_entry_iff hd _ _ _).1 hsettled
    · simp [hr] at hsome
    · refine .inr ⟨rfl, rfl, entry, j, other, hentry, hother, ?_, by simp [hb'], hb'.trans hb.symm,
        hfound⟩
      rintro rfl
      simp [hr] at hfound

/-- An error without an id goes to pending calls of the oldest batch only. -/
theorem rejectionAnswers_get? (c : Calls) (hd : c.pending.keys.Nodup) (e : ErrorObject) (i : Nat)
    {o : Outcome} (h : Table.get? (c.rejectionAnswers e) i = some o) :
    o = .error (.protocol e) ∧ ∃ entry, c.pending.get? i = some entry ∧ entry.batch.isSome ∧
      entry.batch = c.oldestBatch? := by
  unfold rejectionAnswers at h
  cases hb : c.oldestBatch? with
  | none => simp [hb, Table.get?] at h
  | some batch =>
    simp only [hb, Table.get?_map_const] at h
    split at h
    · next hmem =>
      obtain ⟨⟨i', entry⟩, hp, rfl⟩ := List.mem_map.1 hmem
      obtain ⟨hpair, hbatch⟩ := List.mem_filter.1 hp
      have hbatch : entry.batch = some batch := by simpa using hbatch
      exact ⟨(Option.some.inj h).symm, entry, Table.get?_of_mem hd hpair, by simp [hbatch], hbatch⟩
    · simp at h

/-- Where no batch is out, an error without an id fails nothing. -/
theorem rejectionAnswers_eq_nil {c : Calls} (hnone : ∀ p ∈ c.pending, p.2.batch = none)
    (error : ErrorObject) : c.rejectionAnswers error = [] := by
  have hbatches : (c.pending.filterMap fun p => p.2.batch) = [] :=
    List.filterMap_eq_nil_iff.2 hnone
  unfold rejectionAnswers oldestBatch?
  rw [hbatches]
  rfl

end Calls

end NodeRpc
