import NodeRpc.Proofs.Calls.Batches
import NodeRpc.Proofs.Calls.Writes

/-!
# A batch that is answered

Where all pending calls are of one batch, a frame answers all of them or none: if one of its
responses is to a pending call, every other pending call gets its first response too, or an error
that there is none. If none of the responses is to a pending call, nothing happens at all, and the
batch goes on waiting.
-/

namespace NodeRpc.Calls

/-- Whether one of the responses is to a pending call. -/
def Answered (c : Calls) (responses : List Response) : Prop :=
  ∃ r ∈ responses, c.pending.has r.id = true

/-- All pending calls are of batch `b`. -/
def Sole (c : Calls) (b : Nat) : Prop :=
  ∀ i entry, c.pending.get? i = some entry → entry.batch = some b

variable {c : Calls} {b : Nat}

theorem answered_iff (responses : List Response) :
    c.Answered responses ↔ ∃ i, c.pending.has i = true ∧ (responseTo? responses i).isSome := by
  constructor
  · rintro ⟨r, hr, hp⟩
    exact ⟨r.id, hp, List.find?_isSome.2 ⟨r, hr, by simp⟩⟩
  · rintro ⟨i, hp, hfound⟩
    obtain ⟨r, hr, heq⟩ := List.find?_isSome.1 hfound
    obtain rfl : r.id = i := by simpa using heq
    exact ⟨r, hr, hp⟩

/-- A frame that answers one call of the batch answers all of them. -/
theorem Sole.batchAnswers_get? (hsole : c.Sole b) (hd : c.pending.keys.Nodup)
    (hopen : c.closed = false) {responses : List Response} (ha : c.Answered responses) {i : Nat}
    (hi : c.pending.has i = true) :
    Table.get? (c.batchAnswers responses) i = some (entryOutcome responses i) := by
  obtain ⟨entry, hentry⟩ := Option.isSome_iff_exists.1 hi
  obtain ⟨j, hj, hfound⟩ := (answered_iff responses).1 ha
  obtain ⟨other, hother⟩ := Option.isSome_iff_exists.1 hj
  have hsettled := (settles_entry_iff hd responses i entry).2
    (.inr ⟨j, other, b, hother, hsole j other hother, hsole i entry hentry, hfound⟩)
  rw [batchAnswers_get?_eq c hd, if_pos ⟨hopen, by simp [hentry, hsettled]⟩]

/-- A frame that answers no call of the batch answers nothing. -/
theorem batchAnswers_eq_nil {responses : List Response} (hnot : ¬c.Answered responses) :
    c.batchAnswers responses = [] := by
  have hnone : c.firstAnswers responses = [] := by
    refine Table.eq_nil_of_get? fun i => ?_
    rw [Table.get?_eq_none_iff, mem_firstAnswers_iff]
    exact fun h => hnot ((answered_iff responses).2 ⟨i, h.2⟩)
  have hmissing : c.pending.filter (fun p => (p.2.batch.map ([] : List Nat).contains).getD false) =
      [] :=
    List.filter_eq_nil_iff.2 fun p _ => by cases p.2.batch <;> simp
  unfold batchAnswers
  rw [hnone]
  simpa using hmissing

theorem routeBatch_of_not_answered {responses : List Response} (hnot : ¬c.Answered responses) :
    c.routeBatch responses = c := by
  rw [routeBatch, batchAnswers_eq_nil hnot]
  rfl

/-- A frame that answers one call of a batch that is pending alone settles it. -/
theorem Sole.pending_routeBatch (hsole : c.Sole b) (hd : c.pending.keys.Nodup)
    (hopen : c.closed = false) {responses : List Response} (ha : c.Answered responses) :
    (c.routeBatch responses).pending = [] := by
  refine Table.eq_nil_of_get? fun i => ?_
  rw [routeBatch, pending_answerAll]
  split
  · rfl
  · next hi =>
    cases hp : c.pending.get? i with
    | none => rfl
    | some entry =>
      have hget := hsole.batchAnswers_get? hd hopen ha (i := i) (by simp [Table.has, hp])
      rw [(Table.get?_eq_none_iff _ _).2 hi] at hget
      simp at hget

/-- Each call of it that was pending has come to its outcome. -/
theorem Sole.answers_routeBatch (hsole : c.Sole b) (hd : c.pending.keys.Nodup)
    (hopen : c.closed = false) {responses : List Response} (ha : c.Answered responses) {k : Nat}
    {x : Exchange} (hx : c.exchanges[k]? = some x) :
    ∃ x', (c.routeBatch responses).exchanges[k]? = some x' ∧ x.Answered x' ∧
      ∀ i, x'.answers.get? i =
        if (c.pending.get? i).map Entry.exchange = some k then some (entryOutcome responses i)
        else x.answers.get? i := by
  obtain ⟨x', hx', hsame, hans⟩ := exists_answerAll (c.batchAnswers responses) hx
  refine ⟨x', hx', hsame, fun i => ?_⟩
  rw [hans i]
  split
  · next hi =>
    obtain ⟨entry, hentry, _⟩ := Option.map_eq_some_iff.1 hi
    rw [hsole.batchAnswers_get? hd hopen ha (by simp [Table.has, hentry]), Option.some_or]
  · rfl

/-! ### One exchange alone -/

theorem Batches.answer (h : c.Batches) (i : Nat) (o : Outcome) : (c.answer i o).Batches := by
  have hold : ∀ j entry, (c.answer i o).pending.get? j = some entry →
      c.pending.get? j = some entry := by
    intro j entry hj
    rw [pending_answer] at hj
    split at hj
    · simp at hj
    · exact hj
  have hreserved : (c.answer i o).reserved = c.reserved := by rw [answer_frame]
  have hnumber : ∀ k b, (c.answer i o).HasNumber k b → c.HasNumber k b := by
    rintro k b (hr | ⟨j, entry, hj, hk⟩)
    · rw [reservation_congr hreserved] at hr
      exact .inl hr
    · exact .inr ⟨j, entry, hold j entry hj, hk⟩
  refine ⟨fun k b hk => ?_, fun j k b hj hk => ?_, fun j j' entry other hj hj' => ?_⟩
  · rw [answer_frame]
    exact h.lt k b (hnumber k b hk)
  · exact h.apart j k b (hnumber j b hj) (hnumber k b hk)
  · exact h.same j j' entry other (hold j entry hj) (hold j' other hj')

/-- Where all pending calls are of one exchange, and that is a batch, they are of its number. -/
theorem Batches.sole (h : c.Batches) (hv : c.Valid) {k : Nat} {x : Exchange}
    (hx : c.exchanges[k]? = some x) (hbatch : x.batched = true)
    (hk : ∀ p ∈ c.pending, p.2.exchange = k) : ∃ b, c.Sole b := by
  cases hp : c.pending with
  | nil => exact ⟨0, fun i entry hi => by simp [hp, Table.get?] at hi⟩
  | cons p ps =>
    have hfirst : c.pending.get? p.1 = some p.2 := by simp [hp, Table.get?]
    obtain ⟨y, hy, _, _, _, hsome⟩ := hv.owned p.1 p.2 hfirst
    rw [hk p (by simp [hp]), hx] at hy
    rw [← Option.some.inj hy, hbatch] at hsome
    obtain ⟨b, hb⟩ := Option.isSome_iff_exists.1 hsome
    refine ⟨b, fun i entry hi => ?_⟩
    have hsame : p.2.exchange = entry.exchange :=
      (hk p (by simp [hp])).trans (hk (i, entry) (Table.mem_of_get? hi)).symm
    exact ((h.batch_iff p.1 i p.2 entry hfirst hi hsome).1 hsame).symm.trans hb

end NodeRpc.Calls
