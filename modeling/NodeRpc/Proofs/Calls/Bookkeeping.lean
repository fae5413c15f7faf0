import Mathlib.Data.List.Nodup
import NodeRpc.Proofs.Calls.Closing

/-!
# The book of pending calls

The table of pending calls is a book of what is still to be answered: it has an id if and only if
that is an unanswered call of an exchange under way. `Kept` is what every event keeps of the table
and of the frames that were written, and `Accurate` is what the table says of the exchanges because
of it: whose its ids are, and how many.
-/

namespace NodeRpc

/-- The ids that a frame carries. -/
def Outgoing.ids (f : Outgoing) : List Nat := f.requests.map Request.id

/-- The ids of a live exchange that have no answer yet. An exchange has no ids before its first
turn, in which it makes its calls. -/
def Exchange.unanswered (x : Exchange) : List Nat :=
  if x.isLive then x.ids.filter fun i => (x.answers.get? i).isNone else []

namespace Calls

/-- The ids of all frames that were written, in order. -/
def writtenIds (c : Calls) : List Nat := c.written.flatMap Outgoing.ids

/-- What every event keeps of the table and of the frames. -/
structure Kept (c : Calls) : Prop where
  valid : c.Valid
  complete : c.Complete
  framesNodup : c.writtenIds.Nodup
  framesSpent : ∀ i ∈ c.writtenIds, c.Spent i
  shut : c.closed = true → ∀ i, c.pending.get? i = none

/-- What the table of pending calls says. -/
structure Accurate (c : Calls) : Prop where
  /-- A pending id has been given out, to one exchange, which is live and has no answer to it. -/
  owned : ∀ i ∈ c.pending.keys, i < c.nextId ∧
    ∃! k : Nat, ∃ x : Exchange, c.exchanges[k]? = some x ∧ i ∈ x.ids ∧ x.isLive = true ∧
      x.answers.get? i = none
  /-- No id is written twice. -/
  frames : c.writtenIds.Nodup
  closed : c.closed = true → c.pending = []
  /-- Nothing is pending of an exchange that has come to a result or was given up. -/
  ended : ∀ (k : Nat) (x : Exchange), c.exchanges[k]? = some x → x.isLive = false →
    ∀ i ∈ x.ids, i ∉ c.pending.keys
  /-- As much is pending as the live exchanges have unanswered ids. -/
  count : c.pending.length = (c.exchanges.flatMap Exchange.unanswered).length

/-! ### Frames -/

theorem ids_frame {x : Exchange} (h : x.ids.length = x.calls.length) : x.frame.ids = x.ids := by
  rw [Outgoing.ids, requests_frame, List.map_zipWith]
  refine List.ext_getElem? fun j => ?_
  rw [List.getElem?_zipWith]
  cases hi : x.ids[j]? with
  | none => rfl
  | some i =>
    have hlt := (List.getElem?_eq_some_iff.1 hi).1
    rw [List.getElem?_eq_getElem (h ▸ hlt)]

theorem written_await (c : Calls) (k : Nat) (x : Exchange) : (c.await k x).written = c.written := by
  unfold await
  split
  · rfl
  · split <;> rfl

theorem written_write (c : Calls) (k : Nat) (x : Exchange) :
    (c.write k x).written = c.written ∨ (c.write k x).written = c.written ++ [x.frame] := by
  unfold write
  split
  · exact .inl rfl
  · split
    · exact .inr (written_await ..)
    · exact .inl rfl
    · exact .inr rfl

/-- A turn writes at most one frame, in its first turn on an open connection, and with new ids. -/
theorem written_run (c : Calls) (k : Nat) :
    (c.run k).written = c.written ∨
    ∃ x : Exchange, c.exchanges[k]? = some x ∧ c.closed = false ∧
      (c.run k).written = c.written ++ [{ x with ids := c.newIds k x }.frame] ∧
      (c.enter k x).Keeps (c.run k) := by
  unfold run
  split
  · exact .inl rfl
  · next x hx =>
    split
    · by_cases hne : x.calls = []
      · exact .inl (by simp [start, hne, setExchange])
      · rw [start_eq c k x hne]
        split
        · exact .inl rfl
        · next hc =>
          refine (written_write (c.enter k x) k { x with ids := c.newIds k x }).imp id fun h => ?_
          exact ⟨x, hx, by simpa using hc, h, write_keeps (c.enter k x) k _⟩
    · split
      · exact .inl rfl
      · split
        · exact .inl rfl
        · exact .inl (written_await ..)
        · exact .inl rfl
    · exact .inl (written_await ..)
    · exact .inl rfl
    · exact .inl rfl

/-- Only a turn writes. -/
theorem written_apply (c : Calls) {e : Event} (he : ∀ k, e ≠ .run k) :
    (c.apply e).written = c.written := by
  have hanswer : ∀ as, (c.answerAll as).written = c.written := fun as => by rw [answerAll_frame]
  cases e with
  | run k => exact absurd rfl (he k)
  | drop k =>
    unfold apply abandon
    dsimp only
    split
    · split <;> rfl
    · rfl
  | resume k reply =>
    unfold apply resume
    dsimp only
    split
    · split <;> rfl
    · rfl
  | route r => exact hanswer _
  | routeBatch responses => exact hanswer _
  | reject error => exact hanswer _
  | close => exact hanswer _
  | reserve k => exact c.written_reserve k
  | _ => rfl

theorem written_within_apply (c : Calls) (e : Event) : c.written <+: (c.apply e).written := by
  by_cases he : ∃ k, e = .run k
  · obtain ⟨k, rfl⟩ := he
    rcases c.written_run k with h | ⟨_, _, _, h, _⟩
    · exact (show (c.apply (.run k)).written = _ from h) ▸ List.prefix_rfl
    · exact (show (c.apply (.run k)).written = _ from h) ▸ List.prefix_append _ _
  · exact (c.written_apply fun k h => he ⟨k, h⟩) ▸ List.prefix_rfl

/-- Nothing is written on a closed connection. -/
theorem written_apply_of_closed {c : Calls} (hc : c.closed = true) (e : Event) :
    (c.apply e).written = c.written := by
  by_cases he : ∃ k, e = .run k
  · obtain ⟨k, rfl⟩ := he
    rcases c.written_run k with h | ⟨_, _, hopen, _⟩
    · exact h
    · simp [hc] at hopen
  · exact c.written_apply fun k h => he ⟨k, h⟩

/-! ### What every event keeps -/

theorem shut_apply {c : Calls} (hs : c.closed = true → ∀ i, c.pending.get? i = none) (e : Event)
    (hc : (c.apply e).closed = true) (i : Nat) : (c.apply e).pending.get? i = none := by
  rcases (closed_apply c e).1 hc with hold | rfl
  · exact (gone_apply (.inr hold) (hs hold i) e).2
  · refine (pending_answerAll
      (c.pending.keys.map fun id => (id, .error .transportClosed)) c i).trans ?_
    split
    · rfl
    · next hi =>
      refine (Table.get?_eq_none_iff _ _).2 fun hmem => hi ?_
      simpa [Table.keys] using hmem

theorem Kept.apply {c : Calls} (h : c.Kept) (e : Event) : (c.apply e).Kept := by
  have hsame : (c.apply e).written = c.written →
      (c.apply e).writtenIds.Nodup ∧ ∀ i ∈ (c.apply e).writtenIds, (c.apply e).Spent i := by
    intro hw
    unfold writtenIds
    rw [hw]
    exact ⟨h.framesNodup, fun i hi => spent_apply (h.framesSpent i hi) e⟩
  suffices hframes : (c.apply e).writtenIds.Nodup ∧
      ∀ i ∈ (c.apply e).writtenIds, (c.apply e).Spent i from
    ⟨valid_apply h.valid e, complete_apply h.complete h.valid e, hframes.1, hframes.2,
      shut_apply h.shut e⟩
  by_cases he : ∃ k, e = .run k
  · obtain ⟨k, rfl⟩ := he
    rcases c.written_run k with hw | ⟨x, hx, _, hw, hkeeps⟩
    · exact hsame hw
    · have hids : (c.apply (.run k)).writtenIds = c.writtenIds ++ c.newIds k x := by
        have hframe : Outgoing.ids { x with ids := c.newIds k x }.frame = c.newIds k x :=
          ids_frame (length_newIds h.valid.reserves hx)
        simp only [writtenIds, Calls.apply, hw, List.flatMap_append, List.flatMap_singleton, hframe]
      rw [hids]
      refine ⟨List.nodup_append.2 ⟨h.framesNodup, nodup_newIds h.valid.reserves k x, ?_⟩,
        fun i hi => ?_⟩
      · -- the new ids are none of those that were written
        rintro i hi j hj rfl
        exact not_spent_of_mem_newIds hj (h.framesSpent i hi)
      · rcases List.mem_append.1 hi with hi | hi
        · exact spent_apply (h.framesSpent i hi) _
        · exact hkeeps.spent i (spent_of_mem_newIds h.valid.reserves rfl rfl hi)
  · exact hsame (c.written_apply fun k hk => he ⟨k, hk⟩)

theorem Kept.answer {c : Calls} (h : c.Kept) (i : Nat) (o : Outcome) : (c.answer i o).Kept := by
  have hframe := c.answer_frame i o
  have hwritten : (c.answer i o).writtenIds = c.writtenIds := by
    unfold writtenIds
    rw [hframe]
  refine ⟨h.valid.answer i o, h.complete.answerAll [(i, o)], ?_, ?_, fun hc j => ?_⟩
  · rw [hwritten]
    exact h.framesNodup
  · rw [hwritten]
    exact fun i' hi => ((c.answerAll_keeps [(i, o)]).spent i' (h.framesSpent i' hi))
  · rw [hframe] at hc
    rw [pending_answer, h.shut hc, ite_self]

theorem kept_empty : Kept {} :=
  ⟨valid_empty, fun k x i hx => by simp at hx, List.nodup_nil,
    fun i hi => by simp [writtenIds] at hi, fun _ _ => rfl⟩

/-! ### What the table says -/

theorem isUnderWay_of_live {x : Exchange} (hlive : x.isLive = true) (hs : x.stage ≠ .fresh) :
    x.isUnderWay = true := by
  revert hlive hs
  unfold Exchange.isLive Exchange.isUnderWay
  cases x.stage <;> simp

/-- The pending ids are the unanswered ids of the exchanges. -/
theorem Kept.mem_keys_iff {c : Calls} (h : c.Kept) (i : Nat) :
    i ∈ c.pending.keys ↔
      ∃ (k : Nat) (x : Exchange), c.exchanges[k]? = some x ∧ i ∈ x.unanswered := by
  rw [← Table.has_iff_mem_keys]
  unfold Table.has
  constructor
  · intro hp
    obtain ⟨entry, hp⟩ := Option.isSome_iff_exists.1 hp
    obtain ⟨x, hx, hw, hi, hnone, _⟩ := h.valid.owned i entry hp
    have hlive : x.isLive = true := by
      revert hw
      unfold Exchange.isUnderWay Exchange.isLive
      cases x.stage <;> simp
    exact ⟨entry.exchange, x, hx, by simp [Exchange.unanswered, hlive, hi, hnone]⟩
  · rintro ⟨k, x, hx, hi⟩
    unfold Exchange.unanswered at hi
    split at hi
    · next hlive =>
      rw [List.mem_filter, Option.isNone_iff_eq_none] at hi
      have hs : x.stage ≠ .fresh := fun hf => by
        rw [((h.valid.exchange k x hx).untaken hf).1] at hi
        simp at hi
      have hp := h.complete k x i hx (isUnderWay_of_live hlive hs) hi.1 hi.2
      cases hget : c.pending.get? i with
      | some entry => rfl
      | none => simp [hget] at hp
    · simp at hi

theorem unanswered_le {x : Exchange} {i : Nat} (hi : i ∈ x.unanswered) :
    i ∈ x.ids ∧ x.isLive = true ∧ x.answers.get? i = none := by
  unfold Exchange.unanswered at hi
  split at hi
  · next hlive =>
    rw [List.mem_filter, Option.isNone_iff_eq_none] at hi
    exact ⟨hi.1, hlive, hi.2⟩
  · simp at hi

/-- The unanswered ids, exchange by exchange, are pairwise distinct. -/
theorem Valid.nodup_unanswered {c : Calls} (hv : c.Valid) :
    (c.exchanges.flatMap Exchange.unanswered).Nodup := by
  rw [List.nodup_flatMap]
  constructor
  · intro x hx
    obtain ⟨k, hk⟩ := List.mem_iff_getElem?.1 hx
    unfold Exchange.unanswered
    split
    · exact (hv.exchange k x hk).idsNodup.filter _
    · exact List.nodup_nil
  · rw [List.pairwise_iff_getElem]
    intro j k hj hk hlt i hi hi'
    exact Nat.ne_of_lt hlt (hv.apart j k _ _ i (List.getElem?_eq_getElem hj)
      (List.getElem?_eq_getElem hk) (unanswered_le hi).1 (unanswered_le hi').1)

theorem Kept.accurate {c : Calls} (h : c.Kept) : c.Accurate where
  owned i hi := by
    obtain ⟨k, x, hx, hmem⟩ := (h.mem_keys_iff i).1 hi
    have hx' := unanswered_le hmem
    refine ⟨(h.valid.idsSpent k x hx i hx'.1).1, k, ⟨x, hx, hx'⟩, ?_⟩
    rintro j ⟨y, hy, hiy, _⟩
    exact h.valid.apart j k y x i hy hx hiy hx'.1
  frames := h.framesNodup
  closed hc := Table.eq_nil_of_get? (h.shut hc)
  ended k x hx hover i hi hmem := by
    obtain ⟨j, y, hy, hiy⟩ := (h.mem_keys_iff i).1 hmem
    have hiy := unanswered_le hiy
    obtain rfl := h.valid.apart j k y x i hy hx hiy.1 hi
    rw [hx] at hy
    rw [← Option.some.inj hy, hover] at hiy
    simp at hiy
  count := by
    have hperm : c.pending.keys.Perm (c.exchanges.flatMap Exchange.unanswered) := by
      refine (List.perm_ext_iff_of_nodup h.valid.keysNodup h.valid.nodup_unanswered).2 fun i => ?_
      rw [h.mem_keys_iff, List.mem_flatMap]
      simp only [List.mem_iff_getElem?]
      constructor
      · rintro ⟨k, x, hx, hi⟩
        exact ⟨x, ⟨k, hx⟩, hi⟩
      · rintro ⟨x, ⟨k, hx⟩, hi⟩
        exact ⟨k, x, hx, hi⟩
    have hlen := hperm.length_eq
    rwa [Table.keys, List.length_map] at hlen

end Calls

end NodeRpc
