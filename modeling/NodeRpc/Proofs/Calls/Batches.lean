import NodeRpc.Proofs.Calls.Steps

/-!
# Batches in the table of pending calls

A call enters the table when its exchange has its first turn, together with the other calls of that
exchange and with the number of their batch. That number is taken in the same step or was taken
before it (`HasNumber`), and is nobody else's: that is `Batches`, and `batches_after` shows it for
every run. So in the table a number stands for one exchange, which makes `rejected?`, the exchange
that an error without an id would fail, well defined.
-/

namespace NodeRpc.Calls

/-! ### What is pending after a turn -/

theorem pending_finish_le {c : Calls} {k : Nat} {x : Exchange}
    {r : Except CallError (List Outcome)} {i : Nat} {entry : Entry}
    (h : (c.finish k x r).pending.get? i = some entry) : c.pending.get? i = some entry := by
  have h := (pending_forget c x.ids i).symm.trans h
  split at h
  · simp at h
  · exact h

theorem pending_await_le {c : Calls} {k : Nat} {x : Exchange} {i : Nat} {entry : Entry}
    (h : (c.await k x).pending.get? i = some entry) : c.pending.get? i = some entry := by
  unfold await at h
  split at h
  · exact pending_finish_le h
  · split at h
    · exact pending_finish_le h
    · exact h

theorem pending_write_le {c : Calls} {k : Nat} {x : Exchange} {i : Nat} {entry : Entry}
    (h : (c.write k x).pending.get? i = some entry) : c.pending.get? i = some entry := by
  unfold write at h
  split at h
  · exact pending_finish_le h
  · split at h
    · exact pending_await_le (c := { c with written := c.written ++ [x.frame] }) h
    · exact pending_finish_le h
    · exact h

/-- What enters the table with the first turn of exchange `k`. -/
def Entered (c : Calls) (k i : Nat) (entry : Entry) : Prop :=
  ∃ x, c.exchanges[k]? = some x ∧ x.stage = .fresh ∧ i ∈ c.newIds k x ∧ entry = ⟨k, c.newBatch? k x⟩

/-- A turn leaves in the table what was there, and adds what its exchange enters. -/
theorem pending_run {c : Calls} {k i : Nat} {entry : Entry}
    (h : (c.run k).pending.get? i = some entry) :
    c.pending.get? i = some entry ∨ c.Entered k i entry := by
  unfold run at h
  split at h
  · exact .inl h
  · next x hx =>
    split at h
    · next hf =>
      by_cases hne : x.calls = []
      · exact .inl (by simpa [start, hne, setExchange] using h)
      · have h : (c.enter k x).pending.get? i = some entry := by
          rw [start_eq c k x hne] at h
          split at h
          · exact pending_finish_le h
          · exact pending_write_le h
        rw [pending_enter] at h
        rcases Option.or_eq_some_iff.1 h with h | ⟨_, h⟩
        · exact .inl h
        · split at h
          · next hi => exact .inr ⟨x, hx, hf, hi, (Option.some.inj h).symm⟩
          · simp at h
    · split at h
      · exact .inl (pending_finish_le h)
      · split at h
        · exact .inl h
        · exact .inl (pending_await_le h)
        · exact .inl (pending_finish_le h)
    · exact .inl (pending_await_le h)
    · exact .inl h
    · exact .inl h

theorem pending_abandon_le {c : Calls} {k i : Nat} {entry : Entry}
    (h : (c.abandon k).pending.get? i = some entry) : c.pending.get? i = some entry := by
  unfold abandon at h
  split at h
  · next x hx =>
    split at h
    · have h := (pending_forget c x.ids i).symm.trans h
      split at h
      · simp at h
      · exact h
    · exact h
  · exact h

theorem pending_answerAll_le {c : Calls} {as : Table Nat Outcome} {i : Nat} {entry : Entry}
    (h : (c.answerAll as).pending.get? i = some entry) : c.pending.get? i = some entry := by
  rw [pending_answerAll] at h
  split at h
  · simp at h
  · exact h

/-- Only a first turn puts something into the table. -/
theorem pending_apply {c : Calls} {e : Event} {i : Nat} {entry : Entry}
    (h : (c.apply e).pending.get? i = some entry) :
    c.pending.get? i = some entry ∨ ∃ k, e = .run k ∧ c.Entered k i entry := by
  cases e with
  | run k => exact (pending_run h).imp_right fun h => ⟨k, rfl, h⟩
  | drop k => exact .inl (pending_abandon_le h)
  | resume k reply =>
    refine .inl ?_
    unfold apply resume at h
    dsimp only at h
    split at h
    · split at h <;> exact h
    · exact h
  | route r => exact .inl (pending_answerAll_le h)
  | routeBatch responses => exact .inl (pending_answerAll_le h)
  | reject error => exact .inl (pending_answerAll_le h)
  | close => exact .inl (pending_answerAll_le h)
  | reserve k =>
    rw [apply, pending_reserve] at h
    exact .inl h
  | _ => exact .inl h

/-! ### Numbers of batches -/

/-- What the calls know of numbers that have been taken for batches. -/
def numbers (c : Calls) : Nat × Table Nat Reservation := (c.nextBatch, c.reserved)

theorem numbers_await (c : Calls) (k : Nat) (x : Exchange) : (c.await k x).numbers = c.numbers := by
  unfold await
  split
  · rfl
  · split <;> rfl

theorem numbers_write (c : Calls) (k : Nat) (x : Exchange) : (c.write k x).numbers = c.numbers := by
  unfold write
  split
  · rfl
  · split
    · exact numbers_await ..
    · rfl
    · rfl

/-- A first turn that asks something takes the number of its batch, or uses the one it has. -/
theorem numbers_start (c : Calls) (k : Nat) (x : Exchange) (hne : x.calls ≠ []) :
    (c.start k x).numbers = (c.enter k x).numbers := by
  rw [start_eq c k x hne]
  split
  · rfl
  · exact numbers_write ..

theorem numbers_run (c : Calls) (k : Nat) :
    (c.run k).numbers = c.numbers ∨ ∃ x : Exchange, c.exchanges[k]? = some x ∧
      x.stage = .fresh ∧ (c.run k).numbers = (c.enter k x).numbers := by
  unfold run
  split
  · exact .inl rfl
  · next x hx =>
    split
    · next hf =>
      by_cases hne : x.calls = []
      · exact .inl (by simp [start, hne, setExchange, numbers])
      · exact .inr ⟨x, hx, hf, numbers_start c k x hne⟩
    · split
      · exact .inl rfl
      · split
        · exact .inl rfl
        · exact .inl (numbers_await ..)
        · exact .inl rfl
    · exact .inl (numbers_await ..)
    · exact .inl rfl
    · exact .inl rfl

/-- Numbers are taken by first turns, and ahead of these. -/
theorem numbers_apply (c : Calls) {e : Event} (hreserve : ∀ k, e ≠ .reserve k)
    (hrun : ∀ k, e ≠ .run k) : (c.apply e).numbers = c.numbers := by
  have hanswers : ∀ as, (c.answerAll as).numbers = c.numbers := fun as => by
    rw [answerAll_frame as c]
    rfl
  cases e with
  | reserve k => exact absurd rfl (hreserve k)
  | run k => exact absurd rfl (hrun k)
  | drop k =>
    unfold apply abandon
    dsimp only
    split
    · split <;> rfl
    · rfl
  | resume k reply =>
    unfold apply resume
    dsimp only
    split
    · split <;> rfl
    · rfl
  | route r => exact hanswers _
  | routeBatch responses => exact hanswers _
  | reject error => exact hanswers _
  | close => exact hanswers _
  | _ => rfl

/-- Exchange `k` has the number `b` for its batch, reserved or in the table. -/
def HasNumber (c : Calls) (k b : Nat) : Prop :=
  (c.reservation k).batch = some b ∨
    ∃ i entry, c.pending.get? i = some entry ∧ entry.exchange = k ∧ entry.batch = some b

/-- The event `e` gives exchange `k`, which has had no turn and no number, the next number. -/
structure TakesNumber (c : Calls) (e : Event) (k b : Nat) : Prop where
  event : e = .reserve k ∨ e = .run k
  fresh : ∃ x, c.exchanges[k]? = some x ∧ x.stage = .fresh
  first : (c.reservation k).batch = none
  number : b = c.nextBatch
  next : b < (c.apply e).nextBatch

theorem nextBatch_le_enter (c : Calls) (k : Nat) (x : Exchange) :
    c.nextBatch ≤ (c.enter k x).nextBatch := by
  unfold enter
  dsimp only
  split
  · exact Nat.le_succ _
  · exact Nat.le_refl _

theorem nextBatch_le_apply (c : Calls) (e : Event) : c.nextBatch ≤ (c.apply e).nextBatch := by
  by_cases hreserve : ∃ k, e = .reserve k
  · obtain ⟨k, rfl⟩ := hreserve
    exact c.nextBatch_le_reserve k
  · by_cases hrun : ∃ k, e = .run k
    · obtain ⟨k, rfl⟩ := hrun
      rcases c.numbers_run k with h | ⟨x, _, _, h⟩
      · exact Nat.le_of_eq (congrArg Prod.fst h).symm
      · exact Nat.le_trans (c.nextBatch_le_enter k x) (Nat.le_of_eq (congrArg Prod.fst h).symm)
    · have h := c.numbers_apply (e := e) (fun k he => hreserve ⟨k, he⟩) fun k he => hrun ⟨k, he⟩
      exact Nat.le_of_eq (congrArg Prod.fst h).symm

/-- A number is reserved by the step that takes it ahead. -/
theorem reservation_apply {c : Calls} {e : Event} {k b : Nat}
    (h : ((c.apply e).reservation k).batch = some b) :
    (c.reservation k).batch = some b ∨ e = .reserve k ∧ c.TakesNumber e k b := by
  have hsame : (c.apply e).numbers = c.numbers → (c.reservation k).batch = some b := by
    intro hnumbers
    rwa [reservation_congr (congrArg Prod.snd hnumbers)] at h
  by_cases hreserve : ∃ j, e = .reserve j
  · obtain ⟨j, rfl⟩ := hreserve
    have hr := c.reserved_reserve j
    have happly : c.apply (.reserve j) = c.reserve j := rfl
    rw [happly] at h
    generalize hc' : c.reserve j = c' at h hr
    cases hr with
    | nothing => exact .inl h
    | batch x hx hf hne hbatched hnone =>
      rw [reservation_put (c := c) rfl] at h
      split at h
      · next hjk =>
        subst hjk
        obtain rfl := Option.some.inj h
        refine .inr ⟨rfl, .inl rfl, ⟨x, hx, hf⟩, hnone, rfl, ?_⟩
        rw [happly, hc']
        exact Nat.lt_succ_self _
      · exact .inl h
    | id x hx hf hbatch hlt =>
      rw [reservation_put (c := c) rfl] at h
      split at h
      · next hjk => exact .inl (hjk ▸ h)
      · exact .inl h
  · by_cases hrun : ∃ j, e = .run j
    · obtain ⟨j, rfl⟩ := hrun
      rcases c.numbers_run j with hnumbers | ⟨x, _, _, hnumbers⟩
      · exact .inl (hsame hnumbers)
      · have herase : (c.apply (.run j)).reserved = c.reserved.erase j := congrArg Prod.snd hnumbers
        rw [reservation_erase herase] at h
        split at h
        · simp at h
        · exact .inl h
    · exact .inl (hsame (c.numbers_apply (fun j he => hreserve ⟨j, he⟩) fun j he => hrun ⟨j, he⟩))

/-- What enters the table has the number that its exchange had, or the next one. -/
theorem Entered.number {c : Calls} {k i b : Nat} {entry : Entry} (h : c.Entered k i entry)
    (hv : c.Valid) (hb : entry.batch = some b) :
    (c.reservation k).batch = some b ∨ c.TakesNumber (.run k) k b := by
  obtain ⟨x, hx, hf, hi, rfl⟩ := h
  unfold newBatch? at hb
  split at hb
  · next hbatched =>
    cases hr : (c.reservation k).batch with
    | some b' =>
      rw [hr] at hb
      exact .inl hb
    | none =>
      rw [hr, Option.getD_none] at hb
      obtain rfl := Option.some.inj hb
      have hne : x.calls ≠ [] := by
        rintro hnone
        have hlength := length_newIds hv.reserves hx
        rw [hnone, List.length_nil, List.length_eq_zero_iff] at hlength
        simp [hlength] at hi
      have hnext : (c.apply (.run k)).nextBatch = (c.enter k x).nextBatch := by
        have hrun : c.apply (.run k) = c.start k x := by simp [apply, run, hx, hf]
        rw [hrun]
        exact congrArg Prod.fst (numbers_start c k x hne)
      refine .inr ⟨.inr rfl, ⟨x, hx, hf⟩, hr, rfl, ?_⟩
      rw [hnext]
      simp [enter, hbatched, hr]
  · simp at hb

/-- Whoever has a number had it before, or has taken the next one. -/
theorem hasNumber_apply {c : Calls} (hv : c.Valid) {e : Event} {k b : Nat}
    (h : (c.apply e).HasNumber k b) : c.HasNumber k b ∨ c.TakesNumber e k b := by
  rcases h with h | ⟨i, entry, hp, rfl, hb⟩
  · exact (reservation_apply h).imp .inl And.right
  · rcases pending_apply hp with hp | ⟨j, rfl, hentered⟩
    · exact .inl (.inr ⟨i, entry, hp, rfl, hb⟩)
    · obtain rfl : j = entry.exchange := by
        obtain ⟨x, _, _, _, rfl⟩ := hentered
        rfl
      exact (hentered.number hv hb).imp_left .inl

/-- A number stands for one exchange, each exchange has one in the table, and the numbers in use are
not given out again. -/
structure Batches (c : Calls) : Prop where
  lt : ∀ k b, c.HasNumber k b → b < c.nextBatch
  apart : ∀ j k b, c.HasNumber j b → c.HasNumber k b → j = k
  same : ∀ i j entry other, c.pending.get? i = some entry → c.pending.get? j = some other →
    entry.exchange = other.exchange → entry.batch = other.batch

/-- In the table, a batch is one exchange. -/
theorem Batches.batch_iff {c : Calls} (hb : c.Batches) (i j : Nat) (entry other : Entry)
    (hi : c.pending.get? i = some entry) (hj : c.pending.get? j = some other)
    (hsome : entry.batch.isSome = true) :
    entry.exchange = other.exchange ↔ entry.batch = other.batch := by
  refine ⟨hb.same i j entry other hi hj, fun heq => ?_⟩
  obtain ⟨b, hbatch⟩ := Option.isSome_iff_exists.1 hsome
  exact hb.apart _ _ b (.inr ⟨i, entry, hi, rfl, hbatch⟩)
    (.inr ⟨j, other, hj, rfl, heq.symm.trans hbatch⟩)

theorem Batches.apply {c : Calls} (hb : c.Batches) (hv : c.Valid) (e : Event) :
    (c.apply e).Batches := by
  constructor
  · intro k b h
    rcases hasNumber_apply hv h with h | h
    · exact Nat.lt_of_lt_of_le (hb.lt k b h) (nextBatch_le_apply c e)
    · exact h.next
  · intro j k b hj hk
    rcases hasNumber_apply hv hj with hj | hj <;> rcases hasNumber_apply hv hk with hk | hk
    · exact hb.apart j k b hj hk
    · exact absurd (hb.lt j b hj) (by rw [hk.number]; exact Nat.lt_irrefl _)
    · exact absurd (hb.lt k b hk) (by rw [hj.number]; exact Nat.lt_irrefl _)
    · rcases hj.event with rfl | rfl <;> rcases hk.event with h | h <;> cases h <;> rfl
  · -- what was in the table is of another exchange than what a first turn adds
    have hapart : ∀ {i j k entry other}, c.pending.get? i = some entry → c.Entered k j other →
        entry.exchange ≠ other.exchange := by
      rintro i j k entry other hi ⟨x, hx, hf, _, rfl⟩ rfl
      obtain ⟨y, hy, hw, _⟩ := hv.owned i entry hi
      rw [hx] at hy
      rw [← Option.some.inj hy] at hw
      simp [Exchange.isUnderWay, hf] at hw
    intro i j entry other hi hj heq
    rcases pending_apply hi with hold | ⟨k, rfl, hnew⟩ <;>
      rcases pending_apply hj with hold' | ⟨l, hl, hnew'⟩
    · exact hb.same i j entry other hold hold' heq
    · exact absurd heq (hapart hold hnew')
    · exact absurd heq.symm (hapart hold' hnew)
    · obtain rfl := Event.run.inj hl
      obtain ⟨x, hx, _, _, rfl⟩ := hnew
      obtain ⟨y, hy, _, _, rfl⟩ := hnew'
      rw [hx] at hy
      rw [Option.some.inj hy]

theorem not_hasNumber_empty (k b : Nat) : ¬HasNumber {} k b := by
  rintro (h | ⟨i, entry, hp, _⟩)
  · simp [reservation, Table.get?] at h
  · simp [Table.get?] at hp

theorem batches_empty : Batches {} where
  lt k b h := absurd h (not_hasNumber_empty k b)
  apart j k b h := absurd h (not_hasNumber_empty j b)
  same i j entry other h := by simp [Table.get?] at h

theorem batches_after (events : List Event) : (after events).Batches := by
  induction events using List.reverseRecOn with
  | nil => exact batches_empty
  | append_singleton events e ih =>
    rw [after_concat]
    exact ih.apply (valid_after events) e

/-! ### What an error without an id fails -/

/-- The exchange that an error without an id would fail: that of the oldest batch in the table. -/
def rejected? (c : Calls) : Option Nat :=
  c.oldestBatch?.bind fun batch =>
    (c.pending.find? fun p => p.2.batch = some batch).map fun p => p.2.exchange

/-- The oldest batch has a pending call, which names its exchange. -/
theorem rejected_eq_some_iff {c : Calls} (hb : c.Batches) (hd : c.pending.keys.Nodup) (j : Nat) :
    c.rejected? = some j ↔
      ∃ i entry, c.pending.get? i = some entry ∧ entry.exchange = j ∧ entry.batch.isSome = true ∧
        entry.batch = c.oldestBatch? := by
  unfold rejected?
  cases hold : c.oldestBatch? with
  | none =>
    refine iff_of_false (by simp) ?_
    rintro ⟨i, entry, _, _, hsome, hnone⟩
    simp [hnone] at hsome
  | some b =>
    rw [Option.bind_some]
    constructor
    · intro h
      obtain ⟨⟨i, entry⟩, hfind, rfl⟩ := Option.map_eq_some_iff.1 h
      have hbatch : entry.batch = some b := by simpa using List.find?_some hfind
      exact ⟨i, entry, Table.get?_of_mem hd (List.mem_of_find?_eq_some hfind), rfl,
        by simp [hbatch], hbatch⟩
    · rintro ⟨i, entry, hp, rfl, hsome, hbatch⟩
      cases hfind : c.pending.find? fun p => p.2.batch = some b with
      | none =>
        have h := List.find?_eq_none.1 hfind _ (Table.mem_of_get? hp)
        simp [hbatch] at h
      | some p =>
        have hother := Table.get?_of_mem hd (List.mem_of_find?_eq_some hfind)
        have hsame : p.2.batch = some b := by simpa using List.find?_some hfind
        rw [Option.map_some, Option.some.injEq]
        exact ((hb.batch_iff i p.1 entry p.2 hp hother hsome).2 (hbatch.trans hsame.symm)).symm

/-- An error without an id fails what is pending of one exchange. -/
theorem rejectionAnswers_eq {c : Calls} (hb : c.Batches) (hd : c.pending.keys.Nodup)
    (error : ErrorObject) :
    c.rejectionAnswers error =
      (c.pending.filter fun p => c.rejected? = some p.2.exchange).map fun p =>
        (p.1, .error (.protocol error)) := by
  unfold rejectionAnswers
  cases hold : c.oldestBatch? with
  | none => simp [rejected?, hold]
  | some b =>
    have hsame : c.pending.filter (fun p => p.2.batch = some b) =
        c.pending.filter fun p => c.rejected? = some p.2.exchange := by
      refine List.filter_congr fun p hp => ?_
      rw [decide_eq_decide, rejected_eq_some_iff hb hd, hold]
      have hget := Table.get?_of_mem hd hp
      constructor
      · exact fun hbatch => ⟨p.1, p.2, hget, rfl, by simp [hbatch], hbatch⟩
      · rintro ⟨i, entry, hi, he, hsome, hbatch⟩
        rw [← hbatch]
        exact ((hb.batch_iff i p.1 entry p.2 hi hget hsome).1 he).symm
    simp [ofBatch, hsame]

/-- Answers leave an exchange alone that waits for none of them. -/
theorem exchanges_answerAll_of_ne (as : Table Nat Outcome) (c : Calls) {j : Nat}
    (h : ∀ i ∈ as.keys, (c.pending.get? i).map Entry.exchange ≠ some j) :
    (c.answerAll as).exchanges[j]? = c.exchanges[j]? := by
  induction as generalizing c with
  | nil => rfl
  | cons a as ih =>
    have ha : (c.pending.get? a.1).map Entry.exchange ≠ some j := h a.1 (by simp)
    rw [answerAll_cons, ih, exchanges_answer]
    · simp [ha]
    · intro i hi
      rw [pending_answer]
      split
      · simp
      · exact h i (by simp [hi])

/-- It answers what is pending of that exchange. -/
theorem mem_rejectionAnswers_iff {c : Calls} (hb : c.Batches) (hd : c.pending.keys.Nodup)
    (error : ErrorObject) {i : Nat} {entry : Entry} (hp : c.pending.get? i = some entry) :
    i ∈ Table.keys (c.rejectionAnswers error) ↔ c.rejected? = some entry.exchange := by
  rw [rejectionAnswers_eq hb hd, Table.keys, List.map_map]
  constructor
  · intro h
    obtain ⟨p, hmem, rfl⟩ := List.mem_map.1 h
    obtain ⟨hpair, hrejected⟩ := List.mem_filter.1 hmem
    have hsame := hp.symm.trans (Table.get?_of_mem hd hpair)
    rw [Option.some.inj hsame]
    simpa using hrejected
  · exact fun h => List.mem_map.2
      ⟨(i, entry), List.mem_filter.2 ⟨Table.mem_of_get? hp, by simp [h]⟩, rfl⟩

/-- An error without an id changes the exchange that it fails, and no other. -/
theorem rejected_iff_changed {c : Calls} (hb : c.Batches) (hv : c.Valid) (error : ErrorObject)
    (j : Nat) :
    c.rejected? = some j ↔ (c.reject error).exchanges[j]? ≠ c.exchanges[j]? := by
  have hkeys : ∀ i entry, c.pending.get? i = some entry →
      (i ∈ Table.keys (c.rejectionAnswers error) ↔ c.rejected? = some entry.exchange) :=
    fun _ _ => mem_rejectionAnswers_iff hb hv.keysNodup error
  constructor
  · intro hj hsame
    obtain ⟨i, entry, hp, rfl, hsome, _⟩ := (rejected_eq_some_iff hb hv.keysNodup j).1 hj
    obtain ⟨x, hx, _, _, hnone, _⟩ := hv.owned i entry hp
    rw [hx] at hsame
    obtain ⟨y, hy, _, hans⟩ := exchanges_answerAll _ c entry.exchange hsame
    rw [hx] at hy
    obtain rfl := Option.some.inj hy
    -- the call is answered now, so the exchange is not the same
    have h := hans i
    rw [hp, Option.map_some, if_pos rfl, hnone, Option.or_none] at h
    exact (Table.get?_eq_none_iff _ _).1 h.symm ((hkeys i entry hp).2 hj)
  · intro hne
    by_contra hj
    refine hne (exchanges_answerAll_of_ne _ c fun i hi hwaits => hj ?_)
    obtain ⟨entry, hp, rfl⟩ := Option.map_eq_some_iff.1 hwaits
    exact (hkeys i entry hp).1 hi

end NodeRpc.Calls
