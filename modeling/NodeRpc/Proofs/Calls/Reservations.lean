import Mathlib.Data.List.Nodup
import NodeRpc.Calls.Run

/-!
# Numbers that are taken ahead

An exchange may take some of its numbers before the step in which it enters its calls, and others
may take theirs and enter in between. An id that is reserved is nobody else's: it lies below the
next id and is reserved once (`Reserves`). What the first turn takes in addition lies above, so
together they are as many new ids as there are calls (`newIds`). An id is `Spent` once it is neither
reserved nor still to be taken; it can then not enter the table any more.
-/

namespace NodeRpc.Calls

variable {c c' : Calls} {i j k : Nat} {x : Exchange}

/-- The id `i` has been taken, and not for an exchange that has yet to enter its calls. -/
def Spent (c : Calls) (i : Nat) : Prop := i < c.nextId ∧ ∀ k, i ∉ (c.reservation k).ids

/-- What holds of reserved ids at all times. -/
structure Reserves (c : Calls) : Prop where
  lt : ∀ k, ∀ i ∈ (c.reservation k).ids, i < c.nextId
  nodup : ∀ k, (c.reservation k).ids.Nodup
  apart : ∀ j k i, i ∈ (c.reservation j).ids → i ∈ (c.reservation k).ids → j = k
  /-- An exchange reserves no more ids than it has calls, and none before it is made. -/
  fits : ∀ k, (c.reservation k).ids.length ≤
    ((c.exchanges[k]?).map fun x => x.calls.length).getD 0

/-- How many ids the first turn of `x` takes. -/
def lacking (c : Calls) (k : Nat) (x : Exchange) : Nat :=
  x.calls.length - (c.reservation k).ids.length

/-- The ids with which exchange `k` enters its calls if it is `x`. -/
def newIds (c : Calls) (k : Nat) (x : Exchange) : List Nat :=
  (c.reservation k).ids ++ List.range' c.nextId (c.lacking k x)

/-- The number of the batch with which exchange `k` enters its calls if it is `x`. -/
def newBatch? (c : Calls) (k : Nat) (x : Exchange) : Option Nat :=
  if x.batched then some ((c.reservation k).batch.getD c.nextBatch) else none

/-! ### What is reserved -/

theorem reserves_empty : Reserves {} where
  lt k i hi := by simp [reservation, Table.get?] at hi
  nodup k := by simp [reservation, Table.get?]
  apart j k i hi := by simp [reservation, Table.get?] at hi
  fits k := by simp [reservation, Table.get?]

theorem reservation_congr (h : c'.reserved = c.reserved) (k : Nat) :
    c'.reservation k = c.reservation k := by
  rw [reservation, h, reservation]

theorem reservation_put {r : Reservation} (h : c'.reserved = c.reserved.put k r) (j : Nat) :
    c'.reservation j = if k = j then r else c.reservation j := by
  rw [reservation, h, Table.get?_put]
  split <;> rfl

theorem reservation_erase (h : c'.reserved = c.reserved.erase k) (j : Nat) :
    c'.reservation j = if k = j then {} else c.reservation j := by
  rw [reservation, h, Table.get?_erase]
  split <;> rfl

/-- Where nothing is taken and no exchange gets other calls, what is reserved is what it was. -/
theorem Reserves.congr (h : c.Reserves) (hreserved : c'.reserved = c.reserved)
    (hnext : c'.nextId = c.nextId)
    (hcalls : ∀ k : Nat, (c'.exchanges[k]?).map Exchange.calls =
      (c.exchanges[k]?).map Exchange.calls) : c'.Reserves where
  lt k i hi := by
    rw [reservation_congr hreserved] at hi
    rw [hnext]
    exact h.lt k i hi
  nodup k := by
    rw [reservation_congr hreserved]
    exact h.nodup k
  apart j k i hi hi' := by
    rw [reservation_congr hreserved] at hi hi'
    exact h.apart j k i hi hi'
  fits k := by
    have hlength : ∀ o : Option Exchange, o.map (fun x => x.calls.length) =
        (o.map Exchange.calls).map List.length := fun o => by rw [Option.map_map]; rfl
    rw [reservation_congr hreserved, hlength, hcalls, ← hlength]
    exact h.fits k

theorem spent_congr (hreserved : c'.reserved = c.reserved) (hnext : c'.nextId = c.nextId) :
    c'.Spent i ↔ c.Spent i := by
  unfold Spent
  rw [hnext]
  simp only [reservation_congr hreserved]

theorem Reserves.make (h : c.Reserves) (calls : List Call) (batched : Bool) (token : Token) :
    (c.make calls batched token).Reserves where
  lt := h.lt
  nodup := h.nodup
  apart := h.apart
  fits k := by
    have hfits := h.fits k
    cases hx : c.exchanges[k]? with
    | none =>
      rw [hx, Option.map_none, Option.getD_none] at hfits
      exact Nat.le_trans hfits (Nat.zero_le _)
    | some x =>
      have hlt := (List.getElem?_eq_some_iff.1 hx).1
      have hsame : (c.make calls batched token).exchanges[k]? = some x := by
        simpa [Calls.make, List.getElem?_append, hlt] using hx
      rw [hsame]
      rwa [hx] at hfits

/-! ### New ids -/

theorem length_newIds (h : c.Reserves) (hx : c.exchanges[k]? = some x) :
    (c.newIds k x).length = x.calls.length := by
  have hfits := h.fits k
  rw [hx, Option.map_some, Option.getD_some] at hfits
  simp only [newIds, lacking, List.length_append, List.length_range']
  omega

theorem mem_newIds : i ∈ c.newIds k x ↔
    i ∈ (c.reservation k).ids ∨ c.nextId ≤ i ∧ i < c.nextId + c.lacking k x := by
  rw [newIds, List.mem_append, List.mem_range'_1]

theorem nodup_newIds (h : c.Reserves) (k : Nat) (x : Exchange) : (c.newIds k x).Nodup := by
  refine List.nodup_append.2 ⟨h.nodup k, List.nodup_range', ?_⟩
  rintro i hi j hj rfl
  have hlt := h.lt k i hi
  rw [List.mem_range'_1] at hj
  omega

/-- New ids are spent by nobody before. -/
theorem not_spent_of_mem_newIds (hi : i ∈ c.newIds k x) : ¬c.Spent i := by
  rintro ⟨hlt, hfree⟩
  rcases mem_newIds.1 hi with hr | ⟨hge, _⟩
  · exact hfree k hr
  · omega

/-- New ids are spent once the exchange has entered its calls. -/
theorem spent_of_mem_newIds (h : c.Reserves) (hnext : c'.nextId = c.nextId + c.lacking k x)
    (hreserved : c'.reserved = c.reserved.erase k) (hi : i ∈ c.newIds k x) : c'.Spent i := by
  refine ⟨?_, fun j hj => ?_⟩
  · rw [hnext]
    rcases mem_newIds.1 hi with hr | ⟨_, hlt⟩
    · have := h.lt k i hr
      omega
    · exact hlt
  · rw [reservation_erase hreserved] at hj
    split at hj
    · simp at hj
    · next hne =>
      rcases mem_newIds.1 hi with hr | ⟨hge, _⟩
      · exact hne (h.apart k j i hr hj)
      · have := h.lt j i hj
        omega

/-- What is spent stays spent as numbers are taken and exchanges enter their calls. -/
theorem Spent.mono (h : c.Spent i) (hnext : c.nextId ≤ c'.nextId)
    (hreserved : ∀ k, i ∈ (c'.reservation k).ids →
      i ∈ (c.reservation k).ids ∨ c.nextId ≤ i) : c'.Spent i := by
  refine ⟨Nat.lt_of_lt_of_le h.1 hnext, fun k hi => ?_⟩
  rcases hreserved k hi with hi | hge
  · exact h.2 k hi
  · exact absurd h.1 (Nat.not_lt.2 hge)

/-! ### Taking a number -/

/-- To reserve is to take the number of a batch, or an id, for an exchange that has not started; or
there is nothing to take. -/
inductive Reserved (c : Calls) (k : Nat) : Calls → Prop where
  | nothing : Reserved c k c
  | batch (x : Exchange) (hx : c.exchanges[k]? = some x) (hf : x.stage = .fresh)
      (hne : x.calls ≠ []) (hbatched : x.batched = true) (hnone : (c.reservation k).batch = none) :
      Reserved c k { c with
        nextBatch := c.nextBatch + 1
        reserved := c.reserved.put k { c.reservation k with batch := some c.nextBatch } }
  | id (x : Exchange) (hx : c.exchanges[k]? = some x) (hf : x.stage = .fresh)
      (hbatch : x.batched = true → (c.reservation k).batch.isSome = true)
      (hlt : (c.reservation k).ids.length < x.calls.length) :
      Reserved c k { c with
        nextId := c.nextId + 1
        reserved := c.reserved.put k
          { c.reservation k with ids := (c.reservation k).ids ++ [c.nextId] } }

theorem reserved_reserve (c : Calls) (k : Nat) : c.Reserved k (c.reserve k) := by
  unfold reserve
  split
  · exact .nothing
  · next x hx =>
    dsimp only
    split
    · exact .nothing
    · next hopen =>
      obtain ⟨hf, hne⟩ : x.stage = .fresh ∧ x.calls ≠ [] := by simpa using hopen
      split
      · next hbatch =>
        obtain ⟨hbatched, hnone⟩ : x.batched = true ∧ (c.reservation k).batch = none := by
          simpa using hbatch
        exact .batch x hx hf hne hbatched hnone
      · next hbatch =>
        split
        · next hlt => exact .id x hx hf (by simpa [Option.isSome_iff_ne_none] using hbatch) hlt
        · exact .nothing

/-- To reserve leaves alone all but the numbers. -/
theorem reserve_frame (c : Calls) (k : Nat) : c.reserve k = { c with
    nextId := (c.reserve k).nextId
    nextBatch := (c.reserve k).nextBatch
    reserved := (c.reserve k).reserved } := by
  have h := c.reserved_reserve k
  generalize c.reserve k = c' at h
  cases h <;> rfl

@[simp] theorem exchanges_reserve (c : Calls) (k : Nat) :
    (c.reserve k).exchanges = c.exchanges := by rw [reserve_frame]

@[simp] theorem pending_reserve (c : Calls) (k : Nat) : (c.reserve k).pending = c.pending := by
  rw [reserve_frame]

@[simp] theorem closed_reserve (c : Calls) (k : Nat) : (c.reserve k).closed = c.closed := by
  rw [reserve_frame]

@[simp] theorem cancelled_reserve (c : Calls) (k : Nat) :
    (c.reserve k).cancelled = c.cancelled := by rw [reserve_frame]

@[simp] theorem written_reserve (c : Calls) (k : Nat) : (c.reserve k).written = c.written := by
  rw [reserve_frame]

theorem nextBatch_le_reserve (c : Calls) (k : Nat) : c.nextBatch ≤ (c.reserve k).nextBatch := by
  have h := c.reserved_reserve k
  generalize c.reserve k = c' at h
  cases h with
  | nothing => exact Nat.le_refl _
  | batch => exact Nat.le_succ _
  | id => exact Nat.le_refl _

/-- The next id is new to all that have reserved ids. -/
theorem Reserves.putId (h : c.Reserves) {x : Exchange} (hx : c.exchanges[k]? = some x)
    (hlt : (c.reservation k).ids.length < x.calls.length) :
    Reserves { c with
      nextId := c.nextId + 1
      reserved := c.reserved.put k
        { c.reservation k with ids := (c.reservation k).ids ++ [c.nextId] } } := by
  have hids : ∀ j, (({ c with
      nextId := c.nextId + 1
      reserved := c.reserved.put k
        { c.reservation k with ids := (c.reservation k).ids ++ [c.nextId] } } :
      Calls).reservation j).ids =
      if k = j then (c.reservation k).ids ++ [c.nextId] else (c.reservation j).ids := by
    intro j
    rw [reservation_put (c := c) rfl]
    split <;> rfl
  have hmem : ∀ j i, i ∈ (if k = j then (c.reservation k).ids ++ [c.nextId]
      else (c.reservation j).ids) ↔ i ∈ (c.reservation j).ids ∨ k = j ∧ i = c.nextId := by
    intro j i
    split
    · next he => simp [he]
    · next hne => simp [hne]
  constructor <;> simp only [hids]
  case lt =>
    intro j i hi
    rcases (hmem j i).1 hi with hi | ⟨_, rfl⟩
    · exact Nat.lt_succ_of_lt (h.lt j i hi)
    · exact Nat.lt_succ_self _
  case nodup =>
    intro j
    split
    · refine List.nodup_append.2 ⟨h.nodup k, by simp, ?_⟩
      rintro i hi _ hn rfl
      obtain rfl := List.mem_singleton.1 hn
      exact Nat.lt_irrefl _ (h.lt k _ hi)
    · exact h.nodup j
  case apart =>
    intro j j' i hi hi'
    rcases (hmem j i).1 hi with hi | ⟨hj, he⟩ <;> rcases (hmem j' i).1 hi' with hi' | ⟨hj', he'⟩
    · exact h.apart j j' i hi hi'
    · exact absurd (h.lt j i hi) (by omega)
    · exact absurd (h.lt j' i hi') (by omega)
    · exact hj.symm.trans hj'
  case fits =>
    intro j
    split
    · next he =>
      rw [← he, hx, Option.map_some, Option.getD_some, List.length_append]
      exact hlt
    · exact h.fits j

theorem Reserves.reserve (h : c.Reserves) (k : Nat) : (c.reserve k).Reserves := by
  have hr := c.reserved_reserve k
  generalize c.reserve k = c' at hr
  cases hr with
  | nothing => exact h
  | batch x hx hf hne hbatched hnone =>
    -- the ids are those that were reserved before
    have hids : ∀ j, (({ c with
        nextBatch := c.nextBatch + 1
        reserved := c.reserved.put k { c.reservation k with batch := some c.nextBatch } } :
        Calls).reservation j).ids = (c.reservation j).ids := by
      intro j
      rw [reservation_put (c := c) rfl]
      split
      · next he => rw [he]
      · rfl
    constructor <;> simp only [hids]
    case lt => exact h.lt
    case nodup => exact h.nodup
    case apart => exact h.apart
    case fits => exact h.fits
  | id x hx hf hbatch hlt => exact h.putId hx hlt

/-- What an exchange has reserved is reserved no more once it has entered its calls. -/
theorem Reserves.erase (h : c.Reserves) (hreserved : c'.reserved = c.reserved.erase k)
    (hnext : c.nextId ≤ c'.nextId)
    (hcalls : ∀ k : Nat, (c'.exchanges[k]?).map Exchange.calls =
      (c.exchanges[k]?).map Exchange.calls) : c'.Reserves := by
  have hids : ∀ j, (c'.reservation j).ids = if k = j then [] else (c.reservation j).ids := by
    intro j
    rw [reservation_erase hreserved]
    split <;> rfl
  have hsub : ∀ j i, i ∈ (c'.reservation j).ids → i ∈ (c.reservation j).ids := by
    intro j i hi
    rw [hids] at hi
    split at hi
    · simp at hi
    · exact hi
  refine {
    lt := fun j i hi => ?lt
    nodup := fun j => ?nodup
    apart := fun j j' i hi hi' => ?apart
    fits := fun j => ?fits }
  case lt => exact Nat.lt_of_lt_of_le (h.lt j i (hsub j i hi)) hnext
  case nodup =>
    rw [hids]
    split
    · exact List.nodup_nil
    · exact h.nodup j
  case apart => exact h.apart j j' i (hsub j i hi) (hsub j' i hi')
  case fits =>
    have hlength : ∀ o : Option Exchange, o.map (fun x => x.calls.length) =
        (o.map Exchange.calls).map List.length := fun o => by rw [Option.map_map]; rfl
    rw [hids, hlength, hcalls, ← hlength]
    split
    · exact Nat.zero_le _
    · exact h.fits j

theorem spent_reserve {i : Nat} (h : c.Spent i) (k : Nat) : (c.reserve k).Spent i := by
  have hr := c.reserved_reserve k
  generalize c.reserve k = c' at hr
  cases hr with
  | nothing => exact h
  | batch x hx hf hne hbatched hnone =>
    refine h.mono (Nat.le_refl _) fun j hi => .inl ?_
    rw [reservation_put (c := c) rfl] at hi
    split at hi
    · next he => exact he ▸ hi
    · exact hi
  | id x hx hf hbatch hlt =>
    refine h.mono (Nat.le_succ _) fun j hi => ?_
    rw [reservation_put (c := c) rfl] at hi
    split at hi
    · next he =>
      rw [List.mem_append, List.mem_singleton] at hi
      exact hi.imp (fun hi => he ▸ hi) fun heq => Nat.le_of_eq heq.symm
    · exact .inl hi

end NodeRpc.Calls
