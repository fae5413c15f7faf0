import NodeRpc.Proofs.Lookup.Joins

/-!
# What an event does to a coalescer

An event makes a load, queues one, hands the queue over, moves a load, ends a batch or does nothing:
`Step` lists these, and `step_apply` shows that there is nothing else where leaders that are given
up hand the queue over. What is queued and what batches come to is read off the events of a run.
-/

namespace NodeRpc

/-! ### Pieces -/

theorem length_of_mem_pieces {α : Type} (n : Nat) (xs : List α) :
    ∀ piece ∈ pieces n xs, 1 ≤ piece.length ∧ piece.length ≤ max n 1 := by
  fun_induction pieces n xs with
  | case1 => simp
  | case2 x xs ih =>
    intro piece h
    rcases List.mem_cons.1 h with rfl | h
    · simp only [List.length_cons, List.length_take]
      omega
    · exact ih piece h

/-- Only the last piece may be short. -/
theorem length_of_mem_dropLast_pieces {α : Type} (n : Nat) (xs : List α) :
    ∀ piece ∈ (pieces n xs).dropLast, piece.length = max n 1 := by
  fun_induction pieces n xs with
  | case1 => simp
  | case2 x xs ih =>
    intro piece h
    cases hrest : xs.drop (n - 1) with
    | nil => simp [hrest, pieces] at h
    | cons y ys =>
      have hlen := congrArg List.length hrest
      rw [List.length_drop, List.length_cons] at hlen
      have hne : pieces n (xs.drop (n - 1)) ≠ [] := by simp [hrest, pieces]
      rw [List.dropLast_cons_of_ne_nil hne] at h
      rcases List.mem_cons.1 h with rfl | h
      · simp only [List.length_cons, List.length_take]
        omega
      · exact ih piece h

/-- The share of the load at place `i` of a batch in what the batch comes to. -/
def Batch.share {κ : Type} (b : Batch κ) (i : Nat) :
    BatchOutcome → Option (Except LookupError Json)
  | .ok results =>
    if results.length = b.keys.length then results[i]?
    else some (.error (.batchMismatch b.keys.length results.length))
  | .error cause => some (.error cause)

namespace Coalescer

variable {κ : Type}

/-! ### What a run shows -/

/-- Whether leaders that are given up hand the queue over. -/
def Event.Inside (e : Event κ) : Prop := ∀ k, e ≠ .drop k false

/-- The load that is queued by an event, with its key. -/
def queues (c : Coalescer κ) : Event κ → List (Nat × κ)
  | .poll k =>
    match c.joins[k]? with
    | some x => if x.stage = .fresh then [(k, x.key)] else []
    | none => []
  | _ => []

/-- The batch that comes to an outcome by an event. -/
def concludes (c : Coalescer κ) : Event κ → List (Nat × BatchOutcome)
  | .finish n outcome =>
    match c.batches[n]? with
    | some b => if b.finished then [] else [(n, outcome)]
    | none => []
  | _ => []

/-- The loads that were queued, in this order, with their keys. -/
def queued (limit : Nat) (events : List (Event κ)) : List (Nat × κ) :=
  observed apply queues { limit } events

/-- The outcomes of batches. -/
def outcomes (limit : Nat) (events : List (Event κ)) : List (Nat × BatchOutcome) :=
  observed apply concludes { limit } events

/-- The loads that were handed over in batches, in this order, with their keys. -/
def handed (c : Coalescer κ) : List (Nat × κ) := c.batches.flatMap fun b => b.joins.zip b.keys

/-- By an event the leader goes on, or is given up. -/
def Relieves (c : Coalescer κ) (e : Event κ) : Prop :=
  ∃ k, c.stageOf? k = some .leading ∧ (e = .poll k ∨ e = .drop k true)

/-- Load `k` has the result `r` coming: its batch has come to an outcome, of which that is its
share. -/
def Due (c : Coalescer κ) (ends : List (Nat × BatchOutcome)) (k : Nat)
    (r : Except LookupError Json) : Prop :=
  ∃ n b i outcome, c.batches[n]? = some b ∧ b.joins[i]? = some k ∧ (n, outcome) ∈ ends ∧
    b.share i outcome = some r

/-! ### What an event does -/

/-- The coalescer after load `k` was queued. -/
def enqueue (c : Coalescer κ) (k : Nat) (key : κ) : Coalescer κ :=
  { c with queue := c.queue ++ [(k, key)] }.setStage k
    (if c.queue.isEmpty then .leading else .waiting)

/-- The coalescer after batch `n` came to an outcome that gives the answers `as`. -/
def conclude (c : Coalescer κ) (n : Nat) (as : List (Nat × Except LookupError Json)) :
    Coalescer κ :=
  { c with
    joins := (c.answerAll as).joins
    batches := c.batches.modify n fun b => { b with finished := true } }

/-- What an event can do where leaders that are given up hand the queue over. -/
inductive Step (c : Coalescer κ) : Event κ → Coalescer κ → Prop where
  | make (key : κ) : Step c (.make key) (c.make key)
  | enqueue {k : Nat} {x : Join κ} (hx : c.joins[k]? = some x) (hf : x.stage = .fresh) :
      Step c (.poll k) (c.enqueue k x.key)
  | handOver {k : Nat} {e : Event κ} {stage : JoinStage} (hl : c.stageOf? k = some .leading)
      (he : e = .poll k ∨ e = .drop k true) (hs : stage ≠ .fresh ∧ stage ≠ .leading) :
      Step c e (c.dispatch.setStage k stage)
  | move {k : Nat} {e : Event κ} {s stage : JoinStage} (h : c.stageOf? k = some s)
      (he : e = .poll k ∧ s = .waiting ∨ e = .drop k true ∧ s ≠ .leading)
      (hs : stage ≠ .fresh ∧ stage ≠ .leading) : Step c e (c.setStage k stage)
  | conclude {n : Nat} {b : Batch κ} {outcome : BatchOutcome} (hb : c.batches[n]? = some b)
      (hf : b.finished = false) :
      Step c (.finish n outcome) (c.conclude n (answers b outcome))
  | idle {e : Event κ} (hq : c.queues e = []) (hc : c.concludes e = []) (hr : ¬ c.Relieves e) :
      Step c e c

theorem step_finish (c : Coalescer κ) (n : Nat) (outcome : BatchOutcome) :
    Step c (.finish n outcome) (c.finish n outcome) := by
  have hrelieves : ¬ c.Relieves (.finish n outcome) := by
    rintro ⟨k, _, h | h⟩ <;> simp at h
  by_cases h : ∀ b, c.batches[n]? = some b → b.finished = true
  · rw [finish_of_finished outcome h]
    refine .idle rfl ?_ hrelieves
    dsimp only [concludes]
    split
    · next b hb => rw [if_pos (h b hb)]
    · rfl
  · push Not at h
    obtain ⟨b, hb, hf⟩ := h
    have hf : b.finished = false := by simpa using hf
    rw [show c.finish n outcome = c.conclude n (answers b outcome) from finish_eq hb hf outcome]
    exact .conclude hb hf

theorem step_poll (c : Coalescer κ) (k : Nat) : Step c (.poll k) (c.poll k) := by
  have hidle : (∀ x, c.joins[k]? = some x → x.stage ≠ .fresh ∧ x.stage ≠ .leading) →
      Step c (.poll k) c := by
    intro h
    refine .idle ?_ rfl ?_
    · dsimp only [queues]
      split
      · next x hx => rw [if_neg (h x hx).1]
      · rfl
    · rintro ⟨j, hj, he | he⟩
      · obtain rfl := Event.poll.inj he
        obtain ⟨x, hx, hs⟩ := Option.map_eq_some_iff.1 hj
        exact (h x hx).2 hs
      · simp at he
  have hlook : ∀ (q : Coalescer κ) x, q.joins[k]? = some x →
      ∃ stage, (stage ≠ .fresh ∧ stage ≠ .leading) ∧ q.look k = q.setStage k stage := by
    intro q x hx
    refine ⟨if x.answer.isSome then .done else .waiting, by split <;> simp, ?_⟩
    simp [look, hx]
  unfold poll
  cases hx : c.joins[k]? with
  | none => exact hidle fun x hx' => by simp [hx] at hx'
  | some x =>
    have hstage : c.stageOf? k = some x.stage := by simp [stageOf?, hx]
    have hover : x.stage ≠ .fresh ∧ x.stage ≠ .leading → Step c (.poll k) c := by
      intro hs
      refine hidle fun x' hx' => ?_
      obtain rfl := Option.some.inj (hx.symm.trans hx')
      exact hs
    dsimp only
    split
    · next hf => exact .enqueue hx hf
    · next hl =>
      obtain ⟨stage, hs, heq⟩ := hlook c.dispatch x hx
      rw [heq]
      exact .handOver (by rw [hstage, hl]) (.inl rfl) hs
    · next hw =>
      obtain ⟨stage, hs, heq⟩ := hlook c x hx
      rw [heq]
      exact .move hstage (.inl ⟨rfl, hw⟩) hs
    · next hd => exact hover (by simp [hd])
    · next hd => exact hover (by simp [hd])

theorem step_drop (c : Coalescer κ) (k : Nat) : Step c (.drop k true) (c.drop k true) := by
  have hidle : c.stageOf? k ≠ some .leading → Step c (.drop k true) c := by
    intro h
    refine .idle rfl rfl ?_
    rintro ⟨j, hj, he | he⟩
    · simp at he
    · obtain ⟨rfl, _⟩ := Event.drop.inj he
      exact h hj
  unfold drop
  cases hx : c.joins[k]? with
  | none => exact hidle (by simp [stageOf?, hx])
  | some x =>
    have hstage : c.stageOf? k = some x.stage := by simp [stageOf?, hx]
    dsimp only
    split
    · next hl => exact .handOver (by rw [hstage, hl]) (.inr rfl) (by simp)
    · next hf => exact .move hstage (.inr ⟨rfl, by simp [hf]⟩) (by simp)
    · next hw => exact .move hstage (.inr ⟨rfl, by simp [hw]⟩) (by simp)
    · next hd => exact hidle (by simp [hstage, hd])
    · next hd => exact hidle (by simp [hstage, hd])

theorem step_apply (c : Coalescer κ) {e : Event κ} (he : e.Inside) : Step c e (c.apply e) := by
  cases e with
  | make key => exact .make key
  | poll k => exact c.step_poll k
  | finish n outcome => exact c.step_finish n outcome
  | drop k inside =>
    cases inside with
    | false => exact absurd rfl (he k)
    | true => exact c.step_drop k

/-! ### What is handed over -/

variable {c c' : Coalescer κ}

/-- The batches that a queue is handed over in. -/
def batchesOf (limit : Nat) (queue : List (Nat × κ)) : List (Batch κ) :=
  (pieces limit queue).map fun piece => { joins := piece.map (·.1), keys := piece.map (·.2) }

theorem flatMap_batchesOf (limit : Nat) (queue : List (Nat × κ)) :
    ((batchesOf limit queue).flatMap fun b => b.joins.zip b.keys) = queue := by
  have hzip : ∀ piece : List (Nat × κ), (piece.map (·.1)).zip (piece.map (·.2)) = piece :=
    fun piece => by rw [List.zip_map', List.map_id'' fun _ => rfl]
  unfold batchesOf
  rw [List.flatMap_map]
  simp only [hzip]
  rw [List.flatMap_id', pieces_flatten]

theorem handed_dispatch (c : Coalescer κ) : c.dispatch.handed = c.handed ++ c.queue := by
  have hbatches : c.dispatch.batches = c.batches ++ batchesOf c.limit c.queue := rfl
  rw [handed, hbatches, List.flatMap_append, flatMap_batchesOf]
  rfl

/-- A batch that comes to an outcome keeps its loads and keys. -/
theorem map_conclude {α : Type} {f : Batch κ → α} (hf : ∀ b, f { b with finished := true } = f b)
    (c : Coalescer κ) (n : Nat) (as : List (Nat × Except LookupError Json)) :
    (c.conclude n as).batches.map f = c.batches.map f := map_modify_of_eq hf n c.batches

theorem getElem?_batches_conclude {n : Nat} {b : Batch κ} (hb : c.batches[n]? = some b)
    (as : List (Nat × Except LookupError Json)) (m : Nat) : (c.conclude n as).batches[m]? =
      if n = m then some { b with finished := true } else c.batches[m]? := by
  refine (List.getElem?_modify _ n c.batches m).trans ?_
  by_cases hm : n = m
  · subst hm
    simp [hb]
  · simp [hm]

theorem getElem?_batches_finish {n : Nat} {b : Batch κ} (hb : c.batches[n]? = some b)
    (hf : b.finished = false) (outcome : BatchOutcome) (m : Nat) :
    (c.finish n outcome).batches[m]? =
      if n = m then some { b with finished := true } else c.batches[m]? := by
  rw [finish_eq hb hf]
  exact getElem?_batches_conclude hb (answers b outcome) m

theorem handed_conclude (c : Coalescer κ) (n : Nat) (as : List (Nat × Except LookupError Json)) :
    (c.conclude n as).handed = c.handed := by
  unfold handed
  rw [List.flatMap_def, List.flatMap_def, map_conclude fun _ => rfl]

/-- When the leader goes on or is given up, the queue is handed over in pieces. -/
theorem Step.relieved {e : Event κ} (h : Step c e c') (he : c.Relieves e) : c'.queue = [] ∧
    ∃ new, c'.batches = c.batches ++ new ∧
      (new.flatMap fun b => b.joins.zip b.keys) = c.queue ∧
      ∀ b ∈ new.dropLast, b.keys.length = max c.limit 1 := by
  obtain ⟨j, hj, hej⟩ := he
  cases h with
  | make key => simp at hej
  | @enqueue k x hx hf =>
    obtain rfl : k = j := by simpa using hej
    simp [stageOf?, hx, hf] at hj
  | handOver _ _ _ =>
    refine ⟨rfl, batchesOf c.limit c.queue, rfl, flatMap_batchesOf c.limit c.queue, ?_⟩
    intro b hb
    rw [batchesOf, ← List.map_dropLast] at hb
    obtain ⟨piece, hpiece, rfl⟩ := List.mem_map.1 hb
    rw [List.length_map]
    exact length_of_mem_dropLast_pieces c.limit c.queue piece hpiece
  | @move k _ s stage hk hek _ =>
    rcases hek with ⟨rfl, rfl⟩ | ⟨rfl, hne⟩
    · obtain rfl : k = j := by simpa using hej
      simp [hk] at hj
    · obtain rfl : k = j := by simpa using hej
      exact absurd (Option.some.inj (hk.symm.trans hj)) hne
  | conclude _ _ => simp at hej
  | idle _ _ hr => exact absurd ⟨j, hj, hej⟩ hr

/-- By any other event nothing is handed over. -/
theorem Step.kept {e : Event κ} (h : Step c e c') (he : ¬ c.Relieves e) :
    (c'.batches.map fun b => (b.joins, b.keys)) = c.batches.map fun b => (b.joins, b.keys) := by
  cases h with
  | handOver hl hek _ => exact absurd ⟨_, hl, hek⟩ he
  | conclude _ _ => exact c.map_conclude (fun _ => rfl) _ _
  | _ => rfl

theorem Step.limit {e : Event κ} (he : Step c e c') : c'.limit = c.limit := by
  cases he <;> rfl

theorem due_iff {ends : List (Nat × BatchOutcome)}
    (h : ∀ n ∈ ends.map (·.1), (c'.batches[n]?).map (fun b => (b.joins, b.keys)) =
      (c.batches[n]?).map fun b => (b.joins, b.keys))
    (k : Nat) (r : Except LookupError Json) : c'.Due ends k r ↔ c.Due ends k r := by
  have hgo : ∀ {d d' : Coalescer κ}, (∀ n ∈ ends.map (·.1),
      (d'.batches[n]?).map (fun b => (b.joins, b.keys)) =
        (d.batches[n]?).map fun b => (b.joins, b.keys)) → d.Due ends k r →
      d'.Due ends k r := by
    rintro d d' h ⟨n, b, i, outcome, hb, hi, ho, hr⟩
    have hn := h n (List.mem_map_of_mem ho)
    rw [hb, Option.map_some] at hn
    obtain ⟨b', hb', hsame⟩ := Option.map_eq_some_iff.1 hn
    obtain ⟨hjoins, hkeys⟩ := Prod.mk.inj hsame
    refine ⟨n, b', i, outcome, hb', hjoins ▸ hi, ho, ?_⟩
    unfold Batch.share at hr ⊢
    rw [hkeys]
    exact hr
  exact ⟨hgo fun n hn => (h n hn).symm, hgo h⟩

end Coalescer

end NodeRpc
