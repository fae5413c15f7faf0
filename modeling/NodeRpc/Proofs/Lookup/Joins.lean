import Mathlib.Data.List.Induction
import NodeRpc.Lookup.Run

/-!
# Where the loads of a coalescer are

A load that has been polled, and has neither an answer nor been given up, is in the queue or in a
batch that has not come to an outcome. The queue is empty or has a leader at its head. `Valid` says
so; loads that are made, turns and outcomes keep it.
-/

namespace NodeRpc

theorem pieces_flatten {α : Type} (n : Nat) (xs : List α) : (pieces n xs).flatten = xs := by
  fun_induction pieces n xs with
  | case1 => rfl
  | case2 x xs ih =>
    rw [List.flatten_cons, ih]
    simp

namespace Coalescer

variable {κ : Type}

/-! ### What is seen of the state -/

/-- How far load `k` has come. -/
def stageOf? (c : Coalescer κ) (k : Nat) : Option JoinStage := (c.joins[k]?).map Join.stage

/-- The answer that load `k` has been given. -/
def answerOf? (c : Coalescer κ) (k : Nat) : Option (Except LookupError Json) :=
  (c.joins[k]?).bind Join.answer

/-- Load `k` is in the queue, or in a batch that has not come to an outcome. -/
inductive Placed (c : Coalescer κ) (k : Nat) : Prop where
  | queued (h : k ∈ c.queue.map (·.1))
  | batched {b : Nat} {batch : Batch κ} (hb : c.batches[b]? = some batch)
      (hf : batch.finished = false) (hk : k ∈ batch.joins)

/-- What holds of a coalescer at all times. -/
structure Valid (c : Coalescer κ) : Prop where
  head : ∀ p rest, c.queue = p :: rest → c.stageOf? p.1 = some .leading
  placed : ∀ k s, c.stageOf? k = some s → s ≠ .fresh → s ≠ .dropped → c.answerOf? k = none →
    c.Placed k
  done : ∀ k, c.stageOf? k = some .done → (c.answerOf? k).isSome = true

theorem valid_empty (limit : Nat) : Valid ({ limit } : Coalescer κ) where
  head p rest h := by simp at h
  placed k s h := by simp [stageOf?] at h
  done k h := by simp [stageOf?] at h

theorem getElem?_make (c : Coalescer κ) (key : κ) (k : Nat) :
    (c.make key).joins[k]? = if k = c.joins.length then some { key } else c.joins[k]? :=
  getElem?_concat c.joins { key } k

theorem stageOf?_make (c : Coalescer κ) (key : κ) (k : Nat) :
    (c.make key).stageOf? k = if k = c.joins.length then some .fresh else c.stageOf? k := by
  unfold stageOf?
  rw [getElem?_make]
  split <;> rfl

theorem answerOf?_make (c : Coalescer κ) (key : κ) (k : Nat) :
    (c.make key).answerOf? k = c.answerOf? k := by
  unfold answerOf?
  rw [getElem?_make]
  split
  · next h => simp [h]
  · rfl

theorem stageOf?_setStage (c : Coalescer κ) (k : Nat) (stage : JoinStage) (j : Nat) :
    (c.setStage k stage).stageOf? j =
      if k = j then (c.stageOf? j).map fun _ => stage else c.stageOf? j := by
  unfold stageOf? setStage
  rw [List.getElem?_modify]
  cases c.joins[j]? with
  | none => simp
  | some x => by_cases h : k = j <;> simp [h]

theorem answerOf?_setStage (c : Coalescer κ) (k : Nat) (stage : JoinStage) (j : Nat) :
    (c.setStage k stage).answerOf? j = c.answerOf? j := by
  unfold answerOf? setStage
  rw [List.getElem?_modify]
  cases c.joins[j]? with
  | none => rfl
  | some x => by_cases h : k = j <;> simp [h]

/-! ### Answers -/

theorem stageOf?_answer (c : Coalescer κ) (k : Nat) (o : Except LookupError Json) (j : Nat) :
    (c.answer k o).stageOf? j = c.stageOf? j := by
  unfold stageOf? answer
  rw [List.getElem?_modify]
  cases c.joins[j]? with
  | none => rfl
  | some x => by_cases h : k = j <;> simp [h]

theorem answerOf?_answer (c : Coalescer κ) (k : Nat) (o : Except LookupError Json) (j : Nat) :
    (c.answer k o).answerOf? j =
      if k = j ∧ (c.stageOf? j).isSome = true then some ((c.answerOf? j).getD o)
      else c.answerOf? j := by
  unfold answerOf? answer stageOf?
  rw [List.getElem?_modify]
  cases c.joins[j]? with
  | none => simp
  | some x => by_cases h : k = j <;> simp [h]

/-- The coalescer after some answers. -/
def answerAll (c : Coalescer κ) (as : List (Nat × Except LookupError Json)) : Coalescer κ :=
  as.foldl (fun c a => c.answer a.1 a.2) c

/-- Answers change the loads only, and do not depend on the queue and the batches. -/
theorem answerAll_with (as : List (Nat × Except LookupError Json)) (c : Coalescer κ)
    (queue : List (Nat × κ)) (batches : List (Batch κ)) :
    { c with queue, batches }.answerAll as =
      { c with queue, batches, joins := (c.answerAll as).joins } := by
  induction as generalizing c with
  | nil => rfl
  | cons a as ih => exact ih (c.answer a.1 a.2)

theorem stageOf?_answerAll (as : List (Nat × Except LookupError Json)) (c : Coalescer κ) (j : Nat) :
    (c.answerAll as).stageOf? j = c.stageOf? j := by
  induction as generalizing c with
  | nil => rfl
  | cons a as ih => exact (ih (c.answer a.1 a.2)).trans (c.stageOf?_answer a.1 a.2 j)

/-- Who has an answer afterwards: who had one, and every load that is there and gets one. -/
theorem isSome_answerAll (as : List (Nat × Except LookupError Json)) (c : Coalescer κ) (j : Nat) :
    ((c.answerAll as).answerOf? j).isSome = true ↔ (c.answerOf? j).isSome = true ∨
      (c.stageOf? j).isSome = true ∧ j ∈ as.map (·.1) := by
  induction as generalizing c with
  | nil => simp [answerAll]
  | cons a as ih =>
    refine (ih (c.answer a.1 a.2)).trans ?_
    rw [stageOf?_answer, answerOf?_answer, List.map_cons, List.mem_cons]
    by_cases hj : a.1 = j
    · subst hj
      cases c.stageOf? a.1 <;> simp
    · have hj' : ¬ j = a.1 := fun h => hj h.symm
      simp [hj, hj']

/-! ### What keeps a coalescer valid -/

/-- What is in its place stays there when batches are added, and what was queued goes into them. -/
theorem Placed.dispatch {c : Coalescer κ} {k : Nat} (h : c.Placed k) : c.dispatch.Placed k := by
  cases h with
  | queued h =>
    obtain ⟨p, hp, rfl⟩ := List.mem_map.1 h
    rw [← pieces_flatten c.limit c.queue] at hp
    obtain ⟨piece, hpiece, hmem⟩ := List.mem_flatten.1 hp
    obtain ⟨b, hb, hget⟩ := List.getElem_of_mem hpiece
    have hnew : c.dispatch.batches[c.batches.length + b]? =
        some ⟨piece.map (·.1), piece.map (·.2), false⟩ := by
      unfold Coalescer.dispatch
      dsimp only
      rw [List.getElem?_append_right (by omega)]
      simp [hb, hget]
    exact .batched hnew rfl (List.mem_map_of_mem hmem)
  | @batched b batch hb hf hk =>
    exact .batched (b := b) (getElem?_append_of_some hb _) hf hk

theorem Valid.dispatch {c : Coalescer κ} (hv : c.Valid) : c.dispatch.Valid where
  head p rest h := by simp [Coalescer.dispatch] at h
  placed k s hs hf hd ha := (hv.placed k s hs hf hd ha).dispatch
  done := hv.done

theorem Placed.congr {c c' : Coalescer κ} {k : Nat} (h : c.Placed k) (hq : c'.queue = c.queue)
    (hb : c'.batches = c.batches) : c'.Placed k := by
  cases h with
  | queued h => exact .queued (hq ▸ h)
  | batched h hf hk => exact .batched (hb ▸ h) hf hk

/-- A load that does not lead may come to another stage, if it is in its place there. -/
theorem Valid.setStage {c : Coalescer κ} (hv : c.Valid) {k : Nat} {stage : JoinStage}
    (hlead : ∀ p rest, c.queue = p :: rest → p.1 ≠ k)
    (hplaced : stage ≠ .fresh → stage ≠ .dropped → c.answerOf? k = none → c.Placed k)
    (hdone : stage = .done → (c.answerOf? k).isSome = true) : (c.setStage k stage).Valid where
  head p rest h := by
    rw [stageOf?_setStage, if_neg (Ne.symm (hlead p rest h))]
    exact hv.head p rest h
  placed j s hs hf hd ha := by
    rw [stageOf?_setStage] at hs
    rw [answerOf?_setStage] at ha
    split at hs
    · next hj =>
      subst hj
      obtain ⟨_, _, rfl⟩ := Option.map_eq_some_iff.1 hs
      exact (hplaced hf hd ha).congr rfl rfl
    · exact (hv.placed j s hs hf hd ha).congr rfl rfl
  done j hs := by
    rw [stageOf?_setStage] at hs
    rw [answerOf?_setStage]
    split at hs
    · next hj =>
      subst hj
      obtain ⟨_, _, h⟩ := Option.map_eq_some_iff.1 hs
      exact hdone h
    · exact hv.done j hs

theorem Valid.make {c : Coalescer κ} (hv : c.Valid) (key : κ) : (c.make key).Valid where
  head p rest h := by
    have hlead := hv.head p rest h
    have hne : p.1 ≠ c.joins.length := by
      intro heq
      simp [stageOf?, heq] at hlead
    rw [stageOf?_make, if_neg hne]
    exact hlead
  placed k s hs hf hd ha := by
    rw [stageOf?_make] at hs
    rw [answerOf?_make] at ha
    split at hs
    · exact absurd (Option.some.inj hs).symm hf
    · exact (hv.placed k s hs hf hd ha).congr rfl rfl
  done k hs := by
    rw [stageOf?_make] at hs
    rw [answerOf?_make]
    split at hs
    · simp at hs
    · exact hv.done k hs

/-- Answers take loads out of their places only by answering them. -/
theorem Valid.answerAll {c c' : Coalescer κ} (hv : c.Valid)
    (as : List (Nat × Except LookupError Json))
    (hqueue : c'.queue = c.queue ∨ c'.queue = []) (hjoins : c'.joins = (c.answerAll as).joins)
    (hplaced : ∀ k, k ∉ as.map (·.1) → c.Placed k → c'.Placed k) : c'.Valid := by
  have hstage : ∀ k, c'.stageOf? k = c.stageOf? k := fun k => by
    rw [← stageOf?_answerAll as c k]
    unfold stageOf?
    rw [hjoins]
  have hanswer : ∀ k, (c'.answerOf? k).isSome = true ↔ (c.answerOf? k).isSome = true ∨
      (c.stageOf? k).isSome = true ∧ k ∈ as.map (·.1) := fun k => by
    rw [← isSome_answerAll as c k]
    unfold answerOf?
    rw [hjoins]
  refine ⟨?_, ?_, ?_⟩
  · intro p rest h
    rw [hstage]
    rcases hqueue with hq | hq
    · exact hv.head p rest (hq ▸ h)
    · rw [hq] at h
      simp at h
  · intro k s hs hf hd ha
    rw [hstage] at hs
    have hnone : ¬ (c'.answerOf? k).isSome = true := by simp [ha]
    rw [hanswer, not_or] at hnone
    refine hplaced k (fun hk => hnone.2 ⟨by simp [hs], hk⟩) ?_
    exact hv.placed k s hs hf hd (by simpa using hnone.1)
  · intro k hs
    rw [hstage] at hs
    exact (hanswer k).2 (.inl (hv.done k hs))

theorem answers_keys (b : Batch κ) (outcome : BatchOutcome) :
    (answers b outcome).map (·.1) = b.joins := by
  unfold answers
  split
  · split
    · next h => rw [List.map_fst_zip (by omega)]
    · simp [Function.comp_def]
  · simp [Function.comp_def]

/-- A batch that comes to an outcome answers its loads. -/
theorem finish_eq {c : Coalescer κ} {n : Nat} {b : Batch κ} (hb : c.batches[n]? = some b)
    (hf : b.finished = false) (outcome : BatchOutcome) :
    c.finish n outcome = { c with
      joins := (c.answerAll (answers b outcome)).joins
      batches := c.batches.modify n fun b => { b with finished := true } } := by
  unfold Coalescer.finish
  rw [hb]
  simp only [hf, Bool.false_eq_true, if_false]
  exact answerAll_with (answers b outcome) c c.queue _

theorem finish_of_finished {c : Coalescer κ} {n : Nat} (outcome : BatchOutcome)
    (h : ∀ b, c.batches[n]? = some b → b.finished = true) : c.finish n outcome = c := by
  unfold Coalescer.finish
  split
  · rfl
  · next b hb => rw [if_pos (h b hb)]

theorem Valid.finish {c : Coalescer κ} (hv : c.Valid) (n : Nat) (outcome : BatchOutcome) :
    (c.finish n outcome).Valid := by
  by_cases h : ∀ b, c.batches[n]? = some b → b.finished = true
  · rwa [finish_of_finished outcome h]
  · push Not at h
    obtain ⟨b, hb, hf⟩ := h
    rw [finish_eq hb (by simpa using hf)]
    refine hv.answerAll (answers b outcome) (.inl rfl) rfl fun k hk hp => ?_
    rw [answers_keys] at hk
    cases hp with
    | queued h => exact .queued h
    | @batched m batch hm hfm hkm =>
      have hne : n ≠ m := by
        rintro rfl
        rw [hb] at hm
        exact hk (Option.some.inj hm ▸ hkm)
      exact .batched (b := m) (by simp [hne, hm]) hfm hkm

/-! ### Steps -/

theorem Valid.look {c : Coalescer κ} (hv : c.Valid) {k : Nat}
    (hlead : ∀ p rest, c.queue = p :: rest → p.1 ≠ k)
    (hplaced : c.answerOf? k = none → c.Placed k) : (c.look k).Valid := by
  unfold Coalescer.look
  split
  · next x hx =>
    have ha : c.answerOf? k = x.answer := by simp [answerOf?, hx]
    refine hv.setStage hlead (fun _ _ => hplaced) fun h => ?_
    split at h
    · next hs => rwa [ha]
    · simp at h
  · exact hv

/-- The first turn of a load queues its key; the first of the queue leads. -/
theorem Valid.enqueue {c : Coalescer κ} (hv : c.Valid) {k : Nat}
    (hf : c.stageOf? k = some .fresh) (key : κ) :
    ({ c with queue := c.queue ++ [(k, key)] }.setStage k
      (if c.queue.isEmpty then .leading else .waiting)).Valid := by
  have hstage : ∀ j, ({ c with queue := c.queue ++ [(k, key)] }.setStage k
      (if c.queue.isEmpty then .leading else .waiting)).stageOf? j =
      if k = j then some (if c.queue.isEmpty then .leading else .waiting) else c.stageOf? j := by
    intro j
    rw [stageOf?_setStage]
    split
    · next hj =>
      have hj : ({ c with queue := c.queue ++ [(k, key)] } : Coalescer κ).stageOf? j =
        some .fresh := hj ▸ hf
      rw [hj]
      rfl
    · rfl
  have hanswer : ∀ j, ({ c with queue := c.queue ++ [(k, key)] }.setStage k
      (if c.queue.isEmpty then .leading else .waiting)).answerOf? j = c.answerOf? j :=
    fun j => answerOf?_setStage _ k _ j
  refine ⟨?_, ?_, ?_⟩
  · intro p rest h
    rw [hstage]
    have h : c.queue ++ [(k, key)] = p :: rest := h
    cases hq : c.queue with
    | nil =>
      rw [hq] at h
      obtain rfl : (k, key) = p := (List.cons.inj h).1
      simp
    | cons q queue =>
      rw [hq] at h
      obtain rfl : q = p := (List.cons.inj h).1
      have hlead := hv.head q queue hq
      have hne : k ≠ q.1 := by
        rintro rfl
        rw [hf] at hlead
        simp at hlead
      rw [if_neg hne]
      exact hlead
  · intro j s hs hfr hd ha
    rw [hstage] at hs
    rw [hanswer] at ha
    by_cases hj : k = j
    · exact .queued (by simp [Coalescer.setStage, hj])
    · rw [if_neg hj] at hs
      cases hv.placed j s hs hfr hd ha with
      | queued h => exact .queued (by simpa [Coalescer.setStage] using .inl (by simpa using h))
      | batched hb hf' hk => exact .batched hb hf' hk
  · intro j hs
    rw [hstage] at hs
    rw [hanswer]
    split at hs
    · split at hs <;> simp at hs
    · exact hv.done j hs

theorem Valid.poll {c : Coalescer κ} (hv : c.Valid) (k : Nat) : (c.poll k).Valid := by
  unfold Coalescer.poll
  split
  · exact hv
  · next x hx =>
    have hstage : c.stageOf? k = some x.stage := by simp [stageOf?, hx]
    split
    · next hf => exact hv.enqueue (by rw [hstage, hf]) x.key
    · next hl =>
      refine hv.dispatch.look (fun p rest h => by simp [Coalescer.dispatch] at h) fun ha => ?_
      exact (hv.placed k _ hstage (by simp [hl]) (by simp [hl]) ha).dispatch
    · next hw =>
      refine hv.look (fun p rest h heq => ?_) fun ha =>
        hv.placed k _ hstage (by simp [hw]) (by simp [hw]) ha
      have hlead := hv.head p rest h
      rw [heq, hstage, hw] at hlead
      simp at hlead
    · exact hv
    · exact hv

/-! ### What a turn and an outcome do -/

theorem stageOf?_finish (c : Coalescer κ) (n : Nat) (outcome : BatchOutcome) (k : Nat) :
    (c.finish n outcome).stageOf? k = c.stageOf? k := by
  by_cases h : ∀ b, c.batches[n]? = some b → b.finished = true
  · rw [finish_of_finished outcome h]
  · push Not at h
    obtain ⟨b, hb, hf⟩ := h
    rw [finish_eq hb (by simpa using hf)]
    exact stageOf?_answerAll (answers b outcome) c k

/-- A batch without an outcome is one that was there without, and is not the one that gets it. -/
theorem unfinished_finish {c : Coalescer κ} {n m : Nat} {outcome : BatchOutcome} {b : Batch κ}
    (hb : (c.finish n outcome).batches[m]? = some b) (hf : b.finished = false) :
    n ≠ m ∧ c.batches[m]? = some b := by
  by_cases h : ∀ b, c.batches[n]? = some b → b.finished = true
  · rw [finish_of_finished outcome h] at hb
    refine ⟨?_, hb⟩
    rintro rfl
    simp [h b hb] at hf
  · push Not at h
    obtain ⟨b', hb', hf'⟩ := h
    rw [finish_eq hb' (by simpa using hf')] at hb
    simp only [List.getElem?_modify] at hb
    by_cases hn : n = m
    · subst hn
      rw [hb'] at hb
      obtain rfl := Option.some.inj (by simpa using hb)
      simp at hf
    · exact ⟨hn, by simpa [hn] using hb⟩

theorem length_finish (c : Coalescer κ) (n : Nat) (outcome : BatchOutcome) :
    (c.finish n outcome).joins.length = c.joins.length := by
  have hall : ∀ (as : List (Nat × Except LookupError Json)) (c : Coalescer κ),
      (c.answerAll as).joins.length = c.joins.length := by
    intro as
    induction as with
    | nil => exact fun c => rfl
    | cons a as ih => exact fun c => (ih (c.answer a.1 a.2)).trans (by simp [answer])
  by_cases h : ∀ b, c.batches[n]? = some b → b.finished = true
  · rw [finish_of_finished outcome h]
  · push Not at h
    obtain ⟨b, hb, hf⟩ := h
    rw [finish_eq hb (by simpa using hf)]
    exact hall _ c

/-- What a turn of load `k` leaves alone: the number of loads, the stages of the others, and the
batches that were there. A load is not given up by it. -/
structure Turned (c c' : Coalescer κ) (k : Nat) : Prop where
  length : c'.joins.length = c.joins.length
  others : ∀ j, k ≠ j → c'.stageOf? j = c.stageOf? j
  dropped : c'.stageOf? k = some .dropped → c.stageOf? k = some .dropped
  batches : ∃ new, c'.batches = c.batches ++ new

theorem turned_setStage (c : Coalescer κ) (k : Nat) (stage : JoinStage) (h : stage ≠ .dropped)
    (queue : List (Nat × κ)) (new : List (Batch κ)) :
    c.Turned ({ c with queue, batches := c.batches ++ new }.setStage k stage) k where
  length := by simp [setStage]
  others j hj := (stageOf?_setStage _ k stage j).trans (if_neg hj)
  dropped hd := by
    rw [stageOf?_setStage, if_pos rfl] at hd
    obtain ⟨_, _, hd⟩ := Option.map_eq_some_iff.1 hd
    exact absurd hd h
  batches := ⟨new, rfl⟩

theorem poll_turned (c : Coalescer κ) (k : Nat) : c.Turned (c.poll k) k := by
  have hlook : ∀ (queue : List (Nat × κ)) (new : List (Batch κ)),
      c.Turned ({ c with queue, batches := c.batches ++ new }.look k) k := by
    intro queue new
    unfold look
    split
    · next x _ => exact c.turned_setStage k _ (by split <;> simp) queue new
    · exact ⟨rfl, fun _ _ => rfl, fun h => h, new, rfl⟩
  unfold poll
  split
  · exact ⟨rfl, fun _ _ => rfl, fun h => h, [], by simp⟩
  · next x _ =>
    split
    · have h := c.turned_setStage k (if c.queue.isEmpty then .leading else .waiting)
        (by split <;> simp) (c.queue ++ [(k, x.key)]) []
      simpa using h
    · exact hlook [] _
    · simpa using hlook c.queue []
    · exact ⟨rfl, fun _ _ => rfl, fun h => h, [], by simp⟩
    · exact ⟨rfl, fun _ _ => rfl, fun h => h, [], by simp⟩

/-- A load that has an answer, and has taken it, has a result. -/
theorem Valid.result?_of_done {c : Coalescer κ} (hv : c.Valid) {k : Nat}
    (h : c.stageOf? k = some .done) : (c.result? k).isSome = true := by
  have ha := hv.done k h
  unfold stageOf? at h
  unfold answerOf? at ha
  unfold result?
  obtain ⟨x, hx, hs⟩ := Option.map_eq_some_iff.1 h
  rw [hx] at ha ⊢
  simpa [hs] using ha

theorem done_of_result? {c : Coalescer κ} {k : Nat} {o : Except LookupError Json}
    (h : c.result? k = some o) : c.stageOf? k = some .done := by
  unfold result? at h
  unfold stageOf?
  obtain ⟨x, hx, h⟩ := Option.bind_eq_some_iff.1 h
  split at h
  · next hs => simp [hx, hs]
  · simp at h

theorem poll_of_done {c : Coalescer κ} {k : Nat} (h : c.stageOf? k = some .done) :
    c.poll k = c := by
  obtain ⟨x, hx, hs⟩ := Option.map_eq_some_iff.1 h
  unfold poll
  rw [hx]
  dsimp only
  rw [hs]

end Coalescer

end NodeRpc
