import Mathlib.Data.List.Nodup
import NodeRpc.Proofs.Lookup.Handovers

/-!
# Every key is handed over once

The keys that are queued are handed over in batches, in the order in which they came, when the load
at the head of the queue goes on or is given up. A load that is not given up returns its share of
what its batch comes to. `Books` says this of the state and of what the run has shown; every step
keeps it.
-/

namespace NodeRpc

/-- Where parts have no item in common, an item tells its part. -/
theorem eq_of_nodup_flatMap {α β : Type} {xs : List α} {f : α → List β}
    (h : (xs.flatMap f).Nodup) {i j : Nat} {x y : α} {b : β} (hx : xs[i]? = some x)
    (hy : xs[j]? = some y) (hb : b ∈ f x) (hb' : b ∈ f y) : i = j := by
  have hapart := (List.nodup_flatMap.1 h).2
  rw [List.pairwise_iff_getElem] at hapart
  obtain ⟨hi, rfl⟩ := List.getElem?_eq_some_iff.1 hx
  obtain ⟨hj, rfl⟩ := List.getElem?_eq_some_iff.1 hy
  rcases Nat.lt_trichotomy i j with hlt | heq | hlt
  · exact absurd hb' fun h' => hapart i j hi hj hlt hb h'
  · exact heq
  · exact absurd hb fun h' => hapart j i hj hi hlt hb' h'

namespace Coalescer

variable {κ : Type}

/-! ### The books -/

/-- What holds of a coalescer at all times, with what its run has shown. -/
structure Books (c : Coalescer κ) (loads : List (Nat × κ)) (ends : List (Nat × BatchOutcome)) :
    Prop where
  order : c.handed ++ c.queue = loads
  once : (loads.map (·.1)).Nodup
  polled : ∀ p ∈ loads, ∃ x, c.joins[p.1]? = some x ∧ x.key = p.2 ∧ x.stage ≠ .fresh
  leader : ∀ k, c.stageOf? k = some .leading ↔ (c.queue.map (·.1)).head? = some k
  sizes : ∀ b ∈ c.batches, b.joins.length = b.keys.length ∧ 1 ≤ b.keys.length ∧
    b.keys.length ≤ max c.limit 1
  finished : ∀ (n : Nat) (b : Batch κ), c.batches[n]? = some b →
    (b.finished = true ↔ n ∈ ends.map (·.1))
  batch : ∀ n ∈ ends.map (·.1), n < c.batches.length
  concluded : (ends.map (·.1)).Nodup
  answered : ∀ k r, c.answerOf? k = some r ↔ c.Due ends k r

variable {c c' : Coalescer κ} {loads : List (Nat × κ)} {ends : List (Nat × BatchOutcome)}

theorem books_empty (limit : Nat) : Books ({ limit } : Coalescer κ) [] [] where
  order := rfl
  once := List.nodup_nil
  polled p h := by simp at h
  leader k := by simp [stageOf?]
  sizes b h := by simp at h
  finished n b h := by simp at h
  batch n h := by simp at h
  concluded := List.nodup_nil
  answered k r := by simp [answerOf?, Due]

/-- Only the loads change, and none of them leads now that did not before. -/
theorem Books.of_joins (h : c.Books loads ends) (hq : c'.queue = c.queue)
    (hb : c'.batches = c.batches) (hl : c'.limit = c.limit)
    (hpolled : ∀ (k : Nat) x, c.joins[k]? = some x → x.stage ≠ .fresh →
      ∃ x', c'.joins[k]? = some x' ∧ x'.key = x.key ∧ x'.stage ≠ .fresh)
    (hlead : ∀ k, c'.stageOf? k = some .leading ↔ c.stageOf? k = some .leading)
    (hanswer : ∀ k, c'.answerOf? k = c.answerOf? k) : c'.Books loads ends where
  order := by
    rw [← h.order, hq, handed, hb]
    rfl
  once := h.once
  polled p hp := by
    obtain ⟨x, hx, hkey, hs⟩ := h.polled p hp
    obtain ⟨x', hx', hkey', hs'⟩ := hpolled p.1 x hx hs
    exact ⟨x', hx', hkey'.trans hkey, hs'⟩
  leader k := by rw [hlead, hq, h.leader]
  sizes b hmem := by
    rw [hl]
    exact h.sizes b (hb ▸ hmem)
  finished n b hn := h.finished n b (hb ▸ hn)
  batch n hn := by
    rw [hb]
    exact h.batch n hn
  concluded := h.concluded
  answered k r := by
    rw [hanswer, h.answered]
    exact (due_iff (fun n _ => by rw [hb]) k r).symm

theorem polled_setStage (c : Coalescer κ) (j : Nat) {stage : JoinStage} (hs : stage ≠ .fresh)
    {k : Nat} {x : Join κ} (hx : c.joins[k]? = some x) (hf : x.stage ≠ .fresh) :
    ∃ x', (c.setStage j stage).joins[k]? = some x' ∧ x'.key = x.key ∧ x'.stage ≠ .fresh := by
  unfold setStage
  dsimp only
  rw [List.getElem?_modify, hx]
  by_cases hj : j = k
  · exact ⟨{ x with stage }, by simp [hj], rfl, hs⟩
  · exact ⟨x, by simp [hj], rfl, hf⟩

theorem leading_setStage {j : Nat} {stage : JoinStage} (hs : stage ≠ .leading) (k : Nat) :
    (c.setStage j stage).stageOf? k = some .leading ↔ j ≠ k ∧ c.stageOf? k = some .leading := by
  rw [stageOf?_setStage]
  split
  · next hj => simp [hj, hs]
  · next hj => simp [hj]

theorem Books.make (h : c.Books loads ends) (key : κ) : (c.make key).Books loads ends := by
  refine h.of_joins rfl rfl rfl (fun k x hx hs => ?_) (fun k => ?_) (c.answerOf?_make key)
  · have hne : k ≠ c.joins.length := Nat.ne_of_lt (List.getElem?_eq_some_iff.1 hx).1
    exact ⟨x, by rw [getElem?_make, if_neg hne, hx], rfl, hs⟩
  · rw [stageOf?_make]
    split
    · next hk => simp [stageOf?, hk]
    · rfl

theorem Books.move (h : c.Books loads ends) {k : Nat} {s stage : JoinStage}
    (hk : c.stageOf? k = some s) (hne : s ≠ .leading) (hs : stage ≠ .fresh ∧ stage ≠ .leading) :
    (c.setStage k stage).Books loads ends := by
  refine h.of_joins rfl rfl rfl (fun j x hx hf => c.polled_setStage k hs.1 hx hf) (fun j => ?_)
    (c.answerOf?_setStage k stage)
  rw [leading_setStage hs.2]
  refine and_iff_right_of_imp fun hj hkj => hne ?_
  subst hkj
  exact Option.some.inj (hk.symm.trans hj)

theorem Books.handOver (h : c.Books loads ends) {k : Nat} {stage : JoinStage}
    (hl : c.stageOf? k = some .leading) (hs : stage ≠ .fresh ∧ stage ≠ .leading) :
    (c.dispatch.setStage k stage).Books loads ends where
  order := by
    have hqueue : (c.dispatch.setStage k stage).queue = [] := rfl
    rw [hqueue, List.append_nil, ← h.order]
    exact c.handed_dispatch
  once := h.once
  polled p hp := by
    obtain ⟨x, hx, hkey, hf⟩ := h.polled p hp
    obtain ⟨x', hx', hkey', hf'⟩ := c.dispatch.polled_setStage k hs.1 hx hf
    exact ⟨x', hx', hkey'.trans hkey, hf'⟩
  leader j := by
    rw [leading_setStage hs.2]
    refine iff_of_false ?_ (by simp [setStage, dispatch])
    rintro ⟨hne, hj⟩
    have hj : c.stageOf? j = some .leading := hj
    rw [h.leader] at hj hl
    exact hne (Option.some.inj (hl.symm.trans hj))
  sizes b hb := by
    rcases List.mem_append.1 hb with hb | hb
    · exact h.sizes b hb
    · obtain ⟨piece, hpiece, rfl⟩ := List.mem_map.1 hb
      obtain ⟨hpos, hle⟩ := length_of_mem_pieces c.limit c.queue piece hpiece
      refine ⟨by simp, ?_, ?_⟩
      · rwa [List.length_map]
      · rwa [List.length_map]
  finished n b hb := by
    by_cases hn : n < c.batches.length
    · exact h.finished n b ((List.getElem?_append_left hn).symm.trans hb)
    · have hb := (List.getElem?_append_right (Nat.le_of_not_lt hn)).symm.trans hb
      rw [List.getElem?_map] at hb
      obtain ⟨piece, _, rfl⟩ := Option.map_eq_some_iff.1 hb
      exact iff_of_false (by simp) fun h' => hn (h.batch n h')
  batch n hn := by
    refine Nat.lt_of_lt_of_le (h.batch n hn) ?_
    simp [setStage, dispatch]
  concluded := h.concluded
  answered j r := by
    rw [answerOf?_setStage]
    refine (h.answered j r).trans (due_iff (fun n hn => ?_) j r).symm
    exact congrArg (Option.map _) (List.getElem?_append_left (h.batch n hn))

theorem Books.enqueue (h : c.Books loads ends) {k : Nat} {x : Join κ}
    (hx : c.joins[k]? = some x) (hf : x.stage = .fresh) :
    (c.enqueue k x.key).Books (loads ++ [(k, x.key)]) ends := by
  have hnew : ∀ p ∈ loads, p.1 ≠ k := by
    rintro p hp rfl
    obtain ⟨x', hx', _, hf'⟩ := h.polled p hp
    obtain rfl := Option.some.inj (hx.symm.trans hx')
    exact hf' hf
  have hfresh : (if c.queue.isEmpty then JoinStage.leading else .waiting) ≠ .fresh := by
    split <;> simp
  have hstage : ∀ j, (c.enqueue k x.key).stageOf? j =
      if k = j then some (if c.queue.isEmpty then .leading else .waiting) else c.stageOf? j := by
    intro j
    refine (stageOf?_setStage _ k _ j).trans ?_
    split
    · next hj =>
      subst hj
      simp [stageOf?, hx]
    · rfl
  refine {
    order := ?order
    once := ?once
    polled := ?polled
    leader := ?leader
    sizes := h.sizes
    finished := h.finished
    batch := h.batch
    concluded := h.concluded
    answered := ?answered }
  case order =>
    rw [← h.order, List.append_assoc]
    rfl
  case once =>
    refine nodup_fst_concat h.once (fun hk => ?_) x.key
    obtain ⟨p, hp, hpk⟩ := List.mem_map.1 hk
    exact hnew p hp hpk
  case polled =>
    intro p hp
    rcases List.mem_append.1 hp with hp | hp
    · obtain ⟨y, hy, hkey, hs⟩ := h.polled p hp
      obtain ⟨y', hy', hkey', hs'⟩ := polled_setStage
        { c with queue := c.queue ++ [(k, x.key)] } k hfresh hy hs
      exact ⟨y', hy', hkey'.trans hkey, hs'⟩
    · obtain rfl := List.mem_singleton.1 hp
      refine ⟨{ x with stage := if c.queue.isEmpty then .leading else .waiting }, ?_, rfl, hfresh⟩
      simp [Coalescer.enqueue, setStage, hx]
  case leader =>
    intro j
    rw [hstage]
    have hqueue : (c.enqueue k x.key).queue = c.queue ++ [(k, x.key)] := rfl
    rw [hqueue]
    have hleader := h.leader j
    cases hq : c.queue with
    | nil =>
      rw [hq] at hleader
      by_cases hj : k = j
      · simp [hj]
      · simpa [hj] using hleader
    | cons p rest =>
      have hmem : p ∈ loads := by
        rw [← h.order, hq]
        simp
      rw [hq] at hleader
      by_cases hj : k = j
      · have hne := hnew p hmem
        subst hj
        simp [hne]
      · simpa [hj] using hleader
  case answered =>
    intro j r
    refine Iff.trans ?_ (h.answered j r)
    unfold Coalescer.enqueue
    rw [answerOf?_setStage]
    rfl

/-! ### Outcomes -/

/-- The loads of the batches are different. -/
theorem Books.nodup_joins (h : c.Books loads ends) : (c.batches.flatMap Batch.joins).Nodup := by
  have hmap : c.handed.map (·.1) = c.batches.flatMap Batch.joins := by
    unfold handed
    rw [List.map_flatMap, List.flatMap_def, List.flatMap_def]
    refine congrArg List.flatten (List.map_congr_left fun b hb => ?_)
    exact List.map_fst_zip (Nat.le_of_eq (h.sizes b hb).1)
  rw [← hmap]
  have honce := h.once
  rw [← h.order, List.map_append] at honce
  exact (List.nodup_append.1 honce).1

/-- A load is at one place of one batch. -/
theorem Books.place (h : c.Books loads ends) {n n' i i' k : Nat} {b b' : Batch κ}
    (hb : c.batches[n]? = some b) (hi : b.joins[i]? = some k)
    (hb' : c.batches[n']? = some b') (hi' : b'.joins[i']? = some k) : n = n' ∧ i = i' := by
  have hnodup := h.nodup_joins
  obtain rfl := eq_of_nodup_flatMap hnodup hb hb' (List.mem_of_getElem? hi)
    (List.mem_of_getElem? hi')
  obtain rfl := Option.some.inj (hb.symm.trans hb')
  refine ⟨rfl, ?_⟩
  have hlt := (List.getElem?_eq_some_iff.1 hi).1
  have hjoins := (List.nodup_flatMap.1 hnodup).1 b (List.mem_of_getElem? hb)
  exact (List.getElem?_inj hlt hjoins).1 (hi.trans hi'.symm)

/-- A load that was handed over has been polled, and the key at its place is its own. -/
theorem Books.join (h : c.Books loads ends) {n i k : Nat} {b : Batch κ}
    (hb : c.batches[n]? = some b) (hi : b.joins[i]? = some k) :
    ∃ x, c.joins[k]? = some x ∧ b.keys[i]? = some x.key ∧ x.stage ≠ .fresh := by
  have hmem := List.mem_of_getElem? hb
  have hlt := (List.getElem?_eq_some_iff.1 hi).1
  rw [(h.sizes b hmem).1] at hlt
  have hhanded : (k, b.keys[i]) ∈ c.handed :=
    List.mem_flatMap.2 ⟨b, hmem, List.mem_of_getElem?
      (List.getElem?_zip_eq_some.2 ⟨hi, List.getElem?_eq_getElem hlt⟩)⟩
  obtain ⟨x, hx, hkey, hf⟩ := h.polled (k, b.keys[i]) (h.order ▸ List.mem_append_left _ hhanded)
  exact ⟨x, hx, by rw [List.getElem?_eq_getElem hlt, hkey], hf⟩

/-- The answers that an outcome gives to the loads of a batch are their shares of it. -/
theorem mem_answers {b : Batch κ} (hlen : b.joins.length = b.keys.length) (outcome : BatchOutcome)
    (k : Nat) (r : Except LookupError Json) :
    (k, r) ∈ answers b outcome ↔ ∃ i, b.joins[i]? = some k ∧ b.share i outcome = some r := by
  have hall : ∀ share : Except LookupError Json,
      (k, r) ∈ b.joins.map (fun k => (k, share)) ↔
        ∃ i : Nat, b.joins[i]? = some k ∧ some share = some r := by
    intro share
    rw [List.mem_map]
    constructor
    · rintro ⟨k', hk', heq⟩
      obtain ⟨rfl, rfl⟩ := Prod.mk.inj heq
      obtain ⟨i, hi⟩ := List.getElem?_of_mem hk'
      exact ⟨i, hi, rfl⟩
    · rintro ⟨i, hi, hr⟩
      exact ⟨k, List.mem_of_getElem? hi, by rw [Option.some.inj hr]⟩
  cases outcome with
  | error cause => exact hall (.error cause)
  | ok results =>
    unfold answers Batch.share
    dsimp only
    rw [hlen]
    split
    · rw [List.mem_iff_getElem?]
      exact exists_congr fun i : Nat => List.getElem?_zip_eq_some
    · exact hall _

theorem answerOf?_answerAll_of_not_mem (c : Coalescer κ)
    {as : List (Nat × Except LookupError Json)} {k : Nat} (hk : k ∉ as.map (·.1)) :
    (c.answerAll as).answerOf? k = c.answerOf? k := by
  induction as generalizing c with
  | nil => rfl
  | cons a as ih =>
    rw [List.map_cons, List.mem_cons, not_or] at hk
    refine (ih (c.answer a.1 a.2) hk.2).trans ?_
    rw [answerOf?_answer, if_neg fun h => hk.1 h.1.symm]

/-- A load that gets an answer has it, or the one that it had. -/
theorem answerOf?_answerAll_of_mem (c : Coalescer κ) {as : List (Nat × Except LookupError Json)}
    (hnodup : (as.map (·.1)).Nodup) {k : Nat} {r : Except LookupError Json} (hmem : (k, r) ∈ as)
    (hk : (c.stageOf? k).isSome = true) :
    (c.answerAll as).answerOf? k = some ((c.answerOf? k).getD r) := by
  induction as generalizing c with
  | nil => simp at hmem
  | cons a as ih =>
    obtain ⟨hnew, hnodup⟩ := List.nodup_cons.1 hnodup
    rcases List.mem_cons.1 hmem with rfl | hmem
    · refine (answerOf?_answerAll_of_not_mem (c.answer k r) hnew).trans ?_
      rw [answerOf?_answer, if_pos ⟨rfl, hk⟩]
    · have hne : a.1 ≠ k := by
        rintro rfl
        exact hnew (List.mem_map_of_mem (f := (·.1)) hmem)
      refine (ih (c.answer a.1 a.2) hnodup hmem (by rwa [stageOf?_answer])).trans ?_
      rw [answerOf?_answer, if_neg fun h => hne h.1]

/-- Answers change neither keys nor stages. -/
theorem map_answerAll (c : Coalescer κ) (as : List (Nat × Except LookupError Json)) :
    (c.answerAll as).joins.map (fun x => (x.key, x.stage)) =
      c.joins.map fun x => (x.key, x.stage) := by
  induction as generalizing c with
  | nil => rfl
  | cons a as ih =>
    exact (ih (c.answer a.1 a.2)).trans
      (map_modify_of_eq (g := fun x => { x with answer := some (x.answer.getD a.2) })
        (fun _ => rfl) a.1 c.joins)

/-- What is due after batch `n` came to an outcome: what was due before, and the shares of it. -/
theorem due_conclude {n : Nat} {b : Batch κ} (hb : c.batches[n]? = some b)
    (outcome : BatchOutcome) (as : List (Nat × Except LookupError Json)) (k : Nat)
    (r : Except LookupError Json) :
    (c.conclude n as).Due (ends ++ [(n, outcome)]) k r ↔
      c.Due ends k r ∨ ∃ i, b.joins[i]? = some k ∧ b.share i outcome = some r := by
  have hsame : ∀ m ∈ (ends ++ [(n, outcome)]).map (·.1),
      ((c.conclude n as).batches[m]?).map (fun b => (b.joins, b.keys)) =
        (c.batches[m]?).map fun b => (b.joins, b.keys) := by
    intro m _
    rw [← List.getElem?_map, ← List.getElem?_map, map_conclude fun _ => rfl]
  rw [due_iff hsame]
  constructor
  · rintro ⟨m, b', i, o, hb', hi, ho, hr⟩
    rcases List.mem_append.1 ho with ho | ho
    · exact .inl ⟨m, b', i, o, hb', hi, ho, hr⟩
    · obtain ⟨rfl, rfl⟩ := Prod.mk.inj (List.mem_singleton.1 ho)
      obtain rfl := Option.some.inj (hb.symm.trans hb')
      exact .inr ⟨i, hi, hr⟩
  · rintro (⟨m, b', i, o, hb', hi, ho, hr⟩ | ⟨i, hi, hr⟩)
    · exact ⟨m, b', i, o, hb', hi, List.mem_append_left _ ho, hr⟩
    · exact ⟨n, b, i, outcome, hb, hi, by simp, hr⟩

/-- The outcome of a batch answers its loads, none of which has an answer. -/
theorem Books.answered_conclude (h : c.Books loads ends) {n : Nat} {b : Batch κ}
    {outcome : BatchOutcome} (hb : c.batches[n]? = some b) (hnew : n ∉ ends.map (·.1))
    (k : Nat) (r : Except LookupError Json) :
    (c.conclude n (answers b outcome)).answerOf? k = some r ↔
      c.Due ends k r ∨ ∃ i, b.joins[i]? = some k ∧ b.share i outcome = some r := by
  have hlen := (h.sizes b (List.mem_of_getElem? hb)).1
  have hnodup : ((answers b outcome).map (·.1)).Nodup := by
    rw [answers_keys]
    exact (List.nodup_flatMap.1 h.nodup_joins).1 b (List.mem_of_getElem? hb)
  rw [← mem_answers hlen, ← h.answered]
  show (c.answerAll (answers b outcome)).answerOf? k = some r ↔ _
  by_cases hk : k ∈ b.joins
  · obtain ⟨i, hi⟩ := List.getElem?_of_mem hk
    have hnone : c.answerOf? k = none := by
      rw [Option.eq_none_iff_forall_ne_some]
      intro r' hr'
      obtain ⟨m, b', i', o, hb', hi', ho, _⟩ := (h.answered k r').1 hr'
      obtain ⟨rfl, _⟩ := h.place hb hi hb' hi'
      exact hnew (List.mem_map_of_mem ho)
    obtain ⟨x, hx, _, _⟩ := h.join hb hi
    rw [← answers_keys b outcome] at hk
    obtain ⟨⟨k, r'⟩, hmem, rfl⟩ := List.mem_map.1 hk
    have hanswer := answerOf?_answerAll_of_mem c hnodup hmem (by simp [stageOf?, hx])
    rw [hanswer, hnone]
    constructor
    · intro heq
      obtain rfl : r' = r := by simpa using heq
      exact .inr hmem
    · rintro (hr | hr)
      · simp at hr
      · rw [(Prod.mk.inj (List.inj_on_of_nodup_map hnodup hmem hr rfl)).2]
        rfl
  · have hk : k ∉ (answers b outcome).map (·.1) := by rwa [answers_keys]
    rw [answerOf?_answerAll_of_not_mem c hk]
    exact (or_iff_left fun hmem => hk (List.mem_map_of_mem hmem)).symm

theorem Books.conclude (h : c.Books loads ends) {n : Nat} {b : Batch κ}
    {outcome : BatchOutcome} (hb : c.batches[n]? = some b) (hf : b.finished = false) :
    (c.conclude n (answers b outcome)).Books loads (ends ++ [(n, outcome)]) := by
  have hnew : n ∉ ends.map (·.1) := fun hn => by
    simp [(h.finished n b hb).2 hn] at hf
  have hjoins := c.map_answerAll (answers b outcome)
  refine {
    order := ?order
    once := h.once
    polled := ?polled
    leader := ?leader
    sizes := ?sizes
    finished := ?finished
    batch := ?batch
    concluded := ?concluded
    answered := ?answered }
  case order =>
    rw [handed_conclude]
    exact h.order
  case polled =>
    intro p hp
    obtain ⟨x, hx, hkey, hs⟩ := h.polled p hp
    have hget := congrArg (fun xs : List (κ × JoinStage) => xs[p.1]?) hjoins
    simp only [List.getElem?_map, hx, Option.map_some] at hget
    obtain ⟨x', hx', hsame⟩ := Option.map_eq_some_iff.1 hget
    obtain ⟨hkey', hstage'⟩ := Prod.mk.inj hsame
    exact ⟨x', hx', hkey'.trans hkey, hstage' ▸ hs⟩
  case leader =>
    intro k
    refine Iff.trans ?_ (h.leader k)
    rw [← stageOf?_answerAll (answers b outcome) c k]
    rfl
  case sizes =>
    intro b' hb'
    have hmem : (b'.joins.length, b'.keys.length) ∈
        c.batches.map fun b => (b.joins.length, b.keys.length) := by
      rw [← c.map_conclude (fun _ => rfl) n (answers b outcome)]
      exact List.mem_map_of_mem hb'
    obtain ⟨b₀, hb₀, hsame⟩ := List.mem_map.1 hmem
    obtain ⟨hlen, hlen'⟩ := Prod.mk.inj hsame
    rw [← hlen, ← hlen']
    exact h.sizes b₀ hb₀
  case finished =>
    intro m b' hb'
    rw [getElem?_batches_conclude hb] at hb'
    rw [List.map_append, List.mem_append]
    split at hb'
    · next hm =>
      subst hm
      obtain rfl := Option.some.inj hb'
      exact iff_of_true rfl (.inr (by simp))
    · next hm =>
      refine (h.finished m b' hb').trans (or_iff_left fun hm' => hm ?_).symm
      exact (List.mem_singleton.1 hm').symm
  case batch =>
    intro m hm
    have hlen : (c.conclude n (answers b outcome)).batches.length = c.batches.length := by
      simp [Coalescer.conclude]
    rw [hlen]
    rw [List.map_append, List.mem_append] at hm
    rcases hm with hm | hm
    · exact h.batch m hm
    · rw [List.mem_singleton.1 hm]
      exact (List.getElem?_eq_some_iff.1 hb).1
  case concluded => exact nodup_fst_concat h.concluded hnew outcome
  case answered =>
    intro k r
    rw [h.answered_conclude hb hnew, due_conclude hb]

theorem Books.finish (h : c.Books loads ends) {n : Nat} {b : Batch κ}
    (hb : c.batches[n]? = some b) (hf : b.finished = false) (outcome : BatchOutcome) :
    (c.finish n outcome).Books loads (ends ++ [(n, outcome)]) := by
  rw [finish_eq hb hf]
  exact h.conclude hb hf

/-- Polling or dropping a load that was polled before queues nothing. -/
theorem queues_of_stage {k : Nat} {e : Event κ} {s : JoinStage} (hk : c.stageOf? k = some s)
    (hs : s ≠ .fresh) (he : e = .poll k ∨ e = .drop k true) : c.queues e = [] := by
  rcases he with rfl | rfl
  · obtain ⟨x, hx, rfl⟩ := Option.map_eq_some_iff.1 hk
    dsimp only [queues]
    rw [hx]
    exact if_neg hs
  · rfl

/-! ### A run -/

theorem Books.step (h : c.Books loads ends) {e : Event κ} (he : Step c e c') :
    c'.Books (loads ++ c.queues e) (ends ++ c.concludes e) := by
  cases he with
  | make key =>
    rw [show c.queues (.make key) = [] from rfl, show c.concludes (.make key) = [] from rfl,
      List.append_nil, List.append_nil]
    exact h.make key
  | @enqueue k x hx hf =>
    have hqueues : c.queues (.poll k) = [(k, x.key)] := by simp [queues, hx, hf]
    rw [hqueues, show c.concludes (.poll k) = [] from rfl, List.append_nil]
    exact h.enqueue hx hf
  | handOver hl he hs =>
    have hconcludes : c.concludes e = [] := by rcases he with rfl | rfl <;> rfl
    rw [queues_of_stage hl (by simp) he, hconcludes, List.append_nil, List.append_nil]
    exact h.handOver hl hs
  | @move k _ s stage hk he hs =>
    have hne : s ≠ .leading := by
      rcases he with ⟨_, rfl⟩ | ⟨_, hne⟩
      · simp
      · exact hne
    have hconcludes : c.concludes e = [] := by rcases he with ⟨rfl, _⟩ | ⟨rfl, _⟩ <;> rfl
    have hqueues : c.queues e = [] := by
      rcases he with ⟨rfl, rfl⟩ | ⟨rfl, _⟩
      · exact queues_of_stage hk (by simp) (.inl rfl)
      · rfl
    rw [hqueues, hconcludes, List.append_nil, List.append_nil]
    exact h.move hk hne hs
  | @conclude n b outcome hb hf =>
    have hconcludes : c.concludes (.finish n outcome) = [(n, outcome)] := by
      simp [concludes, hb, hf]
    rw [hconcludes, show c.queues (.finish n outcome) = [] from rfl, List.append_nil]
    exact h.conclude hb hf
  | idle hq hc _ =>
    rw [hq, hc, List.append_nil, List.append_nil]
    exact h

variable {limit : Nat} {events : List (Event κ)}

theorem limit_after (hevents : ∀ e ∈ events, e.Inside) : (after limit events).limit = limit := by
  induction events using List.reverseRecOn with
  | nil => rfl
  | append_singleton events e ih =>
    rw [after_concat, (step_apply _ (hevents e (by simp))).limit]
    exact ih fun e he => hevents e (List.mem_append_left _ he)

theorem books_after (hevents : ∀ e ∈ events, e.Inside) :
    (after limit events).Books (queued limit events) (outcomes limit events) := by
  induction events using List.reverseRecOn with
  | nil => exact books_empty limit
  | append_singleton events e ih =>
    have hqueued : queued limit (events ++ [e]) =
        queued limit events ++ (after limit events).queues e :=
      observed_concat apply queues { limit } events e
    have houtcomes : outcomes limit (events ++ [e]) =
        outcomes limit events ++ (after limit events).concludes e :=
      observed_concat apply concludes { limit } events e
    rw [hqueued, houtcomes, after_concat]
    exact (ih fun e he => hevents e (List.mem_append_left _ he)).step
      (step_apply _ (hevents e (by simp)))

/-- Polling a load that has been polled before gives it the answer that it has. -/
theorem result?_poll {k : Nat} {s : JoinStage} (hk : c.stageOf? k = some s) (hf : s ≠ .fresh)
    (hd : s ≠ .dropped) : (c.poll k).result? k = c.answerOf? k := by
  obtain ⟨x, hx, rfl⟩ := Option.map_eq_some_iff.1 hk
  have hlook : ∀ q : Coalescer κ, q.joins = c.joins → (q.look k).result? k = c.answerOf? k := by
    intro q hq
    have hlen := (List.getElem?_eq_some_iff.1 hx).1
    have hget := (List.getElem?_eq_some_iff.1 hx).2
    simp only [look, hq, hx, setStage, result?, answerOf?, List.getElem?_modify]
    cases hanswer : x.answer <;> simp [hanswer]
  unfold poll
  rw [hx]
  dsimp only
  split
  · next h => exact absurd h hf
  · exact hlook c.dispatch rfl
  · exact hlook c rfl
  · next h => simp [result?, answerOf?, hx, h]
  · next h => exact absurd h hd

/-- A load that is polled for the first time has no result. -/
theorem result?_poll_of_fresh {k : Nat} (hk : c.stageOf? k = some .fresh) :
    (c.poll k).result? k = none := by
  obtain ⟨x, hx, hs⟩ := Option.map_eq_some_iff.1 hk
  have hpoll : c.poll k = c.enqueue k x.key := by
    unfold poll enqueue
    simp only [hx, hs]
  rw [hpoll, Option.eq_none_iff_forall_ne_some]
  intro r hr
  have hdone := (stageOf?_setStage _ k _ k).symm.trans (done_of_result? hr)
  rw [if_pos rfl] at hdone
  obtain ⟨_, _, hdone⟩ := Option.map_eq_some_iff.1 hdone
  split at hdone <;> simp at hdone

/-- What polling a load that is not given up comes to, if anything, is what it is due. -/
theorem Books.result?_poll (h : c.Books loads ends) {k : Nat}
    (hd : c.stageOf? k ≠ some .dropped) (r : Except LookupError Json) :
    (c.poll k).result? k = some r ↔ c.Due ends k r := by
  have hnone : (c.poll k).result? k = none → (∀ x, c.joins[k]? = some x → x.stage = .fresh) →
      ((c.poll k).result? k = some r ↔ c.Due ends k r) := by
    intro hresult hfresh
    refine iff_of_false (by simp [hresult]) ?_
    rintro ⟨n, b, i, o, hb, hi, _⟩
    obtain ⟨x, hx, _, hs⟩ := h.join hb hi
    exact hs (hfresh x hx)
  cases hk : c.stageOf? k with
  | none =>
    have hx : c.joins[k]? = none := by simpa [stageOf?] using hk
    exact hnone (by simp [poll, result?, hx]) fun x hx' => by simp [hx] at hx'
  | some s =>
    by_cases hf : s = .fresh
    · subst hf
      refine hnone (result?_poll_of_fresh hk) fun x hx => ?_
      simpa [stageOf?, hx] using hk
    · rw [Coalescer.result?_poll hk hf fun hs => hd (hs ▸ hk)]
      exact h.answered k r

/-- How a coalescer goes on after some events, with batches of at most `limit` keys. -/
structure Coalesces (limit : Nat) (events : List (Event κ)) : Prop where
  /-- The first load of the queue leads, and no other. -/
  leader : ∀ k, (after limit events).stageOf? k = some .leading ↔
    ((after limit events).queue.map (·.1)).head? = some k
  /-- When the leader goes on or is given up, the queue is handed over, in batches of which only the
  last may be short. -/
  relieved : ∀ e, (after limit events).Relieves e → ((after limit events).apply e).queue = [] ∧
    ∃ new, ((after limit events).apply e).batches = (after limit events).batches ++ new ∧
      (new.flatMap fun b => b.joins.zip b.keys) = (after limit events).queue ∧
      ∀ b ∈ new.dropLast, b.keys.length = max limit 1
  /-- By any other event nothing is handed over. -/
  kept : ∀ e, e.Inside → ¬ (after limit events).Relieves e →
    (((after limit events).apply e).batches.map fun b => (b.joins, b.keys)) =
      (after limit events).batches.map fun b => (b.joins, b.keys)
  /-- What was queued was handed over in this order, or is still in the queue. -/
  order : (after limit events).handed ++ (after limit events).queue = queued limit events
  once : ((queued limit events).map (·.1)).Nodup
  sizes : ∀ b ∈ (after limit events).batches, 1 ≤ b.keys.length ∧ b.keys.length ≤ max limit 1
  /-- Every load of a batch stands where its key does. -/
  places : ∀ b ∈ (after limit events).batches, ∀ i k : Nat, b.joins[i]? = some k →
    ∃ x, (after limit events).joins[k]? = some x ∧ b.keys[i]? = some x.key
  /-- A batch comes to one outcome. -/
  concluded : ((outcomes limit events).map (·.1)).Nodup
  /-- A load that is not given up returns its share of what its batch has come to, and nothing
  else. -/
  returns : ∀ k r, (after limit events).stageOf? k ≠ some .dropped →
    (((after limit events).poll k).result? k = some r ↔
      (after limit events).Due (outcomes limit events) k r)

theorem coalesces (hevents : ∀ e ∈ events, e.Inside) : Coalesces limit events where
  leader := (books_after hevents).leader
  relieved e he := by
    have hinside : e.Inside := by
      rintro k rfl
      obtain ⟨_, _, h | h⟩ := he <;> simp at h
    have hrelieved := (step_apply _ hinside).relieved he
    rwa [limit_after hevents] at hrelieved
  kept e hinside he := (step_apply _ hinside).kept he
  order := (books_after hevents).order
  once := (books_after hevents).once
  sizes b hb := by
    have hsizes := ((books_after hevents).sizes b hb).2
    rwa [limit_after hevents] at hsizes
  places b hb i k hi := by
    obtain ⟨n, hn⟩ := List.getElem?_of_mem hb
    obtain ⟨x, hx, hkey, _⟩ := (books_after hevents).join hn hi
    exact ⟨x, hx, hkey⟩
  concluded := (books_after hevents).concluded
  returns k r hd := (books_after hevents).result?_poll hd r

/-- Three loads are queued, the one that leads is given up, and both batches come to an outcome, the
second one without a result. -/
def leaderGivenUp : List (Event String) :=
  [.make "a", .make "b", .make "c", .poll 0, .poll 1, .poll 2, .drop 0 true,
    .finish 0 (.ok [.ok (.str "A"), .ok (.str "B")]), .finish 1 (.ok [])]

/-- The load that waited behind the leader returns its own result, and the one in the batch that was
answered badly a mismatch. -/
theorem coalesces_leader_given_up :
    ((after 2 leaderGivenUp).poll 1).result? 1 = some (.ok (.str "B")) ∧
      ((after 2 leaderGivenUp).poll 2).result? 2 = some (.error (.batchMismatch 1 0)) := by
  have h : Coalesces 2 leaderGivenUp := coalesces fun e he k hk => by
    subst hk
    simp [leaderGivenUp] at he
  have hbatches : (after 2 leaderGivenUp).batches.map (fun b => (b.joins, b.keys)) =
      [([0, 1], ["a", "b"]), ([2], ["c"])] := by decide +kernel
  have houtcomes : outcomes 2 leaderGivenUp =
      [(0, .ok [.ok (.str "A"), .ok (.str "B")]), (1, .ok [])] := by decide +kernel
  obtain ⟨b, batches, hlist, hb, hrest⟩ := List.map_eq_cons_iff.1 hbatches
  obtain ⟨b', batches', rfl, hb', -⟩ := List.map_eq_cons_iff.1 hrest
  obtain ⟨hjoins, hkeys⟩ := Prod.mk.inj hb
  obtain ⟨hjoins', hkeys'⟩ := Prod.mk.inj hb'
  refine ⟨(h.returns 1 _ (by decide +kernel)).2 ?_, (h.returns 2 _ (by decide +kernel)).2 ?_⟩
  · exact ⟨0, b, 1, .ok [.ok (.str "A"), .ok (.str "B")], by rw [hlist]; rfl,
      by rw [hjoins]; rfl, by rw [houtcomes]; simp, by simp [Batch.share, hkeys]⟩
  · exact ⟨1, b', 0, .ok [], by rw [hlist]; rfl, by rw [hjoins']; rfl, by rw [houtcomes]; simp,
      by simp [Batch.share, hkeys']⟩

end Coalescer

end NodeRpc
