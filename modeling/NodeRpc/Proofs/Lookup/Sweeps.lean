import NodeRpc.Proofs.Lookup.Marking

/-!
# Nothing is left to sweep

Whenever a turn is over, the loads that nobody keeps have been given up. An answer of the node may
bring a load its outcome, but lets go of none. So there is nothing to sweep at any time, and to poll
a lookup that has returned does nothing at all.
-/

namespace NodeRpc

namespace Coalescer

variable {κ : Type} {c : Coalescer κ} {k : Nat}

/-- Load `k` has taken its answer or was given up. -/
def Over (c : Coalescer κ) (k : Nat) : Prop :=
  c.stageOf? k = some .done ∨ c.stageOf? k = some .dropped

/-- To give a load up does nothing if it is over or not there, and else sets its stage. -/
theorem drop_cases (c : Coalescer κ) (k : Nat) :
    (c.stageOf? k = none ∨ c.Over k) ∧ c.drop k true = c ∨
      ¬c.Over k ∧ ∃ q : Coalescer κ, q.joins = c.joins ∧ c.drop k true = q.setStage k .dropped := by
  unfold Over drop
  cases hx : c.joins[k]? with
  | none => exact .inl ⟨.inl (by simp [stageOf?, hx]), rfl⟩
  | some x =>
    have hstage : c.stageOf? k = some x.stage := by simp [stageOf?, hx]
    dsimp only
    split
    · next h => exact .inr ⟨by simp [hstage, h], c.dispatch, rfl, rfl⟩
    · next h => exact .inr ⟨by simp [hstage, h], c, rfl, rfl⟩
    · next h => exact .inr ⟨by simp [hstage, h], c, rfl, rfl⟩
    · next h => exact .inl ⟨.inr (.inl (by rw [hstage, h])), rfl⟩
    · next h => exact .inl ⟨.inr (.inr (by rw [hstage, h])), rfl⟩

theorem over_drop (h : (c.stageOf? k).isSome = true) : (c.drop k true).Over k := by
  rcases c.drop_cases k with ⟨hover, hdrop⟩ | ⟨-, q, hq, hdrop⟩
  · rw [hdrop]
    exact hover.resolve_left (Option.isSome_iff_ne_none.1 h)
  · have hstage : q.stageOf? k = c.stageOf? k := by rw [stageOf?, stageOf?, hq]
    obtain ⟨s, hs⟩ := Option.isSome_iff_exists.1 h
    right
    rw [hdrop, stageOf?_setStage, if_pos rfl, hstage, hs]
    rfl

theorem Over.drop (h : c.Over k) (j : Nat) : (c.drop j true).Over k := by
  rcases c.drop_cases j with ⟨-, hdrop⟩ | ⟨hj, q, hq, hdrop⟩
  · rwa [hdrop]
  · have hne : j ≠ k := by
      rintro rfl
      exact hj h
    have hstage : q.stageOf? k = c.stageOf? k := by rw [stageOf?, stageOf?, hq]
    unfold Over
    rwa [hdrop, stageOf?_setStage, if_neg hne, hstage]

/-- There is nothing to give up. -/
theorem Over.drop_eq (h : c.Over k) : c.drop k true = c := by
  rcases c.drop_cases k with ⟨-, hdrop⟩ | ⟨hnot, -⟩
  · exact hdrop
  · exact absurd h hnot

theorem Over.finish (h : c.Over k) (n : Nat) (outcome : BatchOutcome) :
    (c.finish n outcome).Over k := by
  unfold Over
  rwa [stageOf?_finish]

end Coalescer

namespace Context

variable {ν : Type} {x x' : Context ν}

/-! ### What has been given up -/

/-- What a load waits for goes no further: it has been taken, or was given up. -/
def Over (x : Context ν) : Work → Prop
  | .account j => x.accounts.Over j
  | .transaction j => x.transactions.Over j
  | .block t => x.talks[t]? = some .over

/-- Load `n` has no outcome, and nobody keeps it. -/
structure Unwanted (x : Context ν) (n : Nat) : Prop where
  outcome : x.resolves.outcomeOf? n = none
  kept : x.isKept n = false

/-- The loads that nobody keeps have been given up. -/
def Swept (x : Context ν) : Prop :=
  ∀ (n : Nat) w, x.works[n]? = some w → x.Unwanted n → x.Over w

/-- The loads that are swept are those that are unwanted. -/
theorem mem_swept {p : Load × Nat} :
    (p ∈ x.resolves.loads.zipIdx.filter fun p => p.1.outcome.isNone && !x.isKept p.2) ↔
      x.resolves.loads[p.2]? = some p.1 ∧ x.Unwanted p.2 := by
  rw [List.mem_filter, List.mem_zipIdx_iff_getElem?]
  refine and_congr_right fun hl => ?_
  have hout : x.resolves.outcomeOf? p.2 = p.1.outcome := by
    rw [Resolves.outcomeOf?, hl, Option.bind_some]
  rw [Bool.and_eq_true, Option.isNone_iff_eq_none, Bool.not_eq_true', ← hout]
  exact ⟨fun h => ⟨h.1, h.2⟩, fun h => ⟨h.1, h.2⟩⟩

theorem putAccounts_self (x : Context ν) : x.putAccounts x.accounts = x := by
  simp [putAccounts]

theorem putTransactions_self (x : Context ν) : x.putTransactions x.transactions = x := by
  simp [putTransactions]

/-- What is over need not be given up. -/
theorem Over.dropLoad_eq {n : Nat} {w : Work} (h : x.Over w) (hw : x.works[n]? = some w) :
    x.dropLoad n = x := by
  unfold Context.dropLoad
  rw [hw]
  cases w with
  | account j =>
    dsimp only
    rw [Coalescer.Over.drop_eq h, putAccounts_self]
  | transaction j =>
    dsimp only
    rw [Coalescer.Over.drop_eq h, putTransactions_self]
  | block t =>
    obtain ⟨ht, hover⟩ := List.getElem?_eq_some_iff.1 h
    dsimp only
    rw [← hover, List.set_getElem_self]

theorem Swept.sweep_eq (h : x.Swept) : x.sweep = x := by
  have hdrop : ∀ p ∈ x.resolves.loads.zipIdx.filter fun p =>
      p.1.outcome.isNone && !x.isKept p.2, x.dropLoad p.2 = x := by
    intro p hp
    cases hw : x.works[p.2]? with
    | none => rw [Context.dropLoad, hw]
    | some w => exact (h p.2 w hw (mem_swept.1 hp).2).dropLoad_eq hw
  unfold Context.sweep
  generalize x.resolves.loads.zipIdx.filter _ = ps at hdrop
  induction ps with
  | nil => rfl
  | cons p ps ih =>
    rw [List.foldl_cons, hdrop p (by simp)]
    exact ih fun q hq => hdrop q (by simp [hq])

/-! ### Sweeping -/

/-- Giving loads up changes neither the scope nor what loads wait for. -/
theorem dropLoad_eq_with (x : Context ν) (n : Nat) : ∃ accounts transactions talks,
    x.dropLoad n = { x with accounts, transactions, talks } := by
  unfold Context.dropLoad
  split <;> exact ⟨_, _, _, rfl⟩

theorem Over.dropLoad {w : Work} (h : x.Over w) (n : Nat) : (x.dropLoad n).Over w := by
  unfold Context.dropLoad
  cases hw : x.works[n]? with
  | none => exact h
  | some v =>
    cases v with
    | account j =>
      cases w with
      | account i => exact Coalescer.Over.drop h j
      | transaction i => exact h
      | block t => exact getElem?_append_of_some h _
    | transaction j =>
      cases w with
      | account i => exact h
      | transaction i => exact Coalescer.Over.drop h j
      | block t => exact getElem?_append_of_some h _
    | block t =>
      cases w with
      | account i => exact h
      | transaction i => exact h
      | block s =>
        have hlt := (List.getElem?_eq_some_iff.1 h).1
        show (x.talks.set t .over)[s]? = some .over
        rw [List.getElem?_set]
        split
        · next hs => rw [hs, if_pos hlt]
        · exact h

theorem Marked.over_dropLoad (hx : x.Marked) {n : Nat} {w : Work} (hw : x.works[n]? = some w) :
    (x.dropLoad n).Over w := by
  have hserves := hx.works n w hw
  unfold Context.dropLoad
  rw [hw]
  cases w with
  | account j =>
    obtain ⟨k, hk, -⟩ := hserves
    obtain ⟨join, hj, -⟩ := Option.map_eq_some_iff.1 hk
    exact Coalescer.over_drop (by simp [Coalescer.stageOf?, hj])
  | transaction j =>
    obtain ⟨k, hk, -⟩ := hserves
    obtain ⟨join, hj, -⟩ := Option.map_eq_some_iff.1 hk
    exact Coalescer.over_drop (by simp [Coalescer.stageOf?, hj])
  | block t => exact List.getElem?_set_self hserves

/-- Whatever was over stays so, and the loads that are given up are over. -/
theorem Marked.over_dropLoads (hx : x.Marked) (ps : List (Load × Nat)) {w : Work}
    (h : x.Over w ∨ ∃ p ∈ ps, x.works[p.2]? = some w) :
    (ps.foldl (fun x p => x.dropLoad p.2) x).Over w := by
  induction ps generalizing x with
  | nil => simpa using h
  | cons p ps ih =>
    refine ih (hx.dropLoad p.2) ?_
    have hworks : (x.dropLoad p.2).works = x.works := by
      obtain ⟨_, _, _, h⟩ := x.dropLoad_eq_with p.2
      rw [h]
    rcases h with h | ⟨q, hq, hw⟩
    · exact .inl (h.dropLoad p.2)
    · rcases List.mem_cons.1 hq with rfl | hq
      · exact .inl (hx.over_dropLoad hw)
      · exact .inr ⟨q, hq, (congrArg (fun ws => ws[q.2]?) hworks).trans hw⟩

theorem sweep_eq_with (x : Context ν) : ∃ accounts transactions talks,
    x.sweep = { x with accounts, transactions, talks } := by
  unfold Context.sweep
  generalize x.resolves.loads.zipIdx.filter _ = ps
  induction ps generalizing x with
  | nil => exact ⟨_, _, _, rfl⟩
  | cons p ps ih =>
    obtain ⟨_, _, _, hdrop⟩ := x.dropLoad_eq_with p.2
    obtain ⟨accounts, transactions, talks, h⟩ := ih (x.dropLoad p.2)
    rw [hdrop] at h
    rw [List.foldl_cons, hdrop]
    exact ⟨accounts, transactions, talks, h⟩

theorem Marked.swept_sweep (hx : x.Marked) : x.sweep.Swept := by
  intro n w hw hn
  refine hx.over_dropLoads _ (.inr ?_)
  obtain ⟨_, _, _, hsame⟩ := x.sweep_eq_with
  rw [hsame] at hw hn
  have hlt : n < x.resolves.loads.length := hx.length ▸ (List.getElem?_eq_some_iff.1 hw).1
  exact ⟨(x.resolves.loads[n], n),
    mem_swept.2 ⟨List.getElem?_eq_getElem hlt, hn.outcome, hn.kept⟩, hw⟩

/-! ### What happens between sweeps -/

/-- Whatever lets go of no load and takes nothing up again. -/
theorem Swept.mono (hx : x.Swept) (hworks : x'.works = x.works)
    (hunwanted : ∀ n, x'.Unwanted n → x.Unwanted n) (hover : ∀ w, x.Over w → x'.Over w) :
    x'.Swept :=
  fun n w hw hn => hover w (hx n w (hworks ▸ hw) (hunwanted n hn))

/-- A talk goes on that was not over. -/
theorem over_setTalk {t : Nat} {talk talk' : Talk} (ht : x.talks[t]? = some talk)
    (hne : talk ≠ .over) (node : ν) {w : Work} (h : x.Over w) :
    Over { x with node, talks := x.talks.set t talk' } w := by
  cases w with
  | account j => exact h
  | transaction j => exact h
  | block s =>
    have hts : t ≠ s := by
      rintro rfl
      exact hne (Option.some.inj (ht.symm.trans h))
    exact (List.getElem?_set_ne hts).trans h

theorem Over.conclude {w : Work} (h : x.Over w) (c : Conclusion) : (x.conclude c).Over w := by
  cases c with
  | accounts n outcome =>
    cases w with
    | account j => exact Coalescer.Over.finish h n outcome
    | _ => exact h
  | transactions n outcome =>
    cases w with
    | transaction j => exact Coalescer.Over.finish h n outcome
    | _ => exact h
  | block n loaded => cases w <;> exact h

/-- Who had no outcome afterwards had none before. -/
theorem Unwanted.of_conclude {c : Conclusion} {n : Nat} (h : (x.conclude c).Unwanted n) :
    x.Unwanted n := by
  cases c with
  | accounts m outcome => exact ⟨h.outcome, h.kept⟩
  | transactions m outcome => exact ⟨h.outcome, h.kept⟩
  | block m loaded =>
    refine ⟨Option.eq_none_iff_forall_ne_some.2 fun o ho => ?_, h.kept⟩
    have hstays := (x.resolves.finish_keeps m loaded).outcome n o ho
    exact absurd (hstays.symm.trans h.outcome) (by simp)

theorem works_conclude (x : Context ν) (c : Conclusion) : (x.conclude c).works = x.works := by
  cases c <;> rfl

theorem Swept.converse (hx : x.Swept) (respond : Respondent ν) {t : Nat} {talk : Talk}
    (ht : x.talks[t]? = some talk) (hne : talk ≠ .over) (d : Dialogue Conclusion) :
    (x.converse respond t d).Swept := by
  have hset : ∀ (node : ν) (talk' : Talk), Swept { x with node, talks := x.talks.set t talk' } :=
    fun node talk' => hx.mono rfl (fun _ h => ⟨h.outcome, h.kept⟩)
      fun w h => over_setTalk ht hne node h
  unfold Context.converse
  split
  · next c node heq =>
    exact (hset node .over).mono (works_conclude _ c) (fun n h => h.of_conclude)
      fun w h => h.conclude c
  · exact hset _ _

theorem Swept.runTalk (hx : x.Swept) (respond : Respondent ν) (t : Nat) :
    (x.runTalk respond t).Swept := by
  unfold Context.runTalk
  split
  · next d ht => exact hx.converse respond ht (by simp) d
  · next next answer ht => exact hx.converse respond ht (by simp) (next answer)
  · exact hx

theorem Swept.deliver (hx : x.Swept) (t : Nat) (answer : Answer) : (x.deliver t answer).Swept := by
  unfold Context.deliver
  split
  · next next ht =>
    exact hx.mono rfl (fun _ h => ⟨h.outcome, h.kept⟩)
      fun w h => over_setTalk ht (by simp) x.node h
  · exact hx

theorem Swept.apply {started : List Inquiry} (hx : x.Swept) (hr : Recognized started x)
    (respond : Respondent ν) (e : Event) : (x.apply respond e).Swept := by
  cases e with
  | start i =>
    exact hx.mono rfl (fun _ h => ⟨h.outcome, h.kept⟩) fun w h => by cases w <;> exact h
  | poll k => exact (hr.pollUpTo respond _ k).marked.swept_sweep
  | drop k =>
    unfold Context.apply Context.drop
    dsimp only
    split
    · next l hl => exact (hr.giveUp hl).marked.swept_sweep
    · exact hx
  | runTalk t =>
    unfold Context.apply
    dsimp only
    split
    · exact hx.runTalk respond t
    · exact hx
  | deliver t answer => exact hx.deliver t answer
  | teardown => exact hr.clear.marked.swept_sweep

theorem swept_after (respond : Respondent ν) (g : Graph) (node : ν) (events : List Event) :
    ((ofGraph g node).after respond events).Swept := by
  induction events using List.reverseRecOn with
  | nil => exact fun n w hw => by simp [Context.after, ofGraph] at hw
  | append_singleton events e ih =>
    rw [after_concat]
    exact ih.apply (recognized_after respond g node events) respond e

/-- To poll a lookup that has returned does nothing. -/
theorem poll_of_result (respond : Respondent ν) (g : Graph) (node : ν) (events : List Event)
    {k : Nat} (h : (((ofGraph g node).after respond events).result? k).isSome = true) :
    ((ofGraph g node).after respond events).poll respond k =
      (ofGraph g node).after respond events := by
  have hswept := swept_after respond g node events
  generalize (ofGraph g node).after respond events = x at h hswept
  have hstays : Context.pollUpTo respond (x.scope.entries.length + 2) x k = x := by
    unfold Context.result? at h
    rw [Context.pollUpTo]
    split
    · next e goal resolve hl => simp [hl] at h
    · rfl
  rw [Context.poll, hstays, hswept.sweep_eq]

end Context

end NodeRpc
