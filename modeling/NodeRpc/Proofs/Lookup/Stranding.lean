import NodeRpc.Proofs.Lookup.Owners

/-!
# Lookups that wait in vain

When nothing can go on and the node has answered everything, all batches have come to an outcome, so
whoever still waits is queued. The queue is handed over by the load at its head when that is polled
or dropped. The entry of the scope keeps it from being dropped when the lookup that began it is
given up, and then nobody may be left to poll it.
-/

namespace NodeRpc.Context

variable {ν : Type}

/-- Load `m` is to hand over the queue of the accounts, but nobody waits for it: the lookup that
began it was given up. -/
structure Forsaken (x : Context ν) (m : Nat) : Prop where
  leads : ∃ p rest, x.accounts.queue = p :: rest ∧ x.works[m]? = some (.account p.1)
  unawaited : ∀ k, x.loadOf? k ≠ some m
  given : ∃ (k : Nat) (l : Lookup) (load : Load), x.lookups[k]? = some l ∧ l.dropped = true ∧
    x.resolves.loads[m]? = some load ∧ l.resolve = some load.starter

/-- Lookup `k` waits for a load in the queue, and the one that is to hand it over is forsaken. -/
def Stranded (x : Context ν) (k : Nat) : Prop :=
  ∃ n j m, x.loadOf? k = some n ∧ x.works[n]? = some (.account j) ∧
    j ∈ x.accounts.queue.map (·.1) ∧ x.Forsaken m

/-! ### When nothing can go on -/

theorem idle_of_isSettled {x : Context ν} (h : x.isSettled = true) :
    (∀ k < x.lookups.length, x.canPoll k = false ∧ x.isLeading k = false) ∧
      ∀ t talk, x.talks[t]? = some talk → talk.canRun = true → x.isTask t = false := by
  unfold isSettled at h
  rw [Bool.and_eq_true, List.all_eq_true, List.all_eq_true] at h
  refine ⟨?_, ?_⟩
  · intro k hk
    simpa using h.1 k (List.mem_range.2 hk)
  · intro t talk ht hrun
    simpa [hrun] using h.2 (talk, t) (List.mem_zipIdx_iff_getElem?.2 ht)

theorem Sound.isTask {x : Context ν} (hs : x.Sound) (t : Nat) : x.isTask t = true := by
  unfold Context.isTask
  rw [hs.works]
  simp

theorem Sound.work_of_lt {x : Context ν} (hs : x.Sound) {n : Nat}
    (h : n < x.accounts.joins.length) : x.works[n]? = some (.account n) := by
  simp [hs.works, h]

/-- Every batch has come to an outcome. -/
theorem Sound.finished {x : Context ν} (hs : x.Sound) (hsettled : x.isSettled = true)
    (hanswered : x.isAnswered = true) {b : Nat} {batch : Batch AccountKey}
    (hb : x.accounts.batches[b]? = some batch) : batch.finished = true := by
  by_contra hf
  obtain ⟨t, talk, ht, hbrings⟩ := hs.batches b batch hb (by simpa using hf)
  have hstop : talk.canRun = false := by
    by_contra hrun
    have h := (idle_of_isSettled hsettled).2 t talk ht (by simpa using hrun)
    rw [hs.isTask t] at h
    simp at h
  have hgot := List.all_eq_true.1 hanswered talk (List.mem_of_getElem? ht)
  cases talk with
  | fresh d => simp [Talk.canRun] at hstop
  | waiting next answer =>
    cases answer with
    | none => simp at hgot
    | some a => simp [Talk.canRun] at hstop
  | _ => exact hbrings

theorem awaited?_eq_some {x : Context ν} {r n : Nat} :
    x.awaited? r = some n ↔ x.resolves.stageOf? r = some (.waiting n) := by
  unfold awaited? Resolves.stageOf?
  cases (x.resolves.resolves[r]?).map Resolve.stage with
  | none => simp
  | some s => cases s <;> simp

theorem loadOf?_eq_some {x : Context ν} {k n : Nat} : x.loadOf? k = some n ↔
    ∃ l r, x.lookups[k]? = some l ∧ l.resolve = some r ∧
      x.resolves.stageOf? r = some (.waiting n) := by
  unfold loadOf?
  simp only [Option.bind_eq_some_iff, awaited?_eq_some]
  constructor
  · rintro ⟨l, hl, r, hr, hw⟩
    exact ⟨l, r, hl, hr, hw⟩
  · rintro ⟨l, r, hl, hr, hw⟩
    exact ⟨l, hl, r, hr, hw⟩

/-- Who waits for a load that leads can go on. -/
theorem Sound.not_leading {x : Context ν} (hs : x.Sound) (hsettled : x.isSettled = true)
    {k n : Nat} (h : x.loadOf? k = some n) : x.accounts.stageOf? n ≠ some .leading := by
  intro hlead
  obtain ⟨l, _, hl, _⟩ := loadOf?_eq_some.1 h
  have hk := (List.getElem?_eq_some_iff.1 hl).1
  have hidle := ((idle_of_isSettled hsettled).1 k hk).2
  obtain ⟨j, hj, hstage⟩ := Option.map_eq_some_iff.1 hlead
  have hn := (List.getElem?_eq_some_iff.1 hj).1
  have hwork := hs.work_of_lt hn
  unfold isLeading at hidle
  rw [h, Option.bind_some, hwork] at hidle
  simp [Coalescer.isLeading, hj, hstage] at hidle

/-- A load that cannot go on and does not lead waits for an answer. -/
theorem Sound.waiting_of_stopped {x : Context ν} (hs : x.Sound) {n : Nat}
    (hn : n < x.accounts.joins.length) (hstop : x.loadCanRun n = false)
    (hlead : x.accounts.stageOf? n ≠ some .leading) :
    x.accounts.stageOf? n = some .waiting ∧ x.accounts.answerOf? n = none := by
  have hwork := hs.work_of_lt hn
  unfold loadCanRun at hstop
  rw [hwork, Bool.or_eq_false_iff] at hstop
  obtain ⟨hout, hrun⟩ := hstop
  have htold : x.accounts.stageOf? n ≠ some .done := by
    intro h
    have hsome := (hs.told n).2 h
    rw [Resolves.outcomeOf?, hout] at hsome
    simp at hsome
  have hkept := hs.kept n
  obtain ⟨j, hj⟩ : ∃ j, x.accounts.joins[n]? = some j := ⟨_, List.getElem?_eq_getElem hn⟩
  have hstage : x.accounts.stageOf? n = some j.stage := by simp [Coalescer.stageOf?, hj]
  have hanswer : x.accounts.answerOf? n = j.answer := by simp [Coalescer.answerOf?, hj]
  have hrun : j.stage ≠ .fresh ∧ (j.stage = .waiting → j.answer = none) := by
    simpa [Coalescer.canRun, hj] using hrun
  rw [hstage] at hlead hkept htold ⊢
  rw [hanswer]
  cases hj' : j.stage with
  | fresh => exact absurd hj' hrun.1
  | leading => simp [hj'] at hlead
  | waiting => exact ⟨rfl, hrun.2 hj'⟩
  | done => simp [hj'] at htold
  | dropped => simp [hj'] at hkept

theorem Sound.lt_of_awaited {x : Context ν} (hs : x.Sound) {r n : Nat}
    (h : x.resolves.stageOf? r = some (.waiting n)) : n < x.accounts.joins.length := by
  obtain ⟨y, hy, _⟩ := Option.map_eq_some_iff.1 h
  have hkey := hs.valid.waiting r y.key n (by simp [Resolves.keyOf?, hy]) h
  obtain ⟨load, hload, _⟩ := Option.bind_eq_some_iff.1 hkey
  exact hs.loads ▸ (List.getElem?_eq_some_iff.1 hload).1

/-- A lookup that is neither over nor given up waits for a load, which is queued. -/
theorem Rested.queued {x : Context ν} (hx : x.Rested) (hsettled : x.isSettled = true)
    (hanswered : x.isAnswered = true) {k : Nat} {l : Lookup} (hl : x.lookups[k]? = some l)
    (hd : l.dropped = false) (hresult : x.result? k = none) :
    ∃ n, x.loadOf? k = some n ∧ x.works[n]? = some (.account n) ∧
      n ∈ x.accounts.queue.map (·.1) := by
  have hs := hx.sound
  have hstop := ((idle_of_isSettled hsettled).1 k (List.getElem?_eq_some_iff.1 hl).1).1
  obtain ⟨inquiry, resolve, dropped⟩ := l
  obtain rfl : dropped = false := hd
  cases inquiry with
  | ended result => simp [result?, hl] at hresult
  | seeks e goal =>
    unfold canPoll at hstop
    rw [hl] at hstop
    cases resolve with
    | none => simp at hstop
    | some r =>
      obtain ⟨n, hn⟩ := (hx.owned.alive k _ r hl rfl rfl).resolve_right (by simp)
      have hload : x.loadOf? k = some n := loadOf?_eq_some.2 ⟨_, r, hl, rfl, hn⟩
      have hlt := hs.lt_of_awaited hn
      obtain ⟨hstage, hanswer⟩ := hs.waiting_of_stopped hlt (by simpa [hload] using hstop)
        (hs.not_leading hsettled hload)
      refine ⟨n, hload, hs.work_of_lt hlt, ?_⟩
      cases hs.accounts.placed n _ hstage (by simp) (by simp) hanswer with
      | queued h => exact h
      | batched hb hf _ => simp [hs.finished hsettled hanswered hb] at hf

/-- The head of the queue is forsaken. -/
theorem Rested.forsaken {x : Context ν} (hx : x.Rested) (hsettled : x.isSettled = true)
    {p : Nat × AccountKey} {rest : List (Nat × AccountKey)} (hq : x.accounts.queue = p :: rest) :
    x.Forsaken p.1 := by
  have hs := hx.sound
  have hlead := hs.accounts.head p rest hq
  have hunawaited : ∀ k, x.loadOf? k ≠ some p.1 := fun k h => hs.not_leading hsettled h hlead
  have hlt : p.1 < x.accounts.joins.length := by
    obtain ⟨j, hj, _⟩ := Option.map_eq_some_iff.1 hlead
    exact (List.getElem?_eq_some_iff.1 hj).1
  obtain ⟨load, hload⟩ : ∃ load, x.resolves.loads[p.1]? = some load :=
    ⟨_, List.getElem?_eq_getElem (hs.loads ▸ hlt)⟩
  refine ⟨⟨p, rest, hq, hs.work_of_lt hlt⟩, hunawaited, ?_⟩
  -- the starter of the load neither waits for it, nor has its outcome
  obtain ⟨events, _, he⟩ := hs.resolves
  have hgone : x.resolves.stageOf? load.starter = some .dropped := by
    have hfollows : x.resolves.Follows load.starter p.1 := by
      rw [he] at hload ⊢
      exact Resolves.starter_follows hload
    rcases hfollows with hw | hd | ⟨o, _, ho⟩
    · obtain ⟨k, l, hl, hr⟩ := hx.owned.owner _ _ hw (.inr ⟨_, rfl⟩)
      exact absurd (loadOf?_eq_some.2 ⟨l, _, hl, hr, hw⟩) (hunawaited k)
    · exact hd
    · have hdone := (hs.told p.1).1 (by simp [ho])
      rw [hlead] at hdone
      simp at hdone
  obtain ⟨k, l, hl, hr⟩ := hx.owned.owner _ _ hgone (.inl rfl)
  refine ⟨k, l, load, hl, ?_, hload, hr⟩
  by_contra hd
  rcases hx.owned.alive k l _ hl hr (by simpa using hd) with ⟨n, hn⟩ | h
  · rw [hgone] at hn
    simp at hn
  · simp at h

/-- Who is neither over nor given up, when nothing can go on, is stranded. -/
theorem Rested.stranded {x : Context ν} (hx : x.Rested) (hsettled : x.isSettled = true)
    (hanswered : x.isAnswered = true) {k : Nat} {l : Lookup} (hl : x.lookups[k]? = some l)
    (hd : l.dropped = false) (hresult : x.result? k = none) : x.Stranded k := by
  obtain ⟨n, hload, hwork, hmem⟩ := hx.queued hsettled hanswered hl hd hresult
  cases hq : x.accounts.queue with
  | nil => simp [hq] at hmem
  | cons p rest => exact ⟨n, n, p.1, hload, hwork, hmem, hx.forsaken hsettled hq⟩

/-- Where no lookup is given up, everybody comes to an end. -/
theorem Rested.ends {x : Context ν} (hx : x.Rested) (hsettled : x.isSettled = true)
    (hanswered : x.isAnswered = true) (hnone : ∀ l ∈ x.lookups, l.dropped = false) {k : Nat}
    (hk : k < x.lookups.length) : (x.result? k).isSome = true := by
  have hl := List.getElem?_eq_getElem hk
  rw [Option.isSome_iff_ne_none]
  intro hresult
  obtain ⟨_, _, m, _, _, _, hm⟩ :=
    hx.stranded hsettled hanswered hl (hnone _ (List.getElem_mem hk)) hresult
  obtain ⟨j, l, _, hj, hd, _⟩ := hm.given
  rw [hnone l (List.mem_of_getElem? hj)] at hd
  simp at hd

/-- When nothing can go on and the node has answered everything, a lookup that was not given up has
no result if and only if it is stranded. -/
theorem waits_iff_stranded (respond : Respondent ν) (g : Graph) (node : ν) {events : List Event}
    (he : ∀ e ∈ events, e.LooksUpAccounts)
    (hsettled : ((ofGraph g node).after respond events).isSettled = true)
    (hanswered : ((ofGraph g node).after respond events).isAnswered = true) {k : Nat} {l : Lookup}
    (hl : ((ofGraph g node).after respond events).lookups[k]? = some l) (hd : l.dropped = false) :
    ((ofGraph g node).after respond events).result? k = none ↔
      ((ofGraph g node).after respond events).Stranded k := by
  have hx := rested_after respond g node he
  generalize (ofGraph g node).after respond events = x at *
  refine ⟨hx.stranded hsettled hanswered hl hd, fun ⟨n, _, _, hload, _⟩ => ?_⟩
  obtain ⟨l', r, hl', hr, _⟩ := loadOf?_eq_some.1 hload
  obtain ⟨e, goal, hseeks⟩ := (hx.owned.lookup l' (List.mem_of_getElem? hl')).seeks r hr
  simp [result?, hl', hseeks]

/-- A node that never answers at once. -/
def silent : Respondent Unit := fun node _ _ => (none, node)

/-- A lookup of account `address` with all its fields. -/
def whole (address : String) : Inquiry := .select (.ofAccount {} address {}) .all

/-- The first lookup is given up after its first turn; then another one asks for another account. -/
def untilGivenUp : List Event :=
  [.start (whole "A"), .poll 0, .drop 0, .start (whole "B"), .poll 1]

theorem untilGivenUp_accounts : ∀ e ∈ untilGivenUp, e.LooksUpAccounts := by
  intro e he
  simp only [untilGivenUp, List.mem_cons, List.not_mem_nil, or_false] at he
  rcases he with rfl | rfl | rfl | rfl | rfl
  · exact Inquiry.seeksAccounts_select {} "A" {} .all
  · trivial
  · trivial
  · exact Inquiry.seeksAccounts_select {} "B" {} .all
  · trivial

/-- The other lookup is stranded. -/
theorem stranded_after_given_up :
    ((ofGraph ⟨{}, 3⟩ ()).after silent untilGivenUp).Stranded 1 := by
  obtain ⟨l, hl, hd⟩ : ∃ l, ((ofGraph ⟨{}, 3⟩ ()).after silent untilGivenUp).lookups[1]? = some l ∧
      l.dropped = false := by
    refine ⟨{ inquiry := whole "B", resolve := some 1 }, ?_, rfl⟩
    decide +kernel
  exact (waits_iff_stranded silent ⟨{}, 3⟩ () untilGivenUp_accounts (by decide +kernel)
    (by decide +kernel) hl hd).1 (by decide +kernel)

/-- A lookup that was not given up may wait when nothing can go on. -/
theorem waits_in_vain :
    ¬ ∀ (respond : Respondent Unit) (g : Graph) (events : List Event) (k : Nat) (l : Lookup),
      (∀ e ∈ events, e.LooksUpAccounts) →
      ((ofGraph g ()).after respond events).isSettled = true →
      ((ofGraph g ()).after respond events).isAnswered = true →
      ((ofGraph g ()).after respond events).lookups[k]? = some l → l.dropped = false →
      (((ofGraph g ()).after respond events).result? k).isSome = true := by
  intro h
  have hsome := h silent ⟨{}, 3⟩ untilGivenUp 1 { inquiry := whole "B", resolve := some 1 }
    untilGivenUp_accounts (by decide +kernel) (by decide +kernel) (by decide +kernel) rfl
  revert hsome
  decide +kernel

end NodeRpc.Context
