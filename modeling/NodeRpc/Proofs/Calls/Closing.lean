import NodeRpc.Proofs.Calls.Writes

/-!
# What the end of a connection does to calls

Closing answers every pending call. `Complete` says that no unanswered call of an exchange under way
is missing from the table, so after the close each of them has an answer; what becomes of the
exchange then is decided by its write alone.
-/

namespace NodeRpc.Calls

/-- Every unanswered call of an exchange under way is pending. -/
def Complete (c : Calls) : Prop :=
  ∀ (k : Nat) (x : Exchange) (i : Nat), c.exchanges[k]? = some x → x.isUnderWay = true →
    i ∈ x.ids → x.answers.get? i = none → (c.pending.get? i).map Entry.exchange = some k

/-! ### Replacing an exchange -/

/-- Exchange `k` may become `y` if the table loses no entry of another exchange, and none that `y`
still needs. -/
theorem Complete.replace {c c' : Calls} (hc : c.Complete) {k : Nat} {x y : Exchange}
    (hx : c.exchanges[k]? = some x) (hy : c'.exchanges = c.exchanges.set k y)
    (hothers : ∀ i j, j ≠ k → (c.pending.get? i).map Entry.exchange = some j →
      (c'.pending.get? i).map Entry.exchange = some j)
    (hown : y.isUnderWay = true → ∀ i ∈ y.ids, y.answers.get? i = none →
      (c'.pending.get? i).map Entry.exchange = some k) : c'.Complete := by
  intro j z i hz hw hi hnone
  rw [hy] at hz
  have hz := (getElem?_setExchange hx y j).symm.trans hz
  split at hz
  · next hjk =>
    obtain rfl := Option.some.inj hz
    exact hjk ▸ hown hw i hi hnone
  · next hne => exact hothers i j (Ne.symm hne) (hc j z i hz hw hi hnone)

/-- Taking the ids of an exchange out of the table leaves the entries of the others. -/
theorem Valid.forget_others {c : Calls} (hv : c.Valid) {k : Nat} {x : Exchange}
    (hx : c.exchanges[k]? = some x) (i j : Nat) (hne : j ≠ k)
    (h : (c.pending.get? i).map Entry.exchange = some j) :
    ((c.forget x.ids).pending.get? i).map Entry.exchange = some j := by
  obtain ⟨entry, hp, rfl⟩ := Option.map_eq_some_iff.1 h
  obtain ⟨z, hz, _, hi, _⟩ := hv.owned i entry hp
  have hout : i ∉ x.ids := fun hin => hne (hv.apart _ k z x i hz hx hi hin)
  rw [pending_forget, if_neg hout]
  exact h

/-- What is over needs no entries. -/
theorem Complete.over {c : Calls} (hc : c.Complete) (hv : c.Valid) {k : Nat} {x y : Exchange}
    (hx : c.exchanges[k]? = some x) (hy : y.isUnderWay = false) :
    ((c.forget x.ids).setExchange k y).Complete :=
  hc.replace hx rfl (hv.forget_others hx) fun hw => by simp [hy] at hw

theorem Complete.setStage {c : Calls} (hc : c.Complete) {k : Nat} {x : Exchange}
    (hx : c.exchanges[k]? = some x) (hw : x.isUnderWay = true) (stage : Stage) :
    (c.setExchange k { x with stage }).Complete :=
  hc.replace hx rfl (fun _ _ _ h => h) fun _ i hi hnone => hc k x i hx hw hi hnone

theorem Complete.enter {c : Calls} (hc : c.Complete) (hv : c.Valid) {k : Nat} {x : Exchange}
    (hx : c.exchanges[k]? = some x) : (c.enter k x).Complete := by
  refine hc.replace (y := { x with ids := c.newIds k x, stage := .writing none }) hx rfl
    (fun i j _ h => ?_) fun _ i hi _ => ?_
  · obtain ⟨entry, hp, hentry⟩ := Option.map_eq_some_iff.1 h
    simp [pending_enter, hp, hentry]
  · -- nobody had these ids before
    have hi : i ∈ c.newIds k x := hi
    have hnone : c.pending.get? i = none := by
      cases hp : c.pending.get? i with
      | none => rfl
      | some entry =>
        exact absurd (hv.spent_of_pending hp) (not_spent_of_mem_newIds hi)
    simp [pending_enter, hnone, hi]

/-! ### Turns -/

theorem Complete.await {c : Calls} (hc : c.Complete) (hv : c.Valid) {k : Nat} {x : Exchange}
    (hx : c.exchanges[k]? = some x) (hw : x.isUnderWay = true) : (c.await k x).Complete := by
  unfold Calls.await
  split
  · exact hc.over hv hx rfl
  · split
    · exact hc.over hv hx rfl
    · exact hc.setStage hx hw .waiting

theorem Complete.write {c : Calls} (hc : c.Complete) (hv : c.Valid) {k : Nat} {x : Exchange}
    (hx : c.exchanges[k]? = some x) (hw : x.isUnderWay = true) : (c.write k x).Complete := by
  have hwritten : ({ c with written := c.written ++ [x.frame] } : Calls).Complete := hc
  have hv' : ({ c with written := c.written ++ [x.frame] } : Calls).Valid :=
    hv.congr rfl rfl rfl rfl
  unfold Calls.write
  split
  · exact hc.over hv hx rfl
  · split
    · exact hwritten.await hv' hx hw
    · exact hc.over hv hx rfl
    · exact hwritten.setStage hx hw (.writing none)

theorem Complete.start {c : Calls} (hc : c.Complete) (hv : c.Valid) {k : Nat} {x : Exchange}
    (hx : c.exchanges[k]? = some x) (hf : x.stage = .fresh) : (c.start k x).Complete := by
  by_cases hne : x.calls = []
  · have h : c.start k x = c.setExchange k { x with stage := .finished (.ok []) } := by
      simp [Calls.start, hne]
    rw [h]
    exact hc.replace hx rfl (fun _ _ _ h => h) fun hw => by simp [Exchange.isUnderWay] at hw
  · have hv' := hv.enter hx hf
    have hx' : (c.enter k x).exchanges[k]? =
        some { x with ids := c.newIds k x, stage := .writing none } := by
      have h := getElem?_setExchange hx { x with ids := c.newIds k x, stage := .writing none } k
      rwa [if_pos rfl] at h
    rw [start_eq c k x hne]
    split
    · have hshut := (hc.enter hv hx).over hv' hx'
        (y := { x with ids := c.newIds k x, stage := .finished (.error .transportClosed) }) rfl
      exact hshut
    · have hwrite := (hc.enter hv hx).write hv' hx' rfl
      exact hwrite

theorem Complete.run {c : Calls} (hc : c.Complete) (hv : c.Valid) (k : Nat) :
    (c.run k).Complete := by
  unfold Calls.run
  split
  · exact hc
  · next x hx =>
    split
    · next hf => exact hc.start hv hx hf
    · next reply hs =>
      have hw : x.isUnderWay = true := by simp [Exchange.isUnderWay, hs]
      split
      · exact hc.over hv hx rfl
      · split
        · exact hc
        · exact hc.await hv hx hw
        · exact hc.over hv hx rfl
    · next hs => exact hc.await hv hx (by simp [Exchange.isUnderWay, hs])
    · exact hc
    · exact hc

/-! ### Every event -/

theorem Complete.make {c : Calls} (hc : c.Complete) (calls : List Call) (batched : Bool)
    (token : Token) : (c.make calls batched token).Complete := by
  intro k x i hx hw
  simp only [Calls.make, getElem?_concat] at hx
  split at hx
  · rw [← Option.some.inj hx] at hw
    simp [Exchange.isUnderWay] at hw
  · exact hc k x i hx hw

theorem Complete.reserve {c : Calls} (hc : c.Complete) (k : Nat) : (c.reserve k).Complete := by
  unfold Complete
  rwa [exchanges_reserve, pending_reserve]

theorem Complete.abandon {c : Calls} (hc : c.Complete) (hv : c.Valid) (k : Nat) :
    (c.abandon k).Complete := by
  unfold Calls.abandon
  split
  · next x hx =>
    split
    · exact hc.over hv hx rfl
    · exact hc
  · exact hc

theorem Complete.resume {c : Calls} (hc : c.Complete) (k : Nat) (reply : Except CallError Unit) :
    (c.resume k reply).Complete := by
  unfold Calls.resume
  split
  · next x hx =>
    split
    · next hs => exact hc.setStage hx (by simp [Exchange.isUnderWay, hs]) _
    · exact hc
  · exact hc

/-- A call that is answered leaves the table, and no other. -/
theorem Complete.answerAll {c : Calls} (hc : c.Complete) (as : Table Nat Outcome) :
    (c.answerAll as).Complete := by
  intro k x' i hx' hw hi hnone
  obtain ⟨x, hx, hsame, hans⟩ := exchanges_answerAll as c k hx'
  have hw : x.isUnderWay = true := by rw [hsame] at hw; exact hw
  have hi : i ∈ x.ids := by rw [hsame] at hi; exact hi
  rw [hans i] at hnone
  rw [pending_answerAll]
  split at hnone
  · next hk =>
    obtain ⟨has, _⟩ := Option.or_eq_none_iff.1 hnone
    rw [if_neg ((Table.get?_eq_none_iff _ _).1 has)]
    exact hk
  · next hk => exact absurd (hc k x i hx hw hi hnone) hk

theorem complete_apply {c : Calls} (hc : c.Complete) (hv : c.Valid) (e : Event) :
    (c.apply e).Complete := by
  cases e with
  | call call token => exact hc.make [call] false token
  | batch calls token => exact hc.make calls true token
  | reserve k => exact hc.reserve k
  | run k => exact hc.run hv k
  | drop k => exact hc.abandon hv k
  | cancel token => exact hc
  | sink sink => exact hc
  | resume k reply => exact hc.resume k reply
  | route r => exact hc.answerAll _
  | routeBatch responses => exact hc.answerAll _
  | reject error => exact hc.answerAll _
  | close => exact hc.answerAll _

theorem complete_after (events : List Event) : (after events).Complete := by
  induction events using List.reverseRecOn with
  | nil => intro k x i hx; simp [after] at hx
  | append_singleton events e ih =>
    rw [after_concat]
    exact complete_apply ih (valid_after events) e

/-! ### The close -/

/-- What the calls of `x` come to if the connection ends: the answers that are there, and
`transportClosed` where there is none. -/
def closedOutcomes (x : Exchange) : List Outcome :=
  x.ids.map fun i => (x.answers.get? i).getD (.error .transportClosed)

/-- The close gives an exchange under way all the answers that it lacks. -/
theorem collected_close {events : List Event} {k : Nat} {x : Exchange}
    (hx : (after events).exchanges[k]? = some x) (hw : x.isUnderWay = true) :
    ∃ x', (after (events ++ [.close])).exchanges[k]? = some x' ∧ x'.stage = x.stage ∧
      x'.token = x.token ∧ x'.collected? = some (closedOutcomes x) := by
  obtain ⟨x', hx'⟩ := exists_of_after hx [.close]
  have hclose := hx'
  rw [after_concat] at hclose
  obtain ⟨y, hy, hsame, hans⟩ := exchanges_answerAll _ _ k hclose
  rw [hx] at hy
  obtain rfl := Option.some.inj hy
  refine ⟨x', hx', by rw [hsame], by rw [hsame], ?_⟩
  have hget : ∀ i ∈ x.ids,
      x'.answers.get? i = some ((x.answers.get? i).getD (.error .transportClosed)) := by
    intro i hi
    rw [hans i]
    split
    · next hk =>
      -- what is pending of the exchange has no answer yet
      obtain ⟨entry, hp, rfl⟩ := Option.map_eq_some_iff.1 hk
      obtain ⟨z, hz, _, _, hnone, _⟩ := (valid_after events).owned i entry hp
      rw [hx] at hz
      obtain rfl := Option.some.inj hz
      have hkey : i ∈ (after events).pending.keys := by
        rw [← Table.has_iff_mem_keys]
        simp [Table.has, hp]
      rw [Table.get?_map_const, if_pos hkey, hnone]
      rfl
    · next hk =>
      cases ho : x.answers.get? i with
      | none => exact absurd (complete_after events k x i hx hw hi ho) hk
      | some o => rfl
  have hids : x'.ids = x.ids := by rw [hsame]
  unfold Exchange.collected? closedOutcomes
  rw [hids]
  generalize x.ids = ids at hget
  induction ids with
  | nil => rfl
  | cons id ids ih =>
    rw [List.mapM_cons, hget id List.mem_cons_self,
      ih fun i hi => hget i (List.mem_cons_of_mem _ hi)]
    rfl

/-! ### Writes that never end -/

theorem stage_apply_of_ne {c : Calls} (hv : c.Valid) {e : Event} {k : Nat} {x x' : Exchange}
    (hx : c.exchanges[k]? = some x) (hx' : (c.apply e).exchanges[k]? = some x')
    (hrun : e ≠ .run k) (hdrop : e ≠ .drop k) (hresume : ∀ reply, e ≠ .resume k reply) :
    x'.stage = x.stage := by
  have hb := became hv hx'
  rw [hx] at hb
  cases hb with
  | same => rfl
  | turned ids he => exact absurd he hrun
  | dropped he => exact absurd he hdrop
  | resumed he => exact absurd he (hresume _)
  | answered hsame => rw [hsame]

/-- While its token is not cancelled, an exchange is writing if it was, and its write goes on. -/
theorem writing_apply_iff {c : Calls} (hv : c.Valid) {e : Event} {k : Nat} {x x' : Exchange}
    (hx : c.exchanges[k]? = some x) (hs : x.stage ≠ .fresh)
    (hx' : (c.apply e).exchanges[k]? = some x') (hc : c.isCancelled x.token = false)
    (hdrop : e ≠ .drop k) :
    x'.stage = .writing none ↔ x.stage = .writing none ∧ ∀ reply, e ≠ .resume k reply := by
  by_cases hresume : ∃ reply, e = .resume k reply
  · obtain ⟨reply, rfl⟩ := hresume
    refine iff_of_false ?_ fun h => h.2 reply rfl
    simp only [apply, resume, hx] at hx'
    split at hx'
    · have hget :=
        (getElem?_setExchange hx { x with stage := .writing (some reply) } k).symm.trans hx'
      rw [if_pos rfl] at hget
      rw [← Option.some.inj hget]
      simp
    · next hnot =>
      rw [hx] at hx'
      rw [← Option.some.inj hx']
      exact hnot
  · push Not at hresume
    simp only [hresume, ne_eq, not_false_eq_true, implies_true, and_true]
    by_cases hrun : e = .run k
    · subst hrun
      have hawaited : ∀ y, c.awaited y ≠ .writing none := by
        intro y
        rcases c.awaited_cases y with h | ⟨r, h⟩ <;> simp [h]
      have hsees : ∀ {reply}, c.writeEnd? k = some reply → x.stage ≠ .writing none := by
        intro reply hend h
        simp [writeEnd?, hx, h, hc] at hend
      cases turned_of_run hx hx' with
      | wrote ids hend => exact iff_of_false (hawaited _) (hsees hend)
      | failed ids hend => exact iff_of_false (by simp) (hsees hend)
      | empty hf => exact absurd hf hs
      | shut hf => exact absurd hf hs
      | begun hf => exact absurd hf hs
      | looked hw => exact iff_of_false (hawaited _) (by simp [hw])
      | idle => exact Iff.rfl
    · rw [stage_apply_of_ne hv hx hx' hrun hdrop hresume]

theorem writing_after_iff {events more : List Event} {k : Nat} {x x' : Exchange}
    (hx : (after events).exchanges[k]? = some x) (hs : x.stage ≠ .fresh)
    (hx' : (after (events ++ more)).exchanges[k]? = some x')
    (hc : .cancel x.token ∉ events ++ more) (hdrop : .drop k ∉ more) :
    x'.stage = .writing none ↔ x.stage = .writing none ∧ ∀ reply, .resume k reply ∉ more := by
  induction more using List.reverseRecOn generalizing x' with
  | nil =>
    rw [List.append_nil, hx] at hx'
    rw [← Option.some.inj hx']
    simp
  | append_singleton more e ih =>
    obtain ⟨y, hy⟩ := exists_of_after hx more
    rw [← List.append_assoc] at hx' hc
    rw [after_concat] at hx'
    have honward := onward_after hx hs hy
    have hc' : .cancel x.token ∉ events ++ more := fun h => hc (List.mem_append_left _ h)
    have hfree : (after (events ++ more)).isCancelled y.token = false := by
      rw [honward.token, Bool.eq_false_iff]
      exact fun h => hc' ((isCancelled_after _ _).1 h)
    have hdrop' : .drop k ∉ more := fun h => hdrop (List.mem_append_left _ h)
    have hne : e ≠ .drop k := fun h => hdrop (List.mem_append_right _ (by simp [h]))
    rw [writing_apply_iff (valid_after _) hy honward.started hx' hfree hne, ih hy hc' hdrop',
      and_assoc]
    simp only [List.mem_append, List.mem_singleton, not_or, ne_eq, forall_and, eq_comm]

/-- What becomes of an exchange that is under way when the connection closes, is not given up, and
has nothing more to do. It is unfinished if and only if its write was under way and has not ended
since, and its token was not cancelled. A call of it that was not answered before the close has
failed with `transportClosed` if and only if a turn has seen its write end well, or fail with that
cause. -/
theorem closed_exchange_iff (pre post : List Event) {k : Nat} {x x' : Exchange}
    (hx : (after pre).exchanges[k]? = some x) (hw : x.isUnderWay = true) (hdrop : .drop k ∉ post)
    (hx' : (after (pre ++ .close :: post)).exchanges[k]? = some x')
    (hrest : (after (pre ++ .close :: post)).canRun k = false) :
    (x'.isLive = true ↔ x.stage = .writing none ∧ .cancel x.token ∉ pre ++ post ∧
      ∀ reply, .resume k reply ∉ post) ∧
    ∀ (j i : Nat), x.ids[j]? = some i → x.answers.get? i = none →
      (x'.outcomeAt? j = some (.error .transportClosed) ↔
        Wrote (pre ++ .close :: post) k (.ok ()) ∨
        Wrote (pre ++ .close :: post) k (.error .transportClosed)) := by
  obtain ⟨y, hy, hstage, htoken, hall⟩ := collected_close hx hw
  have happ : pre ++ .close :: post = (pre ++ [.close]) ++ post := by simp
  have hcancel : .cancel x.token ∉ pre ++ .close :: post ↔ .cancel x.token ∉ pre ++ post := by simp
  have hwy : y.isUnderWay = true := by simpa [Exchange.isUnderWay, hstage] using hw
  have hstarted : y.stage ≠ .fresh := by rintro h; simp [Exchange.isUnderWay, h] at hwy
  have hids := (onward_after hx (hstage ▸ hstarted) hx').ids
  rw [happ] at hx' hrest hcancel ⊢
  have hends := ends_as_written (pre ++ [.close]) post hy hwy hall hdrop hx' hrest
  rw [htoken] at hends
  constructor
  · constructor
    · intro hlive
      rcases hends with ⟨hs, hfree, _⟩ | ⟨reply, hs, _⟩
      · have hfree : .cancel x.token ∉ pre ++ [.close] ++ post := fun h => by
          rw [(isCancelled_after _ _).2 h] at hfree
          simp at hfree
        have h := (writing_after_iff hy hstarted hx' (htoken ▸ hfree) hdrop).1 hs
        exact ⟨hstage ▸ h.1, hcancel.1 hfree, h.2⟩
      · simp [Exchange.isLive, hs] at hlive
    · rintro ⟨hs, hfree, hresume⟩
      have h := (writing_after_iff hy hstarted hx' (htoken ▸ hcancel.2 hfree) hdrop).2
        ⟨hstage.trans hs, hresume⟩
      simp [Exchange.isLive, h]
  · intro j i hi hnone
    rcases hends with ⟨hs, _, hnot⟩ | ⟨reply, hs, hwrote⟩
    · exact iff_of_false (by simp [Exchange.outcomeAt?, hs]) (not_or.2 ⟨hnot _, hnot _⟩)
    · rw [hwrote, hwrote]
      cases reply with
      | ok u =>
        refine iff_of_true ?_ (.inl rfl)
        simp [Exchange.outcomeAt?, hs, Except.map, closedOutcomes, hi, hnone]
      | error cause =>
        have hj : j < x'.calls.length := by
          rw [← ids_length_of_finished hx' hs, hids]
          exact (List.getElem?_eq_some_iff.1 hi).1
        simp [Exchange.outcomeAt?, hs, Except.map, hj, eq_comm]

/-- One call of a batch is answered, then the connection closes while the frame is being written.
The write ends well after all, so the batch ends, and its other call has failed. -/
theorem closed_exchange_of_batch :
    let ping : Call := ⟨"ping", .arr []⟩
    let pre : List Event := [.sink .stalls, .batch [ping, ping] (.caller 0), .run 0,
      .route ⟨1, .ok (.str "first")⟩]
    let post : List Event := [.resume 0 (.ok ()), .run 0]
    ∃ x, (after (pre ++ .close :: post)).exchanges[0]? = some x ∧ ¬ x.isLive = true ∧
      x.outcomeAt? 1 = some (.error .transportClosed) := by
  intro ping pre post
  let x : Exchange := {
    calls := [ping, ping], batched := true, token := .caller 0, ids := [1, 2]
    answers := [(1, .ok (.str "first"))], stage := .writing none }
  have hx : (after pre).exchanges[0]? = some x := by decide
  obtain ⟨x', hx'⟩ := exists_of_after hx (.close :: post)
  obtain ⟨hlive, hcalls⟩ := closed_exchange_iff pre post hx rfl (by decide) hx' (by decide)
  have hwrote : Wrote (pre ++ .close :: post) 0 (.ok ()) :=
    ⟨pre ++ [.close, .resume 0 (.ok ())], [], rfl, by decide⟩
  exact ⟨x', hx', fun h => (hlive.1 h).2.2 (.ok ()) (by decide),
    (hcalls 1 2 rfl rfl).2 (.inl hwrote)⟩

/-- A call whose write never ends outlives the close of its connection. -/
theorem unfinished_after_close :
    ¬ ∀ (pre post : List Event) (k : Nat) (x x' : Exchange),
      (after pre).exchanges[k]? = some x → x.isUnderWay = true → .drop k ∉ post →
      (∀ j, (after (pre ++ .close :: post)).canRun j = false) →
      (after (pre ++ .close :: post)).exchanges[k]? = some x' → x'.isLive = false := by
  intro h
  let ping : Call := ⟨"ping", .arr []⟩
  let pre : List Event := [.sink .stalls, .call ping (.caller 0), .run 0]
  let x : Exchange := {
    calls := [ping], batched := false, token := .caller 0, ids := [1], stage := .writing none }
  let x' : Exchange := { x with answers := [(1, .error .transportClosed)] }
  have hlist : (after (pre ++ [.close])).exchanges = [x'] := by decide
  have hrest : ∀ j, (after (pre ++ [.close])).canRun j = false := by
    intro j
    cases j with
    | zero => decide
    | succ j => simp [canRun, hlist]
  have hlive := h pre [] 0 x x' (by decide) rfl (by simp) hrest (by decide)
  simp [Exchange.isLive, x', x] at hlive

end NodeRpc.Calls
