import Mathlib.Algebra.Order.BigOperators.Group.List
import NodeRpc.Proofs.Lookup.Stranding
import NodeRpc.Proofs.Lookup.Wire

/-!
# How much is left to do for loads and talks

A load weighs less at every stage, and a key in the queue more than the talk that its batch begins;
a talk asks once, and weighs less when it has asked, when it is answered and when it is over. So
whatever a load or talk does takes from what is left to do, and only a new load adds to it.
-/

namespace NodeRpc

/-! ### Sums of which one part changes -/

theorem sum_map_set {α : Type} (f : α → Nat) {xs : List α} {k : Nat} {a : α} (h : xs[k]? = some a)
    (b : α) : ((xs.set k b).map f).sum + f a = (xs.map f).sum + f b := by
  induction xs generalizing k with
  | nil => simp at h
  | cons x xs ih =>
    cases k with
    | zero =>
      obtain rfl : x = a := by simpa using h
      simp only [List.set_cons_zero, List.map_cons, List.sum_cons]
      omega
    | succ k =>
      have hrest := ih (k := k) (by simpa using h)
      simp only [List.set_cons_succ, List.map_cons, List.sum_cons]
      omega

theorem length_pieces_le {α : Type} (n : Nat) (xs : List α) : (pieces n xs).length ≤ xs.length := by
  fun_induction pieces n xs with
  | case1 => simp
  | case2 x xs ih =>
    simp only [List.length_cons, List.length_drop] at ih ⊢
    omega

/-! ### Loads -/

/-- What is left to do for a load at some stage. -/
def JoinStage.effort : JoinStage → Nat
  | .fresh => 6
  | .leading => 2
  | .waiting => 1
  | .done => 0
  | .dropped => 0

namespace Coalescer

variable {κ : Type}

/-- What is left to do for all loads, and to hand over the queue. -/
def effort (c : Coalescer κ) : Nat :=
  ((c.joins.map Join.stage).map JoinStage.effort).sum + 3 * c.queue.length

/-- It depends on the stages and the queue only. -/
theorem effort_congr {c c' : Coalescer κ} (hstage : ∀ k, c'.stageOf? k = c.stageOf? k)
    (hqueue : c'.queue = c.queue) : c'.effort = c.effort := by
  have hstages : c'.joins.map Join.stage = c.joins.map Join.stage := by
    apply List.ext_getElem?
    intro k
    rw [List.getElem?_map, List.getElem?_map]
    exact hstage k
  rw [effort, effort, hstages, hqueue]

theorem effort_make (c : Coalescer κ) (key : κ) : (c.make key).effort = c.effort + 6 := by
  unfold effort make
  simp only [List.map_append, List.map_cons, List.map_nil, List.sum_append, List.sum_cons,
    List.sum_nil, JoinStage.effort]
  omega

theorem effort_setStage {c : Coalescer κ} {k : Nat} {j : Join κ} (h : c.joins[k]? = some j)
    (stage : JoinStage) :
    (c.setStage k stage).effort + j.stage.effort = c.effort + stage.effort := by
  have hstage : (c.joins.map Join.stage)[k]? = some j.stage := by rw [List.getElem?_map, h]; rfl
  have hset : (c.setStage k stage).joins.map Join.stage = (c.joins.map Join.stage).set k stage := by
    apply List.ext_getElem?
    intro i
    rw [List.getElem?_map]
    refine (c.stageOf?_setStage k stage i).trans ?_
    rw [List.getElem?_set, List.getElem?_map, stageOf?]
    split
    · next hi =>
      subst hi
      rw [h, if_pos (by simpa using (List.getElem?_eq_some_iff.1 h).1)]
      rfl
    · rfl
  have hsum := sum_map_set JoinStage.effort hstage stage
  have hqueue : (c.setStage k stage).queue = c.queue := rfl
  rw [effort, effort, hset, hqueue]
  omega

/-- An outcome changes answers only. -/
theorem effort_finish (c : Coalescer κ) (n : Nat) (outcome : BatchOutcome) :
    (c.finish n outcome).effort = c.effort := by
  refine effort_congr (c.stageOf?_finish n outcome) ?_
  by_cases h : ∀ b, c.batches[n]? = some b → b.finished = true
  · rw [finish_of_finished outcome h]
  · push Not at h
    obtain ⟨b, hb, hf⟩ := h
    rw [finish_eq hb (by simpa using hf)]

/-- A load that looks for its answer waits for it, or is done. -/
theorem effort_look {c : Coalescer κ} {k : Nat} {j : Join κ} (h : c.joins[k]? = some j) :
    (c.look k).effort + j.stage.effort = c.effort + if j.answer.isSome then 0 else 1 := by
  unfold look
  rw [h]
  dsimp only
  rw [effort_setStage h]
  cases j.answer <;> rfl

/-- Handing the queue over makes room for a batch for each key. -/
theorem effort_dispatch (c : Coalescer κ) :
    c.dispatch.effort + 3 * (c.dispatch.batches.length - c.batches.length) ≤ c.effort := by
  have hle := length_pieces_le c.limit c.queue
  have hbatches : c.dispatch.batches.length = c.batches.length + (pieces c.limit c.queue).length := by
    simp [dispatch]
  have heffort : c.dispatch.effort + 3 * c.queue.length = c.effort := rfl
  omega

/-- A key in the queue is to be handed over. -/
theorem effort_enqueue (c : Coalescer κ) (p : Nat × κ) :
    ({ c with queue := c.queue ++ [p] } : Coalescer κ).effort = c.effort + 3 := by
  unfold effort
  rw [List.length_append, List.length_singleton, Nat.mul_add, Nat.mul_one, Nat.add_assoc]

/-- A load that goes on takes from the effort, the batches that it hands over included, and takes
something if it has something to do. -/
theorem effort_poll (c : Coalescer κ) (k : Nat) :
    (c.poll k).effort + 3 * ((c.poll k).batches.length - c.batches.length) +
      (if c.canRun k || c.isLeading k then 1 else 0) ≤ c.effort := by
  have hone : (if c.canRun k || c.isLeading k then 1 else 0) ≤ 1 := by split <;> simp
  have hlooked : ∀ c' : Coalescer κ, (c'.look k).batches = c'.batches := fun c' => by
    unfold look
    split <;> rfl
  have hidle : c.poll k = c → (c.canRun k || c.isLeading k) = false →
      (c.poll k).effort + 3 * ((c.poll k).batches.length - c.batches.length) +
        (if c.canRun k || c.isLeading k then 1 else 0) ≤ c.effort := by
    intro hpoll hbusy
    rw [hpoll, hbusy, Nat.sub_self]
    exact Nat.le_refl _
  cases h : c.joins[k]? with
  | none => exact hidle (by rw [poll, h]) (by rw [canRun, isLeading, h]; rfl)
  | some j =>
    obtain ⟨key, stage, answer⟩ := j
    cases stage with
    | fresh =>
      have hpoll : c.poll k = ({ c with queue := c.queue ++ [(k, key)] } : Coalescer κ).setStage k
          (if c.queue.isEmpty then .leading else .waiting) := by rw [poll, h]
      have hset := effort_setStage (c := { c with queue := c.queue ++ [(k, key)] }) h
        (if c.queue.isEmpty then .leading else .waiting)
      have hstage : (if c.queue.isEmpty then JoinStage.leading else .waiting).effort ≤ 2 := by
        split <;> simp [JoinStage.effort]
      have hbatches : (c.poll k).batches = c.batches := by rw [hpoll]; rfl
      rw [effort_enqueue, ← hpoll, show JoinStage.fresh.effort = 6 from rfl] at hset
      rw [hbatches, Nat.sub_self]
      omega
    | leading =>
      have hpoll : c.poll k = c.dispatch.look k := by rw [poll, h]
      have hlook := effort_look (c := c.dispatch) (k := k) h
      have hdispatch := c.effort_dispatch
      have hanswer : (if answer.isSome then 0 else 1) ≤ 1 := by split <;> simp
      rw [show JoinStage.leading.effort = 2 from rfl] at hlook
      dsimp only at hlook
      rw [hpoll, hlooked]
      omega
    | waiting =>
      have hpoll : c.poll k = c.look k := by rw [poll, h]
      have hlook := effort_look h
      have hbusy : (c.canRun k || c.isLeading k) = answer.isSome := by simp [canRun, isLeading, h]
      rw [show JoinStage.waiting.effort = 1 from rfl] at hlook
      rw [hpoll, hlooked, Nat.sub_self, hbusy]
      cases answer with
      | none => exact Nat.le_of_eq (Nat.succ.inj hlook)
      | some r => exact Nat.le_of_eq hlook
    | done => exact hidle (by rw [poll, h]) (by simp [canRun, isLeading, h])
    | dropped => exact hidle (by rw [poll, h]) (by simp [canRun, isLeading, h])

end Coalescer

/-! ### Turns of a resolve that waits -/

namespace Resolves

theorem run_of_waiting {r : Resolves} {k n : Nat} (h : r.stageOf? k = some (.waiting n)) :
    ∃ y, r.run k = r.take k y n := by
  obtain ⟨y, hy, hstage⟩ := Option.map_eq_some_iff.1 h
  refine ⟨y, ?_⟩
  unfold run
  rw [hy]
  dsimp only
  rw [hstage]

/-- It takes the outcome of its load, if there is one. -/
theorem stageOf?_run_of_waiting {r : Resolves} {k n : Nat} (h : r.stageOf? k = some (.waiting n)) :
    (r.run k).stageOf? k = some ((r.outcomeOf? n).elim (.waiting n) .done) := by
  obtain ⟨y, hy⟩ := run_of_waiting h
  rw [hy, take]
  unfold outcomeOf?
  cases (r.loads[n]?).bind Load.outcome with
  | none =>
    dsimp only
    rw [stageOf?_setStage, if_pos rfl, h]
    rfl
  | some o =>
    dsimp only
    rw [stageOf?_setStage, if_pos rfl]
    exact congrArg (Option.map fun _ => ResolveStage.done o) h

end Resolves

/-! ### Loads and talks of a context -/

/-- How many turns and answers a talk still needs, where it asks once. -/
def Talk.effort : Talk → Nat
  | .fresh _ => 3
  | .waiting _ none => 2
  | .waiting _ (some _) => 1
  | .over => 0

namespace Context

variable {ν : Type}

/-- What is left to do for the loads of accounts and for the talks. -/
def workload (x : Context ν) : Nat := x.accounts.effort + (x.talks.map Talk.effort).sum

/-- New batches bring new talks. -/
theorem workload_putAccounts (x : Context ν) (c : Coalescer AccountKey) :
    (x.putAccounts c).workload = c.effort + (x.talks.map Talk.effort).sum +
      3 * (c.batches.length - x.accounts.batches.length) := by
  have hnew : ∀ (known : Nat) (batches : List (Batch AccountKey × Nat)),
      ((batches.map fun p => Talk.fresh ((loadAccounts x.client p.1.keys).map
        (.accounts (known + p.2)))).map Talk.effort).sum = 3 * batches.length := by
    intro known batches
    induction batches with
    | nil => rfl
    | cons p batches ih =>
      rw [List.map_cons, List.map_cons, List.sum_cons, ih, List.length_cons]
      simp only [Talk.effort]
      omega
  unfold workload Context.putAccounts
  dsimp only
  rw [List.map_append, List.sum_append, hnew, List.length_zipIdx, List.length_drop]
  omega

/-- Moving a load takes from the workload, and takes something if the load has something to do. -/
theorem Sound.workload_pollLoad {x : Context ν} (hs : x.Sound) (respond : Respondent ν) (n : Nat) :
    (x.pollLoad respond n).workload +
      (if x.accounts.canRun n || x.accounts.isLeading n then 1 else 0) ≤ x.workload := by
  unfold Context.pollLoad
  cases hw : x.works[n]? with
  | none =>
    have hnone : x.accounts.joins[n]? = none := by
      have hlength := List.getElem?_eq_none_iff.1 hw
      rw [hs.works, List.length_map, List.length_range] at hlength
      exact List.getElem?_eq_none hlength
    have hidle : (x.accounts.canRun n || x.accounts.isLeading n) = false := by
      unfold Coalescer.canRun Coalescer.isLeading
      rw [hnone]
      rfl
    rw [if_neg (by simp [hidle])]
    exact Nat.le_refl _
  | some w =>
    obtain ⟨rfl, _⟩ := hs.getElem?_works hw
    have hput := x.workload_putAccounts (x.accounts.poll n)
    have hpoll := x.accounts.effort_poll n
    have hfinish : ∀ r : Option Loaded, (r.elim (x.putAccounts (x.accounts.poll n)) fun o =>
        { x.putAccounts (x.accounts.poll n) with
          resolves := (x.putAccounts (x.accounts.poll n)).resolves.finish n o }).workload =
        (x.putAccounts (x.accounts.poll n)).workload := by
      intro r
      cases r <;> rfl
    dsimp only
    rw [hfinish, hput]
    unfold workload
    omega

/-- A resolve that waits begins no load. -/
theorem enter_of_waiting {x : Context ν} {r n : Nat}
    (h : x.resolves.stageOf? r = some (.waiting n)) :
    x.enter r = { x with resolves := x.resolves.run r } := by
  have hloads : (x.resolves.run r).loads = x.resolves.loads := by
    obtain ⟨y, hy⟩ := Resolves.run_of_waiting h
    rw [hy]
    unfold Resolves.take
    split <;> rfl
  unfold enter
  dsimp only
  rw [if_neg (by rw [hloads]; exact Nat.lt_irrefl _)]

theorem workload_enter_of_waiting {x : Context ν} {r n : Nat}
    (h : x.resolves.stageOf? r = some (.waiting n)) : (x.enter r).workload = x.workload := by
  rw [enter_of_waiting h]
  rfl

/-- A load that is begun adds to the workload. -/
theorem Sound.workload_enter {x : Context ν} (hs : x.Sound) (r : Nat) :
    (x.enter r).workload ≤ x.workload + 6 := by
  obtain h | ⟨k, h⟩ := hs.enter_cases r
  · rw [h]
    exact Nat.le_add_right _ 6
  · rw [h]
    have hmake := x.accounts.effort_make k
    show (x.accounts.make k).effort + (x.talks.map Talk.effort).sum ≤ x.workload + 6
    unfold workload
    omega

/-- Moving a resolve takes from what its first turn leaves, and takes something if the load that it
waits for then has something to do. -/
theorem Sound.workload_attend {x : Context ν} (hs : x.Sound) (respond : Respondent ν) (r : Nat) :
    (x.attend respond r).workload + (if ((x.enter r).awaited? r).any fun n =>
      (x.enter r).accounts.canRun n || (x.enter r).accounts.isLeading n then 1 else 0) ≤
      (x.enter r).workload := by
  unfold Context.attend
  dsimp only
  cases h : (x.enter r).awaited? r with
  | none => simp
  | some n =>
    have hpoll := (hs.enter r).workload_pollLoad respond n
    have hstage := (pollLoad_leaves respond (x.enter r) n).stages r
    dsimp only
    rw [workload_enter_of_waiting (hstage.trans (awaited?_eq_some.1 h))]
    exact hpoll

/-- The same of a resolve that waits: the load has something to do before its first turn, or the
resolve is done. -/
theorem Sound.workload_attend_of_waiting {x : Context ν} (hs : x.Sound) (respond : Respondent ν)
    {r n : Nat} (h : x.resolves.stageOf? r = some (.waiting n)) :
    (x.attend respond r).workload ≤ x.workload ∧
      (x.loadCanRun n = true ∨ x.accounts.isLeading n = true →
        (x.attend respond r).outcome? r = none → (x.attend respond r).workload < x.workload) := by
  have hattend := hs.workload_attend respond r
  rw [workload_enter_of_waiting h] at hattend
  refine ⟨Nat.le_trans (Nat.le_add_right _ _) hattend, fun hrun hnone => ?_⟩
  have hstage : (x.enter r).resolves.stageOf? r =
      some ((x.resolves.outcomeOf? n).elim (.waiting n) .done) := by
    rw [enter_of_waiting h]
    exact Resolves.stageOf?_run_of_waiting h
  cases ho : x.resolves.outcomeOf? n with
  | some o =>
    -- the resolve is done after its first turn
    rw [ho, Option.elim_some] at hstage
    have hawaited : (x.enter r).awaited? r = none := by
      rw [Option.eq_none_iff_forall_ne_some]
      intro m hm
      rw [awaited?_eq_some, hstage] at hm
      cases hm
    unfold Context.attend at hnone
    dsimp only at hnone
    rw [hawaited, outcome?_eq_some.2 hstage] at hnone
    cases hnone
  | none =>
    rw [ho, Option.elim_none] at hstage
    have hwork := hs.work_of_lt (hs.lt_of_awaited h)
    have hbusy : (x.accounts.canRun n || x.accounts.isLeading n) = true := by
      rw [Bool.or_eq_true]
      refine hrun.imp_left fun hrun => ?_
      unfold loadCanRun at hrun
      rw [hwork, show (x.resolves.loads[n]?).bind Load.outcome = none from ho] at hrun
      exact hrun
    have haccounts : (x.enter r).accounts = x.accounts := by rw [enter_of_waiting h]
    rw [awaited?_eq_some.2 hstage, Option.any_some, haccounts, if_pos hbusy] at hattend
    exact hattend

/-! ### Talks -/

theorem workload_setTalk (x : Context ν) {t : Nat} {talk : Talk} (h : x.talks[t]? = some talk)
    (node : ν) (talk' : Talk) : ({ x with node, talks := x.talks.set t talk' } : Context ν).workload +
      talk.effort = x.workload + talk'.effort := by
  have hsum := sum_map_set Talk.effort h talk'
  unfold workload
  dsimp only
  omega

/-- What accounts come to leaves nothing more to do. -/
theorem workload_conclude (x : Context ν) (n : Nat) (outcome : BatchOutcome) :
    (x.conclude (.accounts n outcome)).workload = x.workload := by
  have hfinish := x.accounts.effort_finish n outcome
  show (x.accounts.finish n outcome).effort + (x.talks.map Talk.effort).sum = _
  rw [hfinish]
  rfl

/-- A turn of a talk that can go on takes from the workload. -/
theorem Wired.workload_runTalk {record : AccountKey → Json} {x : Context (ν × List (Nat × Ask))}
    (hw : Wired record x) (respond : Respondent ν) (t : Nat) :
    (x.runTalk respond.logged t).workload + (if (x.talks[t]?).any Talk.canRun then 1 else 0) ≤
      x.workload := by
  cases ht : x.talks[t]? with
  | none => simp [Context.runTalk, ht]
  | some talk =>
    obtain ⟨b, hb⟩ : ∃ b, x.accounts.batches[t]? = some b :=
      ⟨_, List.getElem?_eq_getElem (hw.length ▸ (List.getElem?_eq_some_iff.1 ht).1)⟩
    have hset := x.workload_setTalk ht
    unfold Context.runTalk
    rw [ht]
    cases hw.talks t b talk hb ht with
    | fresh _ =>
      rw [Option.any_some, if_pos (rfl : Talk.canRun _ = true)]
      dsimp only
      rw [converse_load]
      split
      · next a rest _ =>
        have hover := hset (rest, x.node.2 ++ [(t, accountsAsk x.client b.keys)]) .over
        rw [workload_conclude]
        simp only [Talk.effort] at hover
        omega
      · next rest _ =>
        have hasked := hset (rest, x.node.2 ++ [(t, accountsAsk x.client b.keys)])
          (.waiting (fun a => .done (.accounts t (accountsRead x.client b.keys a))) none)
        simp only [Talk.effort] at hasked
        exact Nat.le_of_lt_succ (by omega)
    | @waiting answer _ _ =>
      cases answer with
      | none => exact Nat.le_refl _
      | some a =>
        have hover := hset x.node .over
        rw [Option.any_some, if_pos (rfl : Talk.canRun _ = true)]
        unfold Context.converse
        dsimp only [Dialogue.advance]
        rw [workload_conclude]
        simp only [Talk.effort] at hover
        omega
    | ended _ => exact Nat.le_refl _

/-- Whether the dialogue has asked something and got no answer yet. -/
def Talk.isUnanswered : Talk → Bool
  | .waiting _ none => true
  | _ => false

/-- An answer that somebody waits for takes from the workload. -/
theorem workload_deliver (x : Context ν) (t : Nat) (answer : Answer) :
    (x.deliver t answer).workload + (if (x.talks[t]?).any Talk.isUnanswered then 1 else 0) ≤
      x.workload := by
  unfold Context.deliver
  split
  · next next ht =>
    have hset := x.workload_setTalk ht x.node (.waiting next (some answer))
    rw [ht, Option.any_some, if_pos (rfl : Talk.isUnanswered _ = true)]
    exact Nat.le_of_eq (Nat.add_right_cancel (m := 1) hset)
  · next hno =>
    rw [if_neg]
    · exact Nat.le_refl _
    · rw [Option.any_eq_true]
      rintro ⟨talk, ht, hwaits⟩
      unfold Talk.isUnanswered at hwaits
      split at hwaits
      · next next => exact hno next ht
      · cases hwaits

end Context

end NodeRpc
