import NodeRpc.Proofs.Lookup.Courses
import NodeRpc.Proofs.Lookup.Workload

/-!
# How much is left to do

Where the courses of inquiries come to an end, so do their lookups: whatever finds something to do
takes from an effort that nothing adds to but new lookups. An account that is still to be passed
weighs more than the load that is begun for it.
-/

namespace NodeRpc

/-! ### Lookups -/

/-- What is left to do for a lookup. An account takes eight: six for its load, which count as done
when the load is begun, and one for the first and the last turn each. -/
noncomputable def Lookup.effort (c : Client) (find : AccountKey → Json) (l : Lookup) : Nat :=
  8 * l.inquiry.left c find - if l.resolve.isSome then 7 else 0

namespace Context

variable {ν : Type}

/-- What is left to do. -/
noncomputable def effort (c : Client) (find : AccountKey → Json) (x : Context ν) : Nat :=
  (x.lookups.map (Lookup.effort c find)).sum + x.workload

/-- Where the lookups stay, only the workload matters. -/
theorem effort_of_lookups (c : Client) (find : AccountKey → Json) {x x' : Context ν}
    (h : x'.lookups = x.lookups) :
    x'.effort c find + x.workload = x.effort c find + x'.workload := by
  unfold effort
  rw [h]
  omega

theorem effort_setLookup (c : Client) (find : AccountKey → Json) {x : Context ν} {k : Nat}
    {l : Lookup} (hl : x.lookups[k]? = some l) (l' : Lookup) :
    (x.setLookup k l').effort c find + l.effort c find = x.effort c find + l'.effort c find := by
  have hsum := sum_map_set (Lookup.effort c find) hl l'
  have hwork : (x.setLookup k l').workload = x.workload := rfl
  unfold effort
  rw [hwork]
  show ((x.lookups.set k l').map (Lookup.effort c find)).sum + x.workload + _ = _
  omega

theorem effort_start (c : Client) (find : AccountKey → Json) (x : Context ν) (i : Inquiry) :
    (x.start i).effort c find = x.effort c find + 8 * i.left c find := by
  have hwork : (x.start i).workload = x.workload := rfl
  have hlookup : Lookup.effort c find { inquiry := i } = 8 * i.left c find := rfl
  unfold effort
  rw [hwork, Context.start]
  dsimp only
  rw [List.map_append, List.sum_append, List.map_singleton, List.sum_singleton, hlookup]
  omega

variable {record : AccountKey → Json} {g : Graph} {inquiries : List Inquiry}
  {x : Context (ν × List (Nat × Ask))}

/-- A lookup that goes on with its resolve has done most of what its account takes, and all of it if
the resolve is done. -/
theorem Attending.effort_goOn (hx : Attending record g inquiries x) {k r : Nat} {key : AccountKey}
    {goal : Goal} {resolve : Option Nat}
    (hl : x.lookups[k]? = some { inquiry := .seeks (.account key) goal, resolve })
    (hr : x.sought[r]? = some (.account key))
    (hends : (Inquiry.seeks (.account key) goal).Ends g.client (foundBy record)) :
    (x.setLookup k (x.lookupNext (.account key) goal r)).effort g.client (foundBy record) + 7 +
      (if (x.outcome? r).isSome then 1 else 0) ≤
      x.effort g.client (foundBy record) + if resolve.isSome then 7 else 0 := by
  have hset := effort_setLookup g.client (foundBy record) hl
    (x.lookupNext (.account key) goal r)
  have hlt := Inquiry.left_resume_lt hends
  unfold lookupNext at hset ⊢
  cases ho : x.outcome? r with
  | some loaded =>
    rw [ho] at hset
    dsimp only at hset ⊢
    rw [(hx.after hr ho goal).2] at hset ⊢
    simp only [Lookup.effort, Option.isSome_none, Option.isSome_some, Bool.false_eq_true, if_false,
      if_true] at hset ⊢
    omega
  | none =>
    rw [ho] at hset
    simp only [Lookup.effort, Option.isSome_none, Option.isSome_some, Bool.false_eq_true, if_false,
      if_true] at hset ⊢
    omega

/-- Where a lookup waits, its load has something to do if the lookup has. -/
theorem Sound.load_finds (hs : x.Sound) {k r n : Nat} {e : Entity} {goal : Goal}
    (hl : x.lookups[k]? = some { inquiry := .seeks e goal, resolve := some r })
    (hn : x.resolves.stageOf? r = some (.waiting n))
    (h : x.canPoll k = true ∨ x.isLeading k = true) :
    x.loadCanRun n = true ∨ x.accounts.isLeading n = true := by
  have hload : x.loadOf? k = some n := loadOf?_eq_some.2 ⟨_, r, hl, rfl, hn⟩
  refine h.imp (fun h => ?_) fun h => ?_
  · unfold canPoll at h
    rw [hl] at h
    simpa [hload] using h
  · have hwork := hs.work_of_lt (hs.lt_of_awaited hn)
    unfold isLeading at h
    rwa [hload, Option.bind_some, hwork] at h

/-- When a lookup moves its resolve, it takes from the effort, and it takes something if it had
something to do. -/
theorem Attending.effort_pursue (hx : Attending record g inquiries x) (hrested : x.Rested)
    (hends : ∀ i ∈ inquiries, i.Ends g.client (foundBy record))
    (respond : Respondent (ν × List (Nat × Ask))) {k : Nat} {e : Entity} {goal : Goal}
    {resolve : Option Nat} (hl : x.lookups[k]? = some { inquiry := .seeks e goal, resolve }) :
    (x.pursue respond k e goal resolve).effort g.client (foundBy record) +
      (if x.canPoll k || x.isLeading k then 1 else 0) ≤ x.effort g.client (foundBy record) := by
  have hk : k < inquiries.length := hx.length ▸ (List.getElem?_eq_some_iff.1 hl).1
  have hcourse := hx.courses k _ _ (List.getElem?_eq_getElem hk) hl
  have hmem := List.getElem_mem hk
  generalize inquiries[k] = i at hcourse hmem
  obtain ⟨n, hn, -⟩ := hcourse.passed
  obtain ⟨key, rfl, -⟩ := (hx.filled i hmem).iterate n e goal hn.symm
  have hleft : (Inquiry.seeks (.account key) goal).Ends g.client (foundBy record) := by
    have hi := (hends i hmem).iterate n
    rwa [← hn] at hi
  cases resolve with
  | none =>
    -- a new resolve begins a load at most
    have hseek := hx.seek hmem ⟨n, goal, hn.symm⟩
    have hon := hseek.sound.attend_onward respond x.resolves.resolves.length
    have hr : ((x.seek (.account key)).attend respond x.resolves.resolves.length).sought[
        x.resolves.resolves.length]? = some (.account key) := by
      rw [hon.sought]
      simp [Context.seek, ← hx.sound.soughtLength]
    have hgoOn := (hseek.attend respond x.resolves.resolves.length).effort_goOn (hon.lookups ▸ hl)
      hr hleft
    have heffort := effort_of_lookups g.client (foundBy record) (x := x) hon.lookups
    have hattend := hseek.sound.workload_attend respond x.resolves.resolves.length
    have henter : ((x.seek (.account key)).enter x.resolves.resolves.length).workload ≤
        x.workload + 6 := hseek.sound.workload_enter _
    have hbusy : (if x.canPoll k || x.isLeading k then 1 else 0) ≤ 1 := by split <;> simp
    rw [if_neg (by simp : ¬ (none : Option Nat).isSome = true)] at hgoOn
    rw [Context.pursue, Option.getD_none, if_neg (by simp)]
    omega
  | some r =>
    obtain ⟨m, hm⟩ := hrested.waits hl rfl rfl
    have hon := hx.sound.attend_onward respond r
    have hr : (x.attend respond r).sought[r]? = some (.account key) :=
      hon.sought ▸ hcourse.sought r _ goal rfl rfl
    have hgoOn := (hx.attend respond r).effort_goOn (hon.lookups ▸ hl) hr hleft
    have heffort := effort_of_lookups g.client (foundBy record) hon.lookups
    obtain ⟨hle, hless⟩ := hx.sound.workload_attend_of_waiting respond hm
    rw [if_pos (by simp : (some r).isSome = true)] at hgoOn
    rw [Context.pursue, Option.getD_some, if_pos (by simp)]
    by_cases hbusy : (x.canPoll k || x.isLeading k) = true
    · rw [if_pos hbusy]
      have hload := hx.sound.load_finds hl hm (Bool.or_eq_true _ _ ▸ hbusy)
      cases ho : (x.attend respond r).outcome? r with
      | none =>
        have hlt := hless hload ho
        omega
      | some loaded =>
        rw [ho, if_pos (by simp : (some loaded).isSome = true)] at hgoOn
        omega
    · rw [if_neg hbusy]
      omega

/-- Only a lookup that seeks something and was not given up has something to do. -/
theorem Attending.seeks_of_finds (hx : Attending record g inquiries x) (hrested : x.Rested) {k : Nat}
    (h : (x.canPoll k || x.isLeading k) = true) :
    ∃ e goal resolve, x.lookups[k]? = some { inquiry := .seeks e goal, resolve } := by
  rcases Bool.or_eq_true _ _ ▸ h with h | h
  · unfold canPoll at h
    split at h
    · next e goal resolve hl => exact ⟨e, goal, resolve, hl⟩
    · cases h
  · unfold isLeading at h
    cases hload : x.loadOf? k with
    | none => simp [hload] at h
    | some n =>
      obtain ⟨⟨inquiry, resolve, dropped⟩, r, hl, hr, -⟩ := loadOf?_eq_some.1 hload
      have hk : k < inquiries.length := hx.length ▸ (List.getElem?_eq_some_iff.1 hl).1
      obtain rfl : dropped = false := (hx.courses k _ _ (List.getElem?_eq_getElem hk) hl).kept
      obtain ⟨e, goal, rfl⟩ : ∃ e goal, inquiry = .seeks e goal :=
        (hrested.owned.lookup _ (List.mem_of_getElem? hl)).seeks r hr
      exact ⟨e, goal, resolve, hl⟩

theorem Attending.effort_pollUpTo (hx : Attending record g inquiries x) (hrested : x.Rested)
    (hends : ∀ i ∈ inquiries, i.Ends g.client (foundBy record))
    (respond : Respondent (ν × List (Nat × Ask))) (fuel k : Nat) :
    (pollUpTo respond fuel x k).effort g.client (foundBy record) ≤
      x.effort g.client (foundBy record) := by
  have hkeeps : Attending record g inquiries (pollUpTo respond fuel x k) ∧
      (pollUpTo respond fuel x k).Rested ∧ (pollUpTo respond fuel x k).effort g.client
        (foundBy record) ≤ x.effort g.client (foundBy record) :=
    pollUpTo_keeps (P := fun y => Attending record g inquiries y ∧ y.Rested ∧
      y.effort g.client (foundBy record) ≤ x.effort g.client (foundBy record))
      (fun y e goal resolve ⟨hy, hrest, hle⟩ hl => ⟨hy.pursue respond hl, hrest.pursue respond hl,
        Nat.le_trans (Nat.le_trans (Nat.le_add_right _ _)
          (hy.effort_pursue hrest hends respond hl)) hle⟩)
      fuel ⟨hx, hrested, Nat.le_refl _⟩
  exact hkeeps.2.2

/-- A turn of a lookup that has something to do takes from the effort. -/
theorem Attending.effort_poll (hx : Attending record g inquiries x) (hrested : x.Rested)
    (hends : ∀ i ∈ inquiries, i.Ends g.client (foundBy record))
    (respond : Respondent (ν × List (Nat × Ask))) (k : Nat) :
    (x.poll respond k).effort g.client (foundBy record) +
      (if x.canPoll k || x.isLeading k then 1 else 0) ≤ x.effort g.client (foundBy record) := by
  have hpolled := hrested.pollUpTo respond (x.scope.entries.length + 2) k
  unfold Context.poll
  rw [hpolled.sound.sweep_eq]
  by_cases hbusy : (x.canPoll k || x.isLeading k) = true
  · obtain ⟨e, goal, resolve, hl⟩ := hx.seeks_of_finds hrested hbusy
    have hfirst := hx.effort_pursue hrested hends respond hl
    rcases pollUpTo_pursue respond (x.scope.entries.length + 1) hl with h | h
    · rwa [h]
    · have hrest := (hx.pursue respond hl).effort_pollUpTo (hrested.pursue respond hl) hends respond
        (x.scope.entries.length + 1) k
      rw [h]
      exact Nat.le_trans (Nat.add_le_add_right hrest _) hfirst
  · rw [if_neg hbusy]
    exact hx.effort_pollUpTo hrested hends respond _ k

/-! ### Runs -/

/-- Whether an event finds something to do. -/
def finds (x : Context ν) : Event → Bool
  | .poll k => x.canPoll k || x.isLeading k
  | .runTalk t => (x.talks[t]?).any Talk.canRun && x.isTask t
  | .deliver t _ => (x.talks[t]?).any Talk.isUnanswered
  | _ => false

/-- The events of a run that found something to do. -/
def moves (respond : Respondent ν) (x : Context ν) (events : List Event) : List Event :=
  observed (apply respond) (fun x e => if x.finds e then [e] else []) x events

/-- If no event finds anything to do, nothing can go on and the node has answered everything. -/
theorem isSettled_of_finds {x : Context ν} (h : ∀ e, x.finds e = false) :
    x.isSettled = true ∧ x.isAnswered = true := by
  refine ⟨?_, List.all_eq_true.2 fun talk ht => ?_⟩
  · unfold isSettled
    rw [Bool.and_eq_true, List.all_eq_true, List.all_eq_true]
    refine ⟨fun k _ => ?_, fun p hp => ?_⟩
    · simpa [finds] using h (.poll k)
    · have hrun := h (.runTalk p.2)
      rw [finds, List.mem_zipIdx_iff_getElem?.1 hp, Option.any_some] at hrun
      rw [hrun]
      rfl
  · obtain ⟨t, ht⟩ := List.getElem?_of_mem ht
    have hanswered := h (.deliver t (.ok []))
    rw [finds, ht, Option.any_some] at hanswered
    split
    · cases hanswered
    · rfl

/-- An event that starts nothing takes from the effort if it finds something to do. -/
theorem Attending.effort_apply (hx : Attending record g inquiries x) (hrested : x.Rested)
    (hends : ∀ i ∈ inquiries, i.Ends g.client (foundBy record)) (respond : Respondent ν) {e : Event}
    (hstart : e.started? = none) (hlasting : e.isLasting = true) :
    (x.apply respond.logged e).effort g.client (foundBy record) + (if x.finds e then 1 else 0) ≤
      x.effort g.client (foundBy record) := by
  cases e with
  | start i => simp [Event.started?] at hstart
  | poll k => exact hx.effort_poll hrested hends respond.logged k
  | drop k => simp [Event.isLasting] at hlasting
  | runTalk t =>
    have hwork := hx.wired.workload_runTalk respond t
    have heffort := effort_of_lookups g.client (foundBy record)
      (runTalk_leaves respond.logged x t).lookups
    have hfinds : x.finds (.runTalk t) = (x.talks[t]?).any Talk.canRun := by
      rw [finds, hx.sound.isTask t, Bool.and_true]
    have happly : x.apply respond.logged (.runTalk t) = x.runTalk respond.logged t :=
      if_pos (hx.sound.isTask t)
    rw [hfinds, happly]
    omega
  | deliver t answer =>
    have hwork := x.workload_deliver t answer
    have heffort := effort_of_lookups g.client (foundBy record) (deliver_leaves x t answer).lookups
    unfold Context.apply finds
    dsimp only
    omega
  | teardown => simp [Event.isLasting] at hlasting

/-- Where all inquiries come to an end, every event that finds something to do takes from an effort
that is given by what they pass. -/
theorem Inquires.effort_after {respond : Respondent ν} {node : ν} {events : List Event}
    (h : Inquires record respond g node events inquiries)
    (hfilled : ∀ i ∈ inquiries, i.Filled g.client)
    (hends : ∀ i ∈ inquiries, i.Ends g.client (foundBy record)) :
    (moves respond.logged (ofGraph g (node, [])) events).length +
      ((ofGraph g (node, [])).after respond.logged events).effort g.client (foundBy record) ≤
      8 * (inquiries.map (Inquiry.left g.client (foundBy record))).sum := by
  induction events using List.reverseRecOn generalizing inquiries with
  | nil =>
    obtain rfl : [] = inquiries := h.started
    exact Nat.le_refl _
  | append_singleton events e ih =>
    rw [after_concat, moves, observed_concat, List.length_append]
    have hlasting := h.lasting e (by simp)
    rcases h.of_concat with ⟨hnone, hrest⟩ | ⟨before, i, rfl, rfl, hrest⟩
    · have hbefore := ih hrest hfilled hends
      have hstep := (hrest.attending hfilled).effort_apply (hrest.rested hfilled) hends respond hnone
        hlasting
      show (moves _ _ _).length + (if Context.finds (Context.after _ _ _) e then [e] else []).length +
        _ ≤ _
      split
      · next hfinds =>
        rw [if_pos hfinds] at hstep
        rw [List.length_singleton]
        omega
      · next hidle =>
        rw [if_neg hidle] at hstep
        rw [List.length_nil]
        omega
    · have hbefore := ih hrest (fun j hj => hfilled j (List.mem_append_left _ hj))
        fun j hj => hends j (List.mem_append_left _ hj)
      have hstep := effort_start g.client (foundBy record)
        ((ofGraph g (node, [])).after respond.logged events) i
      rw [List.map_append, List.sum_append, List.map_singleton, List.sum_singleton]
      show (moves _ _ _).length + 0 + (Context.start _ i).effort _ _ ≤ _
      omega

end Context

end NodeRpc
