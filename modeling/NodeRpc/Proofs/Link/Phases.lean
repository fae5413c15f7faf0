import NodeRpc.Proofs.Link.Deliveries
import NodeRpc.Proofs.Link.Exchanges

/-!
# How far streams come

Nothing but a poll of a stream, or its end on this side, changes how far it has come
(`phase_apply`); the end of a stream cancels its token. So a stream that has been neither polled nor
cancelled is as far as it was, and one that is closed stays so.
-/

namespace NodeRpc.Link

variable {l : Link}

/-- How far the stream `handle` has come. -/
def phase? (l : Link) (handle : Nat) : Option Phase := (l.streams.get? handle).map Stream.phase

/-- A change that does not show in `f` does not show in what `f` sees of the streams. -/
theorem map_update {α : Type} {f : Stream → α} {g : Stream → Stream} (hg : ∀ s, f (g s) = f s)
    (streams : Table Nat Stream) (handle h : Nat) :
    ((streams.update handle g).get? h).map f = (streams.get? h).map f := by
  rw [Table.get?_update]
  split
  · simp [Function.comp_def, hg]
  · rfl

theorem streams_answer (l : Link) (i : Nat) (o : Outcome) : (l.answer i o).streams = l.streams := by
  unfold answer
  split
  next o' l' heq =>
  split at heq
  · unfold confirmed at heq
    split at heq
    · obtain ⟨_, rfl⟩ := Prod.mk.inj heq
      rfl
    · split at heq
      · obtain ⟨_, rfl⟩ := Prod.mk.inj heq
        rfl
      · split at heq <;> obtain ⟨_, rfl⟩ := Prod.mk.inj heq
        · rfl
        · dsimp only
          rw [sayFarewell_frame]
  · obtain ⟨_, rfl⟩ := Prod.mk.inj heq
    rfl

theorem streams_answerAll (as : List (Nat × Outcome)) (l : Link) :
    (l.answerAll as).streams = l.streams := by
  induction as generalizing l with
  | nil => rfl
  | cons a as ih => exact (ih _).trans (l.streams_answer a.1 a.2)

/-- A stream that is closed has its token cancelled, and its phase says so. -/
theorem phase?_closeStream (l : Link) (handle : Nat) (telling : Bool) (h : Nat) :
    (l.closeStream handle telling).phase? h = l.phase? h ∨
      (l.closeStream handle telling).phase? h = some .closed ∧
        (l.closeStream handle telling).calls.isCancelled (.stream h) = true := by
  by_cases hdone : ∀ s, l.streams.get? handle = some s → s.phase = .closed
  · rw [l.closeStream_of_closed handle telling hdone]
    exact .inl rfl
  · push Not at hdone
    obtain ⟨s, hs, hp⟩ := hdone
    have hphase : (l.closeStream handle telling).phase? h =
        if handle = h then some .closed else l.phase? h := by
      rw [l.closeStream_frame handle telling hs hp]
      unfold phase?
      dsimp only
      rw [Table.get?_put]
      split <;> rfl
    have hcancelled : (l.closeStream handle telling).calls.isCancelled (.stream handle) = true := by
      have hcancel : (l.calls.cancel (.stream handle)).isCancelled (.stream handle) = true := by
        simp [Calls.cancel, Calls.isCancelled]
      unfold closeStream
      rw [hs]
      simp only [hp, if_false]
      split
      · exact steady_sayFarewell (Calls.cancelled_stable _).steady hcancel _
      · exact hcancel
    rw [hphase]
    split
    · next he => exact .inr ⟨rfl, he ▸ hcancelled⟩
    · exact .inl rfl

/-- A poll of one stream is nothing to the others. -/
theorem streams_poll (l : Link) {handle other : Nat} (hne : handle ≠ other) :
    (l.poll handle).2.streams.get? other = l.streams.get? other := by
  have hset : ∀ s, (l.setStream handle s).streams.get? other = l.streams.get? other := fun s => by
    unfold setStream
    dsimp only
    rw [Table.get?_put, if_neg hne]
  have htake : ∀ s, (l.take handle s).2.streams.get? other = l.streams.get? other := by
    intro s
    unfold take
    split
    · exact hset _
    · split <;> exact hset _
  unfold poll
  split
  · rfl
  · split
    · rfl
    · split
      · exact (l.closeStream_spares handle true).streams other hne
      · split
        · exact hset _
        · split
          · rfl
          · exact hset _
          · exact htake _
          · exact htake _

/-- A turn of a call changes nothing of a stream but its confirmation. -/
theorem map_runExchange {α : Type} {f : Stream → α}
    (hf : ∀ s confirmation, f { s with confirmation } = f s) (l : Link) (k h : Nat) :
    ((l.runExchange k).streams.get? h).map f = (l.streams.get? h).map f := by
  have hopened : ∀ (l : Link) handle o,
      ((l.opened handle o).streams.get? h).map f = (l.streams.get? h).map f := by
    intro l handle o
    unfold opened
    dsimp only
    split
    · exact map_update (fun s => hf s _) _ handle h
    · refine (map_update (fun s => hf s _) _ handle h).trans ?_
      rw [sayFarewell_frame]
      rfl
  have hafter : ∀ l : Link,
      ((l.afterTurn k).streams.get? h).map f = (l.streams.get? h).map f := by
    intro l
    unfold afterTurn
    split
    · split
      · exact hopened l _ _
      · rfl
    · split <;> rfl
    · rfl
  refine (hafter _).trans ?_
  unfold setDeadline
  split <;> rfl

/-- A turn of a delivery changes nothing of a stream but its buffer. -/
theorem map_runDelivery {α : Type} {f : Stream → α}
    (hf : ∀ s buffer, f { s with buffer } = f s) (l : Link) (d h : Nat) :
    ((l.runDelivery d).streams.get? h).map f = (l.streams.get? h).map f := by
  have hdeliver : ∀ handle ahead value,
      ((l.deliver d handle ahead value).streams.get? h).map f = (l.streams.get? h).map f := by
    intro handle ahead value
    have henqueue : ((l.enqueue handle value).streams.get? h).map f =
        (l.streams.get? h).map f :=
      map_update (g := fun s => { s with buffer := s.buffer ++ [value] }) (fun s => hf s _) _
        handle h
    unfold deliver
    split
    · rfl
    · split
      · exact henqueue
      · split <;> rfl
  unfold runDelivery
  split
  · rfl
  · split
    · split
      · exact hdeliver _ _ _
      · rfl
    · exact hdeliver _ _ _
    · rfl

/-! ### What a stream keeps but for its subscribe call -/

section Kept

variable {α : Type} {f : Stream → α}
  (hf : ∀ s t : Stream, s.parent = t.parent → s.confirmation = t.confirmation → f s = f t)
include hf

theorem map_setStream {handle : Nat} {s t : Stream} (hs : l.streams.get? handle = some s)
    (hparent : t.parent = s.parent) (hconfirmation : t.confirmation = s.confirmation) (h : Nat) :
    ((l.setStream handle t).streams.get? h).map f = (l.streams.get? h).map f := by
  unfold setStream
  dsimp only
  rw [Table.get?_put]
  split
  · next heq =>
    rw [← heq, hs, Option.map_some, Option.map_some, hf t s hparent hconfirmation]
  · rfl

theorem map_closeStream (l : Link) (handle : Nat) (telling : Bool) (h : Nat) :
    ((l.closeStream handle telling).streams.get? h).map f = (l.streams.get? h).map f := by
  by_cases hdone : ∀ s, l.streams.get? handle = some s → s.phase = .closed
  · rw [l.closeStream_of_closed handle telling hdone]
  · push Not at hdone
    obtain ⟨s, hs, hp⟩ := hdone
    rw [l.closeStream_frame handle telling hs hp]
    exact map_setStream hf (t := { s with phase := .closed, receiving := false }) hs rfl rfl h

theorem map_poll (l : Link) (handle h : Nat) :
    ((l.poll handle).2.streams.get? h).map f = (l.streams.get? h).map f := by
  have htake : ∀ {s t : Stream}, l.streams.get? handle = some s → t.parent = s.parent →
      t.confirmation = s.confirmation →
      ((l.take handle t).2.streams.get? h).map f = (l.streams.get? h).map f := by
    intro s t hs hparent hconf
    unfold take
    split
    · next value buffer _ => exact map_setStream hf (t := { t with buffer }) hs hparent hconf h
    · split
      · exact map_setStream hf hs hparent hconf h
      · exact map_setStream hf (t := { t with phase := .closed }) hs hparent hconf h
  unfold poll
  split
  · rfl
  · next s hs =>
    split
    · rfl
    · split
      · exact map_closeStream hf l handle true h
      · split
        · exact map_setStream hf (t := { s with phase := .closed, receiving := false }) hs rfl rfl h
        · split
          · rfl
          · exact map_setStream hf (t := { s with phase := .closed }) hs rfl rfl h
          · next id _ _ => exact htake (t := { s with phase := .active id }) hs rfl rfl
          · exact htake hs rfl rfl

/-- The token of a stream never changes, and what its subscribe call came to only by a turn of a
call. -/
theorem map_apply {h : Nat} (hlt : h < l.subscriptions.nextHandle) {e : Event}
    (he : ∀ k, e ≠ .run (.exchange k)) :
    ((l.apply e).streams.get? h).map f = (l.streams.get? h).map f := by
  have hanswer : ∀ as, ((l.answerAll as).streams.get? h).map f = (l.streams.get? h).map f :=
    fun as => by rw [streams_answerAll]
  cases e with
  | act a =>
    cases a with
    | «open» request token =>
      have hstr := (l.open_eq request token).2
      unfold apply act
      dsimp only
      rw [hstr, Table.get?_put, if_neg (by omega)]
    | poll handle => exact map_poll hf l handle h
    | closeStream handle telling => exact map_closeStream hf l handle telling h
    | dropStream handle telling =>
      have hdrop : ((l.dropStream handle telling).streams.get? h).map f =
          ((l.closeStream handle telling).streams.get? h).map f :=
        map_update (g := fun s => { s with receiving := false, held := false })
          (fun s => hf _ _ rfl rfl) _ handle h
      exact hdrop.trans (map_closeStream hf l handle telling h)
    | cancel token =>
      unfold apply act
      dsimp only
      rw [cancel_frame]
    | _ => rfl
  | run t =>
    unfold apply run
    dsimp only
    split
    · cases t with
      | exchange k => exact absurd rfl (he k)
      | delivery d => exact map_runDelivery (fun s _ => hf _ _ rfl rfl) l d h
    · rfl
  | route r => exact hanswer _
  | routeBatch responses => exact hanswer _
  | reject error => exact hanswer _
  | _ => rfl

end Kept

/-! ### Phases -/

/-- Only a poll of a stream changes how far it has come, but for its end on this side. -/
theorem phase_apply {h : Nat} (hlt : h < l.subscriptions.nextHandle) {e : Event}
    (he : e ≠ .act (.poll h)) :
    (l.apply e).phase? h = l.phase? h ∨
      (l.apply e).phase? h = some .closed ∧ (l.apply e).calls.isCancelled (.stream h) = true := by
  have hanswer : ∀ as, (l.answerAll as).phase? h = l.phase? h := fun as => by
    rw [phase?, streams_answerAll, phase?]
  cases e with
  | act a =>
    cases a with
    | «open» request token =>
      refine .inl ?_
      have hstr := (l.open_eq request token).2
      unfold phase? apply act
      dsimp only
      rw [hstr, Table.get?_put, if_neg (by omega)]
    | poll handle =>
      refine .inl ?_
      have hne : handle ≠ h := fun heq => he (heq ▸ rfl)
      exact congrArg _ (l.streams_poll hne)
    | closeStream handle telling => exact l.phase?_closeStream handle telling h
    | dropStream handle telling =>
      have hdrop : (l.dropStream handle telling).phase? h =
          (l.closeStream handle telling).phase? h :=
        map_update (g := fun s => { s with receiving := false, held := false }) (fun _ => rfl) _
          handle h
      exact (l.phase?_closeStream handle telling h).imp hdrop.trans (.imp_left hdrop.trans)
    | cancel token =>
      refine .inl ?_
      unfold phase? apply act
      dsimp only
      rw [cancel_frame]
    | _ => exact .inl rfl
  | run t =>
    refine .inl ?_
    unfold apply run
    dsimp only
    split
    · cases t with
      | exchange k => exact map_runExchange (fun _ _ => rfl) l k h
      | delivery d => exact map_runDelivery (fun _ _ => rfl) l d h
    · rfl
  | route r => exact .inl (hanswer _)
  | routeBatch responses => exact .inl (hanswer _)
  | reject error => exact .inl (hanswer _)
  | _ => exact .inl rfl

/-! ### Streams that are closed -/

theorem poll_of_closed {h : Nat} (hp : l.phase? h = some .closed) : l.poll h = (.ended, l) := by
  obtain ⟨s, hs, hphase⟩ := Option.map_eq_some_iff.1 hp
  unfold poll
  rw [hs]
  simp [hphase]

/-- A stream that has not ended fails when it is polled after the end of its connection. -/
theorem poll_of_lost {h : Nat} {p : Phase} (hp : l.phase? h = some p) (hopen : p ≠ .closed)
    (hfree : l.calls.isCancelled (.stream h) = false) (hlost : l.subscriptions.closed = true) :
    (l.poll h).1 = .failed .transportClosed ∧ (l.poll h).2.phase? h = some .closed := by
  obtain ⟨s, hs, rfl⟩ := Option.map_eq_some_iff.1 hp
  unfold poll
  rw [hs]
  dsimp only
  rw [if_neg hopen, if_neg (by simp [hfree]), if_pos hlost]
  exact ⟨rfl, by simp [phase?, setStream, Table.get?_put]⟩

/-- A stream that is closed stays closed. -/
theorem phase_closed_apply {h : Nat} (hlt : h < l.subscriptions.nextHandle)
    (hp : l.phase? h = some .closed) (e : Event) : (l.apply e).phase? h = some .closed := by
  by_cases he : e = .act (.poll h)
  · have hpoll := congrArg (fun r => r.2.phase? h) (poll_of_closed hp)
    rw [he]
    exact hpoll.trans hp
  · rcases phase_apply hlt he with hsame | ⟨hclosed, _⟩
    · rw [hsame, hp]
    · exact hclosed

/-! ### Runs -/

theorem nextHandle_le_after (l : Link) (events : List Event) :
    l.subscriptions.nextHandle ≤ (l.after events).subscriptions.nextHandle := by
  induction events using List.reverseRecOn with
  | nil => exact Nat.le_refl _
  | append_singleton events e ih =>
    rw [after_concat]
    exact Nat.le_trans ih (onward_apply _ e).next

/-- A stream that was neither polled nor cancelled is as far as it was. -/
theorem phase_after {h : Nat} (hlt : h < l.subscriptions.nextHandle) {events : List Event}
    (hpolls : .act (.poll h) ∉ events)
    (hfree : (l.after events).calls.isCancelled (.stream h) = false) :
    (l.after events).phase? h = l.phase? h := by
  induction events using List.reverseRecOn with
  | nil => rfl
  | append_singleton events e ih =>
    rw [List.mem_append, List.mem_singleton, not_or] at hpolls
    rw [after_concat] at hfree ⊢
    have hold : (l.after events).calls.isCancelled (.stream h) = false := by
      cases hc : (l.after events).calls.isCancelled (.stream h) with
      | false => rfl
      | true =>
        have hstays := stable_apply (Calls.cancelled_stable (.stream h)) hc e
        simp [hstays] at hfree
    have hlt' := Nat.lt_of_lt_of_le hlt (l.nextHandle_le_after events)
    rcases phase_apply hlt' (Ne.symm hpolls.2) with hsame | ⟨_, hc⟩
    · exact hsame.trans (ih hpolls.1 hold)
    · simp [hc] at hfree

theorem phase_closed_after {h : Nat} (hlt : h < l.subscriptions.nextHandle)
    (hp : l.phase? h = some .closed) (events : List Event) :
    (l.after events).phase? h = some .closed := by
  induction events using List.reverseRecOn with
  | nil => exact hp
  | append_singleton events e ih =>
    rw [after_concat]
    exact phase_closed_apply (Nat.lt_of_lt_of_le hlt (l.nextHandle_le_after events)) ih e

end NodeRpc.Link
