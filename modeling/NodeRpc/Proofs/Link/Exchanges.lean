import NodeRpc.Proofs.Calls.Bookkeeping
import NodeRpc.Proofs.Link.OwnIds

/-!
# What a link does to its calls

Everything that happens at the client's end of a connection, the closing of a subscription that is
given up after its ten seconds included, happens to the calls as a row of events and of single
answers. So a property that each of these keeps is kept by every event of a link (`stable_apply`),
and the table of pending calls of a link is as accurate as that of its calls. A property that only
the turns of one exchange and its end can break is kept by everything else (`steady_apply`).
-/

namespace NodeRpc

/-- A property of calls that every event and every single answer keeps. -/
structure Calls.Stable (P : Calls → Prop) : Prop where
  apply : ∀ (c : Calls) (e : Calls.Event), P c → P (c.apply e)
  answer : ∀ (c : Calls) (i : Nat) (o : Outcome), P c → P (c.answer i o)

/-- A property of calls that all this keeps, but for the turns and the end of exchange `k?`. -/
structure Calls.Steady (k? : Option Nat) (P : Calls → Prop) : Prop where
  apply : ∀ (c : Calls) (e : Calls.Event), (∀ k ∈ k?, e ≠ .run k ∧ e ≠ .drop k) → P c →
    P (c.apply e)
  answer : ∀ (c : Calls) (i : Nat) (o : Outcome), P c → P (c.answer i o)

theorem Calls.Stable.steady {P : Calls → Prop} (hP : Stable P) : Steady none P :=
  ⟨fun c e _ h => hP.apply c e h, hP.answer⟩

namespace Calls

theorem kept_stable : Stable Kept :=
  ⟨fun _ e h => h.apply e, fun _ i o h => h.answer i o⟩

theorem closed_stable : Stable fun c => c.closed = true where
  apply c e h := (closed_apply c e).2 (.inl h)
  answer c i o h := by rwa [answer_frame]

/-- Frames are written behind those that were written before. -/
theorem written_stable (frames : List Outgoing) : Stable fun c => frames <+: c.written where
  apply c e h := h.trans (written_within_apply c e)
  answer c i o h := by rwa [answer_frame]

/-- Nothing more is written on a closed connection. -/
theorem silent_stable (frames : List Outgoing) :
    Stable fun c => c.closed = true ∧ c.written = frames where
  apply c e h := ⟨(closed_apply c e).2 (.inl h.1), (written_apply_of_closed h.1 e).trans h.2⟩
  answer c i o h := by rwa [answer_frame]

/-- What is over stays as it is. -/
theorem over_stable (k : Nat) {x : Exchange} (hover : x.isLive = false) :
    Stable fun c => c.Valid ∧ c.exchanges[k]? = some x where
  apply c e h := ⟨valid_apply h.1 e, apply_of_over h.1 h.2 hover e⟩
  answer c i o h := by
    refine ⟨h.1.answer i o, answer_of_not_underWay h.1 h.2 ?_ i o⟩
    cases hs : x.stage <;> simp_all [Exchange.isUnderWay, Exchange.isLive]

/-- A cancellation is final. -/
theorem cancelled_stable (t : Token) : Stable fun c => c.isCancelled t = true where
  apply c e h := (isCancelled_apply c e t).2 (.inl h)
  answer c i o h := by
    unfold isCancelled at h ⊢
    rwa [answer_frame]

end Calls

namespace Link

variable {l : Link} {P : Calls → Prop}

section Steady

variable {k? : Option Nat} (hP : Calls.Steady k? P)
include hP

theorem steady_sayFarewell (h : P l.calls) (farewell : Option (SubscriptionId × String)) :
    P (l.sayFarewell farewell).calls := by
  unfold sayFarewell
  split
  · next id method =>
    split
    · exact h
    · exact hP.apply l.calls (.call ⟨method, .arr [id.toJson]⟩ .unshared) (by simp) h
  · exact h

theorem steady_closeStream (h : P l.calls) (handle : Nat) (telling : Bool) :
    P (l.closeStream handle telling).calls := by
  have hcancel := hP.apply l.calls (.cancel (.stream handle)) (by simp) h
  unfold closeStream
  split
  · exact h
  · split
    · exact h
    · dsimp only
      split
      · exact steady_sayFarewell hP hcancel _
      · exact hcancel

theorem steady_poll (h : P l.calls) (handle : Nat) : P (l.poll handle).2.calls := by
  have htake : ∀ s, P (l.take handle s).2.calls := fun s => by
    rw [take_frame]
    exact h
  unfold poll
  split
  · exact h
  · split
    · exact h
    · split
      · exact steady_closeStream hP h handle true
      · split
        · exact h
        · split
          · exact h
          · exact h
          · exact htake _
          · exact htake _

theorem steady_cancel (h : P l.calls) (t : Token) : P (l.cancel t).calls := by
  have hstreams : ∀ (handles : List Nat) (l : Link), P l.calls →
      P (handles.foldl cancelStream l).calls := by
    intro handles
    induction handles with
    | nil => exact fun _ h => h
    | cons handle handles ih =>
      exact fun l h => ih _ (hP.apply l.calls (.cancel (.stream handle)) (by simp) h)
  exact hP.apply _ (.cancel t) (by simp) (hstreams (l.below t) l h)

theorem steady_open (h : P l.calls) (request : SubscriptionRequest) (parent : Token) :
    P (l.open request parent).calls := by
  have hcancel := hP.apply l.calls (.cancel (.stream l.subscriptions.nextHandle)) (by simp) h
  have hmake : ∀ c, P c → P (c.make [⟨request.names.subscribe, request.params⟩] false
      (.stream l.subscriptions.nextHandle)) := fun c hc => hP.apply c (.call _ _) (by simp) hc
  unfold «open»
  dsimp only
  split <;> split
  · exact hcancel
  · exact hmake _ hcancel
  · exact h
  · exact hmake _ h

theorem steady_answer (h : P l.calls) (i : Nat) (o : Outcome) : P (l.answer i o).calls := by
  have hconfirmed : ∀ handle u, P (l.confirmed handle u o).2.calls := by
    intro handle u
    unfold confirmed
    split
    · exact h
    · split
      · exact h
      · split
        · exact h
        · exact steady_sayFarewell hP h _
  unfold answer
  split
  next o' l' heq =>
  refine hP.answer l'.calls i o' ?_
  split at heq
  · next handle u _ =>
    have hl := hconfirmed handle u
    rwa [heq] at hl
  · obtain ⟨_, rfl⟩ := Prod.mk.inj heq
    exact h

theorem steady_answerAll (as : List (Nat × Outcome)) (h : P l.calls) :
    P (l.answerAll as).calls := by
  induction as generalizing l with
  | nil => exact h
  | cons a as ih => exact ih (steady_answer hP h a.1 a.2)

theorem steady_opened (h : P l.calls) (handle : Nat) (o : Outcome) :
    P (l.opened handle o).calls := by
  unfold opened
  dsimp only
  split
  · exact h
  · exact steady_sayFarewell hP (l := (l.release handle).2) h _

theorem steady_runExchange (h : P l.calls) {k : Nat} (hk : ∀ j ∈ k?, k ≠ j) :
    P (l.runExchange k).calls := by
  have hdeadline : P (l.setDeadline k).calls := by
    unfold setDeadline
    split <;> exact h
  have hafter : ∀ l : Link, P l.calls → P (l.afterTurn k).calls := by
    intro l hl
    unfold afterTurn
    split
    · split
      · exact steady_opened hP hl _ _
      · exact hl
    · split
      · exact hP.apply l.calls (.drop k) (by simpa using hk) hl
      · exact hl
    · exact hl
  exact hafter _ (hP.apply _ (.run k) (by simpa using hk) hdeadline)

/-- What all events and answers but those of one exchange keep of calls, every event of their link
keeps that is not about that exchange. -/
theorem steady_apply (h : P l.calls) {e : Event}
    (he : ∀ k ∈ k?, e ≠ .run (.exchange k) ∧ e ≠ .act (.drop k)) : P (l.apply e).calls := by
  cases e with
  | act a =>
    cases a with
    | call call token => exact hP.apply l.calls (.call call token) (by simp) h
    | batch calls token => exact hP.apply l.calls (.batch calls token) (by simp) h
    | «open» request token => exact steady_open hP h request token
    | poll handle => exact steady_poll hP h handle
    | closeStream handle telling => exact steady_closeStream hP h handle telling
    | dropStream handle telling => exact steady_closeStream hP h handle telling
    | cancel token => exact steady_cancel hP h token
    | drop k => exact hP.apply l.calls (.drop k) (by simpa using he) h
    | advance ms => exact h
  | release handle => exact h
  | unsubscribe id method =>
    exact hP.apply l.calls (.call ⟨method, .arr [id.toJson]⟩ .unshared) (by simp) h
  | run t =>
    unfold apply run
    dsimp only
    split
    · cases t with
      | exchange k => exact steady_runExchange hP h (by simpa using he)
      | delivery d =>
        dsimp only
        rw [runDelivery_frame]
        exact h
    · exact h
  | route r => exact steady_answerAll hP _ h
  | routeBatch responses => exact steady_answerAll hP _ h
  | reject error => exact steady_answerAll hP _ h
  | closeCalls => exact hP.apply l.calls .close (by simp) h
  | closeSubscriptions => exact h
  | sink sink => exact hP.apply l.calls (.sink sink) (by simp) h
  | resume k reply => exact hP.apply l.calls (.resume k reply) (by simp) h
  | dispatch n => exact h
  | dropDelivery d => exact h

end Steady

section Stable

variable (hP : Calls.Stable P)
include hP

/-- What events and answers keep of calls, every event of their link keeps. -/
theorem stable_apply (h : P l.calls) (e : Event) : P (l.apply e).calls :=
  steady_apply hP.steady h (by simp)

theorem stable_after (h : P l.calls) (events : List Event) : P (l.after events).calls := by
  induction events using List.reverseRecOn with
  | nil => exact h
  | append_singleton events e ih =>
    rw [after_concat]
    exact stable_apply hP ih e

end Stable

/-- At all times the table of pending calls says exactly which calls are out: an id in it is an
unanswered one of one live exchange, and no exchange that has come to a result or was given up has
one. No id is written twice. Once the connection is closed it stays so, and the table is empty. -/
theorem table_accurate (buffer : Nat) (policy : Backpressure) (events more : List Event) :
    ((ofOptions buffer policy).after events).calls.Accurate ∧
    ((ofOptions buffer policy).after events).calls.written <+:
      ((ofOptions buffer policy).after (events ++ more)).calls.written ∧
    (((ofOptions buffer policy).after events).calls.closed = true →
      ((ofOptions buffer policy).after (events ++ more)).calls.closed = true) := by
  have hkept : ((ofOptions buffer policy).after events).calls.Kept :=
    stable_after Calls.kept_stable Calls.kept_empty events
  rw [after_append]
  exact ⟨hkept.accurate, stable_after (Calls.written_stable _) List.prefix_rfl more,
    fun hclosed => stable_after Calls.closed_stable hclosed more⟩

/-- A call that closes a subscription is written and given up ten seconds later. Its id is pending
in between, and never afterwards. -/
example :
    let ask : List Event := [.unsubscribe (.number 7) "slotUnsubscribe", .run (.exchange 0)]
    let wait : List Event := [.act (.advance 10000), .run (.exchange 0)]
    ((ofOptions 1 .pauseReads).after ask).calls.pending.keys = [1] ∧
      ((ofOptions 1 .pauseReads).after (ask ++ wait)).calls.pending.keys = [] := by
  decide

end Link

end NodeRpc
