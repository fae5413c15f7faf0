import NodeRpc.Proofs.Link.Confirmations

/-!
# A handle with an id of its own keeps its route

The route of an id is taken from a handle when another handle is confirmed under that id, or when
one that was is released. As long as neither happens, the route leads to the handle: `leads_apply`
shows it for every event. What an event that answers nothing and does not end the connection makes
of the subscriptions is one of three things, `Moved`; an answer confirms one handle at most.
-/

namespace NodeRpc

namespace Subscriptions

/-- No other handle is confirmed under the id of this one. -/
def Sole (s : Subscriptions) (h : Nat) : Prop :=
  ∀ id, s.serverId? h = some id → ∀ other, other ≠ h → s.serverId? other ≠ some id

/-- The route of the id of a handle leads to it. -/
def Leads (s : Subscriptions) (h : Nat) : Prop :=
  ∀ id, s.serverId? h = some id → s.routes.get? id = some h

/-- What becomes of subscriptions where nothing is answered and the connection goes on. -/
inductive Moved (s : Subscriptions) : Subscriptions → Prop where
  | same : Moved s s
  | registered (names : SubscriptionNames) : Moved s (s.register names)
  | released (handle : Nat) : Moved s (s.release handle)

theorem Moved.closed_eq {s s' : Subscriptions} (h : s.Moved s') : s'.closed = s.closed := by
  cases h with
  | registered names => exact s.closed_register names
  | _ => rfl

theorem Leads.moved {s s' : Subscriptions} {h : Nat} (hl : s.Leads h) (hsole : s.Sole h)
    (hm : s.Moved s') : s'.Leads h := by
  intro id hid
  cases hm with
  | same => exact hl id hid
  | registered names =>
    have hroutes := s.routes_register names
    rw [serverId?_register] at hid
    split at hid
    · simp at hid
    · rw [hroutes]
      exact hl id hid
  | released handle =>
    rw [serverId?_release] at hid
    split at hid
    · simp at hid
    · next hne =>
      rw [routes_release, if_neg (hsole id hid handle hne), hl id hid]

theorem leads_close (s : Subscriptions) (h : Nat) : s.close.Leads h := fun id hid => by
  simp [close, serverId?, Table.get?] at hid

end Subscriptions

namespace Link

variable {l : Link}

/-- What an answer makes of the subscriptions: at most, it confirms the handle whose subscribe call
it answers. -/
theorem subscriptions_answer (l : Link) (i : Nat) (o : Outcome) :
    (l.answer i o).subscriptions = l.subscriptions ∨
    ∃ (entry : Entry) (handle : Nat) (u : String) (id : SubscriptionId),
      l.calls.pending.get? i = some entry ∧ l.roles[entry.exchange]? = some (.opening handle u) ∧
      l.subscriptions.isOpen handle = true ∧
      (l.answer i o).subscriptions = l.subscriptions.confirm handle id := by
  unfold answer
  split
  next o' l' heq =>
  split at heq
  · next handle unsubscribe hrole =>
    unfold confirmed at heq
    split at heq
    · obtain ⟨_, rfl⟩ := Prod.mk.inj heq
      exact .inl rfl
    · split at heq
      · obtain ⟨_, rfl⟩ := Prod.mk.inj heq
        exact .inl rfl
      · next id _ =>
        split at heq
        · next ho =>
          obtain ⟨_, rfl⟩ := Prod.mk.inj heq
          obtain ⟨entry, hp, hk⟩ := subscribing_of_roleOf hrole
          exact .inr ⟨entry, handle, unsubscribe, id, hp, hk, ho, rfl⟩
        · obtain ⟨_, rfl⟩ := Prod.mk.inj heq
          exact .inl (by rw [sayFarewell_frame])
  · obtain ⟨_, rfl⟩ := Prod.mk.inj heq
    exact .inl rfl

/-- A handle is confirmed once. -/
theorem Tied.serverId?_answer (ht : l.Tied) (i : Nat) (o : Outcome) {h : Nat} {id : SubscriptionId}
    (hid : l.subscriptions.serverId? h = some id) :
    (l.answer i o).subscriptions.serverId? h = some id := by
  rcases l.subscriptions_answer i o with hs | ⟨entry, handle, u, id', hp, hk, ho, hs⟩
  · rw [hs, hid]
  · have hnone := ht.unanswered i handle u entry hp hk
    rw [hs, Subscriptions.serverId?_confirm ho, if_neg, hid]
    rintro rfl
    rw [hid] at hnone
    simp at hnone

theorem Tied.serverId?_answerAll (as : List (Nat × Outcome)) (ht : l.Tied) {h : Nat}
    {id : SubscriptionId} (hid : l.subscriptions.serverId? h = some id) :
    (l.answerAll as).subscriptions.serverId? h = some id := by
  induction as generalizing l with
  | nil => exact hid
  | cons a as ih => exact ih (ht.answer a.1 a.2) (ht.serverId?_answer a.1 a.2 hid)

/-- Answers leave a handle its route if in the end no other is confirmed under its id. -/
theorem Tied.leads_answerAll (as : List (Nat × Outcome)) (ht : l.Tied) {h : Nat}
    (hl : l.subscriptions.Leads h) (hsole : (l.answerAll as).subscriptions.Sole h) :
    (l.answerAll as).subscriptions.Leads h := by
  induction as generalizing l with
  | nil => exact hl
  | cons a as ih =>
    have ht' := ht.answer a.1 a.2
    refine ih ht' ?_ hsole
    intro id hid
    rcases l.subscriptions_answer a.1 a.2 with hs | ⟨entry, handle, u, id', hp, hk, ho, hs⟩
    · rw [hs] at hid ⊢
      exact hl id hid
    · have hid' := hid
      rw [hs, Subscriptions.serverId?_confirm ho] at hid'
      rw [hs, Subscriptions.routes_confirm ho]
      split at hid'
      · next he => rw [if_pos (Option.some.inj hid'), he]
      · next hne =>
        rw [if_neg, hl id hid']
        -- another handle confirmed under the id would be so in the end, too
        rintro rfl
        have hother : (l.answer a.1 a.2).subscriptions.serverId? handle = some id' := by
          rw [hs, Subscriptions.serverId?_confirm ho, if_pos rfl]
        exact hsole id' (ht'.serverId?_answerAll as hid) handle hne
          (ht'.serverId?_answerAll as hother)

theorem closeStream_moved (l : Link) (handle : Nat) (telling : Bool) :
    l.subscriptions.Moved (l.closeStream handle telling).subscriptions := by
  by_cases h : ∀ s, l.streams.get? handle = some s → s.phase = .closed
  · rw [l.closeStream_of_closed handle telling h]
    exact .same
  · push Not at h
    obtain ⟨s, hs, hp⟩ := h
    rw [l.closeStream_frame handle telling hs hp]
    exact .released handle

theorem take_frame (l : Link) (handle : Nat) (s : Stream) :
    (l.take handle s).2 = { l with streams := (l.take handle s).2.streams } := by
  unfold take
  split
  · rfl
  · split <;> rfl

theorem poll_moved (l : Link) (handle : Nat) :
    l.subscriptions.Moved (l.poll handle).2.subscriptions := by
  have htake : ∀ s, l.subscriptions.Moved (l.take handle s).2.subscriptions := fun s => by
    rw [take_frame]
    exact .same
  unfold poll
  split
  · exact .same
  · split
    · exact .same
    · split
      · exact l.closeStream_moved handle true
      · split
        · exact .same
        · split
          · exact .same
          · exact .same
          · exact htake _
          · exact htake _

theorem runExchange_moved (l : Link) (k : Nat) :
    l.subscriptions.Moved (l.runExchange k).subscriptions := by
  have hdeadline : (l.setDeadline k).subscriptions = l.subscriptions := by
    unfold setDeadline
    split <;> rfl
  have hopened : ∀ (l : Link) handle o,
      l.subscriptions.Moved (l.opened handle o).subscriptions := by
    intro l handle o
    unfold opened
    dsimp only
    split
    · exact .same
    · rw [sayFarewell_frame]
      exact .released handle
  have hafter : ∀ l : Link, l.subscriptions.Moved (l.afterTurn k).subscriptions := by
    intro l
    unfold afterTurn
    split
    · split
      · exact hopened l _ _
      · exact .same
    · split <;> exact .same
    · exact .same
  have h := hafter { l.setDeadline k with calls := (l.setDeadline k).calls.run k }
  rwa [show _ = l.subscriptions from hdeadline] at h

/-- A delivery changes streams and deliveries only. -/
theorem runDelivery_frame (l : Link) (d : Nat) :
    l.runDelivery d = { l with
      streams := (l.runDelivery d).streams, deliveries := (l.runDelivery d).deliveries } := by
  have hdeliver : ∀ handle ahead value, l.deliver d handle ahead value = { l with
      streams := (l.deliver d handle ahead value).streams
      deliveries := (l.deliver d handle ahead value).deliveries } := by
    intro handle ahead value
    unfold deliver
    split
    · rfl
    · split
      · rfl
      · split <;> rfl
  unfold runDelivery
  split
  · rfl
  · split
    · split
      · exact hdeliver _ _ _
      · rfl
    · exact hdeliver _ _ _
    · rfl

/-- The answers that an event hands out, if it does. -/
def Event.answers? (l : Link) : Event → Option (List (Nat × Outcome))
  | .route r => some (l.calls.answerOf r)
  | .routeBatch responses => some (l.calls.batchAnswers responses)
  | .reject error => some (l.calls.rejectionAnswers error)
  | _ => none

theorem moved_apply (l : Link) {e : Event} (he : e.answers? l = none)
    (hne : e ≠ .closeSubscriptions) : l.subscriptions.Moved (l.apply e).subscriptions := by
  cases e with
  | act a =>
    cases a with
    | «open» request token =>
      have h := (l.open_eq request token).1
      exact (show (l.apply (.act (.open request token))).subscriptions = _ from h) ▸ .registered _
    | poll handle => exact l.poll_moved handle
    | closeStream handle telling => exact l.closeStream_moved handle telling
    | dropStream handle telling => exact l.closeStream_moved handle telling
    | cancel token =>
      have h := congrArg Link.subscriptions (l.cancel_frame token)
      exact (show (l.apply (.act (.cancel token))).subscriptions = _ from h) ▸ .same
    | _ => exact .same
  | release handle => exact .released handle
  | run t =>
    unfold apply run
    dsimp only
    split
    · cases t with
      | exchange k => exact l.runExchange_moved k
      | delivery d =>
        dsimp only
        rw [runDelivery_frame]
        exact .same
    · exact .same
  | route r => simp [Event.answers?] at he
  | routeBatch responses => simp [Event.answers?] at he
  | reject error => simp [Event.answers?] at he
  | closeSubscriptions => exact absurd rfl hne
  | _ => exact .same

/-- No answer closes the subscriptions of a connection. -/
theorem closed_answerAll (as : List (Nat × Outcome)) (l : Link) :
    (l.answerAll as).subscriptions.closed = l.subscriptions.closed := by
  induction as generalizing l with
  | nil => rfl
  | cons a as ih =>
    refine (ih _).trans ?_
    rcases l.subscriptions_answer a.1 a.2 with hs | ⟨_, _, _, _, _, _, _, hs⟩
    · rw [hs]
    · rw [hs, Subscriptions.closed_confirm]

/-- The subscriptions of a connection are closed by nothing else. -/
theorem closed_apply_of_ne (l : Link) {e : Event} (he : e ≠ .closeSubscriptions) :
    (l.apply e).subscriptions.closed = l.subscriptions.closed := by
  cases e with
  | route r => exact closed_answerAll _ l
  | routeBatch responses => exact closed_answerAll _ l
  | reject error => exact closed_answerAll _ l
  | _ => exact (l.moved_apply rfl he).closed_eq

/-- No event revives the subscriptions of a connection that is gone. -/
theorem closed_apply (hc : l.subscriptions.closed = true) (e : Event) :
    (l.apply e).subscriptions.closed = true := by
  by_cases he : e = .closeSubscriptions
  · rw [he]
    rfl
  · rw [l.closed_apply_of_ne he, hc]

theorem closed_after (hc : l.subscriptions.closed = true) (events : List Event) :
    (l.after events).subscriptions.closed = true := by
  induction events using List.reverseRecOn with
  | nil => exact hc
  | append_singleton events e ih =>
    rw [after_concat]
    exact closed_apply ih e

/-- A handle keeps the route of its id as long as no other is confirmed under it. -/
theorem leads_apply (ht : l.Tied) {e : Event} {h : Nat} (hl : l.subscriptions.Leads h)
    (hsole : l.subscriptions.Sole h) (hsole' : (l.apply e).subscriptions.Sole h) :
    (l.apply e).subscriptions.Leads h := by
  cases e with
  | route r => exact ht.leads_answerAll _ hl hsole'
  | routeBatch responses => exact ht.leads_answerAll _ hl hsole'
  | reject error => exact ht.leads_answerAll _ hl hsole'
  | closeSubscriptions => exact l.subscriptions.leads_close h
  | _ => exact hl.moved hsole (l.moved_apply rfl (by simp))

end Link

end NodeRpc
