import NodeRpc.Proofs.Link.Histories
import NodeRpc.Proofs.Session.Reader

/-!
# What a session has confirmed

A run of a session is a run of its link, in which the answers are those that the reader routes
(`Amounts`). So what is known of the confirmations of a link is known of those of a session: a
handle that is registered has the id under which the reader confirmed it (`known_after`), and the
tag that it was opened with (`hasTag_after`).
-/

namespace NodeRpc.Session

variable {s : Session} {e : Event} {events : List Event}

/-! ### Traces -/

/-- What is observed in a run, one event after the other. -/
def trace {α : Type} (f : Session → Event → List α) : Session → List Event → List α
  | _, [] => []
  | s, e :: events => f s e ++ trace f (s.apply e) events

theorem trace_append {α : Type} (f : Session → Event → List α) (s : Session)
    (events more : List Event) :
    trace f s (events ++ more) = trace f s events ++ trace f (s.after events) more := by
  induction events generalizing s with
  | nil => rfl
  | cons e events ih =>
    simp only [List.cons_append, trace, ih, List.append_assoc]
    rfl

theorem trace_concat {α : Type} (f : Session → Event → List α) (s : Session)
    (events : List Event) (e : Event) :
    trace f s (events ++ [e]) = trace f s events ++ f (s.after events) e := by
  rw [trace_append, trace, trace, List.append_nil]

theorem after_append (s : Session) (events more : List Event) :
    s.after (events ++ more) = (s.after events).after more := by
  simp [after]

/-! ### What the reader routes -/

/-- The answers that an event routes to the calls. -/
def answers (s : Session) (e : Event) : List (Nat × Outcome) :=
  match s.reads? e with
  | some (.response r) => s.link.calls.answerOf r
  | some (.batch rs) => s.link.calls.batchAnswers rs
  | some (.rejected error) => s.link.calls.rejectionAnswers error
  | _ => []

/-- The handles whose subscribe calls an event answers with an id, and the ids. -/
def confirms (s : Session) (e : Event) : List (Nat × SubscriptionId) :=
  s.link.confirmations (s.answers e)

/-- The handles whose subscribe calls a run answers with an id, and the ids. -/
def confirmed (s : Session) (events : List Event) : List (Nat × SubscriptionId) :=
  s.trace confirms events

theorem answers_eq {e' : Link.Event} (hi : s.reads? e = e'.item?) :
    s.answers e = (e'.answers? s.link).getD [] := by
  unfold answers
  rw [hi]
  cases e' <;> rfl

theorem confirms_of_none (hi : s.reads? e = none) : s.confirms e = [] := by
  simp [confirms, answers, hi, Link.confirmations]

theorem confirms_of_notification {n : Notification} (hi : s.reads? e = some (.notification n)) :
    s.confirms e = [] := by
  simp [confirms, answers, hi, Link.confirmations]

/-! ### What happens to the link -/

/-- The events `es` happen to the link of a session by the run `events`. What is polled is polled by
both, and the run routes what `es` does. -/
structure Amounts (s : Session) (events : List Event) (es : List Link.Event) : Prop where
  link : (s.after events).link = s.link.after es
  polls : ∀ h, .act (.poll h) ∈ es → .act (.poll h) ∈ events
  confirmed : s.link.confirmedIn es = s.confirmed events

theorem Amounts.append {more : List Event} {es es' : List Link.Event} (h : s.Amounts events es)
    (h' : (s.after events).Amounts more es') : s.Amounts (events ++ more) (es ++ es') where
  link := by rw [after_append, h'.link, h.link, Link.after_append]
  polls handle hmem := by
    rw [List.mem_append] at hmem ⊢
    exact hmem.imp (h.polls handle) (h'.polls handle)
  confirmed := by
    rw [Link.confirmedIn, Link.trace_append, ← h.link]
    exact (congrArg₂ _ h.confirmed h'.confirmed).trans (trace_append _ _ _ _).symm

/-- An event of a session is some events of its link. -/
theorem amounts_apply (s : Session) (e : Event) : ∃ es, s.Amounts [e] es := by
  have hconfirmed : s.confirmed [e] = s.confirms e := List.append_nil _
  cases turn_apply s e with
  | idle hi _ hlink _ => exact ⟨[], hlink, by simp, (hconfirmed.trans (confirms_of_none hi)).symm⟩
  | event e' hplain hi _ hlink _ =>
    refine ⟨[e'], hlink, fun h hmem => ?_, ?_⟩
    · obtain rfl := List.mem_singleton.1 hmem
      simp [Link.Event.isPlain] at hplain
    · rw [hconfirmed, confirms, answers_eq hi]
      exact List.append_nil _
  | poll h he hlink _ =>
    subst he
    exact ⟨[.act (.poll h)], hlink, by simp, rfl⟩
  | handOver n _ hi _ hlink _ =>
    exact ⟨[.dispatch n, .run (.delivery s.link.deliveries.length)], hlink, by simp,
      (hconfirmed.trans (confirms_of_notification hi)).symm⟩
  | again d _ hwaits hlink _ =>
    exact ⟨[.run (.delivery d)], hlink, by simp,
      (hconfirmed.trans (confirms_of_none (reads?_of_reader (by simp [hwaits])))).symm⟩
  | stop _ hi _ hlink _ =>
    exact ⟨[.closeCalls, .closeSubscriptions], hlink, by simp,
      (hconfirmed.trans (confirms_of_none hi)).symm⟩
  | giveUp d _ hwaits hlink _ =>
    exact ⟨[.dropDelivery d, .closeCalls, .closeSubscriptions], hlink, by simp,
      (hconfirmed.trans (confirms_of_none (reads?_of_reader (by simp [hwaits])))).symm⟩

theorem amounts_after (s : Session) (events : List Event) : ∃ es, s.Amounts events es := by
  induction events using List.reverseRecOn with
  | nil => exact ⟨[], rfl, by simp, rfl⟩
  | append_singleton events e ih =>
    obtain ⟨es, h⟩ := ih
    obtain ⟨es', h'⟩ := amounts_apply (s.after events) e
    exact ⟨es ++ es', h.append h'⟩

/-- A session knows at all times what was confirmed. -/
theorem known_after (buffer : Nat) (policy : Backpressure) (events : List Event) :
    ((start buffer policy).after events).link.Known ((start buffer policy).confirmed events) := by
  obtain ⟨es, h⟩ := amounts_after (start buffer policy) events
  rw [h.link, ← h.confirmed]
  exact Link.known_after buffer policy es

/-! ### Tags -/

/-- What is registered for the handle `h` has the tag `tag`. -/
def HasTag (s : Session) (h : Nat) (tag : String) : Prop :=
  ∀ r, s.link.subscriptions.registrations.get? h = some r → r.notification = tag

theorem subscriptions_onward (s : Session) (events : List Event) :
    s.link.subscriptions.Onward (s.after events).link.subscriptions := by
  obtain ⟨es, h⟩ := amounts_after s events
  rw [h.link]
  clear h
  induction es using List.reverseRecOn with
  | nil => exact .refl _
  | append_singleton es e ih =>
    rw [Link.after_concat]
    exact ih.trans (Link.onward_apply _ e)

theorem subscriptions_open (howned : s.owned = true) (request : SubscriptionRequest)
    (token : Token) : (s.apply (.act (.open request token))).link.subscriptions =
      s.link.subscriptions.register request.names := by
  have hlink : (s.apply (.act (.open request token))).link = s.link.open request token := by
    simp [apply, needsOwner, howned, onLink, Link.act]
  rw [hlink, (s.link.open_eq request token).1]

/-- A subscription has the tag that it is opened with. -/
theorem hasTag_open (hs : s.Reads) (howned : s.owned = true) (request : SubscriptionRequest)
    (token : Token) : (s.apply (.act (.open request token))).HasTag s.link.subscriptions.nextHandle
      request.names.notification := by
  intro r hr
  rw [subscriptions_open howned] at hr
  unfold Subscriptions.register at hr
  split at hr
  · have hlt := hs.sound.tied.openLt _ (Option.isSome_iff_exists.2 ⟨r, hr⟩)
    exact absurd hlt (Nat.lt_irrefl _)
  · rw [Table.get?_put, if_pos rfl] at hr
    rw [← Option.some.inj hr]

/-- At all times of a run in which a subscription is opened with a tag, it is registered with that
tag, if it is registered. -/
theorem hasTag_after {buffer : Nat} {policy : Backpressure} {before later : List Event}
    (howned : ((start buffer policy).after before).owned = true) (request : SubscriptionRequest)
    (token : Token) {past : List Event}
    (hpast : past <+: before ++ .act (.open request token) :: later) :
    ((start buffer policy).after past).HasTag
      ((start buffer policy).after before).link.subscriptions.nextHandle
      request.names.notification := by
  set opening : Event := .act (.open request token)
  have hreads := reads_after buffer policy before
  have hopened := hasTag_open hreads howned request token
  have hlt : ((start buffer policy).after before).link.subscriptions.nextHandle <
      ((start buffer policy).after (before ++ [opening])).link.subscriptions.nextHandle := by
    rw [after_concat, subscriptions_open howned, Subscriptions.nextHandle_register]
    exact Nat.lt_succ_self _
  have hlate : ∀ rest, ((start buffer policy).after (before ++ [opening] ++ rest)).HasTag
      ((start buffer policy).after before).link.subscriptions.nextHandle
      request.names.notification := by
    intro rest r' hr'
    rw [after_append] at hr'
    obtain ⟨r, hr, htag⟩ := (subscriptions_onward _ rest).kept _ r' hlt hr'
    rw [after_concat] at hr
    exact htag.symm.trans (hopened r hr)
  have hwhole : before ++ [opening] <+: before ++ opening :: later := ⟨later, by simp⟩
  rcases List.prefix_or_prefix_of_prefix hpast hwhole with hbefore | ⟨rest, rfl⟩
  · rcases List.prefix_concat_iff.1 hbefore with rfl | ⟨rest, rfl⟩
    · simpa using hlate []
    · -- the handle has not been given out
      intro r hr
      have hopen := (reads_after buffer policy past).sound.tied.openLt _
        (Option.isSome_iff_exists.2 ⟨r, hr⟩)
      have hle := (subscriptions_onward ((start buffer policy).after past) rest).next
      rw [← after_append] at hle
      exact absurd hopen (Nat.not_lt.2 hle)
  · exact hlate rest

end NodeRpc.Session
