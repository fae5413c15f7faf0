import Mathlib.Data.List.Induction
import NodeRpc.Frame.Writer
import NodeRpc.Proofs.Session.Ledger

/-!
# Nothing is lost, doubled or reordered

A subscription whose id no other shares yields what the reader dispatched to it, in order: under
`pauseReads` all of it, under `dropNewest` all but what found the buffer full. The rest is held,
until the subscription ends.

As long as the route of its id leads to it, a subscription is handed what is dispatched to it
(`dispatched?_eq`). For one event the accounts balance (`Turn.balance`): what is held afterwards,
behind what the event yields, is what was held before, with what the event hands over behind it.
-/

namespace NodeRpc.Session

variable {s s' : Session} {e : Event} {h : Nat}

/-! ### Finding the subscription -/

/-- What an event hands to the subscription `h`, as the routes lead it there: the payload, and how
many undelivered items are held then. -/
def handed? (s : Session) (h : Nat) (e : Event) : Option (Json × Nat) :=
  (s.takenUp? e).bind fun n =>
    if s.link.subscriptions.target? n = some h then some (n.result, (s.link.bufferOf h).length)
    else none

theorem isLive_of_target? (hs : s.Reads) (hu : s.Unended h) {n : Notification}
    (htarget : s.link.subscriptions.target? n = some h) : s.isLive h = true := by
  rcases hu with hlive | hle
  · exact hlive
  · have hlt := hs.sound.tied.openLt h (Subscriptions.target?_isOpen htarget)
    exact absurd hlt (Nat.not_lt.2 hle)

/-- While the route of its id leads to a subscription, it is handed what is dispatched to it. -/
theorem dispatched?_eq (hs : s.Reads) {confirmed : List (Nat × SubscriptionId)}
    (hk : s.link.Known confirmed) {tag : String} (htag : s.HasTag h tag)
    (hleads : s.link.subscriptions.Leads h) (hu : s.Unended h) :
    s.dispatched? h tag confirmed e = s.handed? h e := by
  unfold dispatched? handed?
  refine congrArg _ (funext fun n => if_congr ?_ rfl rfl)
  rw [Subscriptions.target?_eq_some_iff]
  constructor
  · rintro ⟨hlive, hconfirmed, hmethod⟩
    rw [hs.isLive_eq, Bool.and_eq_true] at hlive
    obtain ⟨r, hr⟩ := Option.isSome_iff_exists.1 hlive.1
    exact ⟨hleads _ ((hk.serverId h _).2 ⟨hlive.1, hconfirmed⟩), r, hr,
      (htag r hr).trans hmethod.symm⟩
  · rintro ⟨hroute, r, hr, hmethod⟩
    have htarget : s.link.subscriptions.target? n = some h :=
      Subscriptions.target?_eq_some_iff.2 ⟨hroute, r, hr, hmethod⟩
    exact ⟨isLive_of_target? hs hu htarget,
      ((hk.serverId h _).1 (hs.sound.tied.routed _ h hroute)).2, hmethod.symm.trans (htag r hr)⟩

/-- The route of a subscription survives a turn, if no other is confirmed under its id before or
after it. -/
theorem Turn.leads (ht : Turn s e s') (hs : s.Reads) (hleads : s.link.subscriptions.Leads h)
    (hsole : s.link.subscriptions.Sole h) (hsole' : s'.link.subscriptions.Sole h) :
    s'.link.subscriptions.Leads h := by
  have htied := hs.sound.tied
  cases ht with
  | idle _ _ hlink _ => rwa [hlink]
  | event e' _ _ _ hlink _ =>
    rw [hlink] at hsole' ⊢
    exact Link.leads_apply htied hleads hsole hsole'
  | poll i _ hlink _ =>
    rw [hlink] at hsole' ⊢
    exact Link.leads_apply (e := .act (.poll i)) htied hleads hsole hsole'
  | handOver n _ _ _ hlink _ =>
    rw [hlink] at hsole' ⊢
    exact Link.leads_apply (l := s.link.dispatch n) (e := .run (.delivery s.link.deliveries.length))
      (Link.tied_apply htied (.dispatch n)) hleads hsole hsole'
  | again d _ _ hlink _ =>
    rw [hlink] at hsole' ⊢
    exact Link.leads_apply (e := .run (.delivery d)) htied hleads hsole hsole'
  | stop _ _ _ hlink _ =>
    rw [hlink]
    exact s.link.subscriptions.leads_close h
  | giveUp d _ _ hlink _ =>
    rw [hlink]
    exact s.link.subscriptions.leads_close h

/-! ### The balance of one turn -/

theorem takenUp?_of_plain {e' : Link.Event} (hplain : e'.isPlain = true)
    (hi : s.reads? e = e'.item?) : s.takenUp? e = none := by
  rw [takenUp?, hi]
  cases e' with
  | dispatch n => simp [Link.Event.isPlain] at hplain
  | _ => rfl

theorem yields?_of_ne (he : ∀ i, e ≠ .act (.poll i)) (h : Nat) : s.yields? h e = none := by
  unfold yields?
  split
  · next i => exact absurd rfl (he i)
  · rfl

theorem balance_poll (i : Nat) (hlink : s'.link = (s.link.poll i).2)
    (hreader : s'.reader = s.reader) (h : Nat) :
    (s.yields? h (.act (.poll i))).toList ++ s'.held h = s.held h := by
  have hwaiting : s'.link.deliveries = s.link.deliveries → s'.waiting h = s.waiting h :=
    fun hd => waiting_congr hreader hd h
  unfold yields? held
  dsimp only
  rw [hlink] at hwaiting ⊢
  rcases s.link.poll_cases i with ⟨hnone, hr⟩ | ⟨value, u, hitem, hbuffer, heq⟩
  · have hno : (s.link.poll i).1.item? = none := by
      cases hp : (s.link.poll i).1 with
      | item value => exact absurd hp (hnone value)
      | _ => rfl
    rw [hno, hwaiting hr.deliveries, hr.buffer]
    simp
  · rw [hwaiting (by rw [heq]; rfl), heq, Link.bufferOf_setStream, hitem]
    by_cases hi : i = h
    · subst hi
      rw [if_pos rfl, if_pos rfl, hbuffer]
      rfl
    · rw [if_neg hi, if_neg hi]
      rfl

theorem balance_handOver (hs : s.Reads) {n : Notification}
    (hi : s.reads? e = some (.notification n)) (hreading : s.reader = .reading)
    (hlink : s'.link = s.link.handOver n)
    (hreader : s'.reader = ((s.onLink (·.dispatch n)).deliver s.link.deliveries.length).reader) :
    s'.held h =
      s.held h ++ kept s.link.policy s.link.capacity (s.handed? h e).toList := by
  obtain ⟨streams, stage, hhanded, heq, hstage⟩ := hs.handOver hreading n hlink hreader
  have hold : s.waiting h = none := waiting_of_reader (by simp [hreading]) h
  have hdone : stage = .done → s'.waiting h = none := fun he =>
    waiting_of_reader (by simp [hstage, he]) h
  have hbuffer : s'.link.bufferOf h = Link.bufferOf { s.link with streams } h := by
    rw [heq]
    rfl
  have hto : s.handed? h e = if s.link.subscriptions.target? n = some h then
      some (n.result, (s.link.bufferOf h).length) else none := by
    rw [handed?, takenUp?, hi]
    rfl
  rw [hto, held, held, hold, hbuffer]
  cases hhanded with
  | astray ht hstreams =>
    rw [hdone rfl, hstreams, ht]
    cases s.link.policy <;> simp [kept]
  | @taken i ht hroom hstreams =>
    obtain ⟨x, hx, _⟩ := hs.sound.streamed.receiving i (Subscriptions.target?_isOpen ht)
    have hgrown : Link.bufferOf { s.link with streams } h =
        if i = h then s.link.bufferOf h ++ [n.result] else s.link.bufferOf h := by
      rw [hstreams]
      exact Link.bufferOf_enqueue hx n.result h
    rw [hdone rfl, hgrown, ht]
    by_cases hi : i = h
    · subst hi
      cases s.link.policy <;> simp [kept, Nat.ne_of_lt hroom]
    · cases s.link.policy <;> simp [kept, hi]
  | @waits i ht hfull hp hstreams =>
    have hwaiting : s'.waiting h = if i = h then some n.result else none :=
      waiting_of_blocked (by simpa using hstage) (by simp [heq]) h
    rw [hwaiting, hstreams, ht, hp]
    by_cases hi : i = h <;> simp [kept, hi]
  | @dropped i ht hfull hp hstreams =>
    rw [hdone rfl, hstreams, ht, hp]
    by_cases hi : i = h
    · subst hi
      simp [kept, hfull]
    · simp [kept, hi]

theorem balance_again (hs : s.Reads) (hs' : s'.Reads) (hu : s'.Unended h) {d : Nat}
    (hwaits : s.reader = .delivering d) (hlink : s'.link = s.link.run (.delivery d))
    (hreader : s'.reader = (s.deliver d).reader) : s'.held h = s.held h := by
  obtain ⟨n, i, hd, hlt, hcases⟩ := hs.again hwaits hlink hreader
  have hheld : s.held h = s.link.bufferOf h ++ (if i = h then some n.result else none).toList := by
    rw [held, waiting_of_blocked hwaits hd]
  -- once the delivery is done, the reader waits for nothing
  have hdone : ∀ l : Link, s'.link = l.setDelivery d .done → s'.reader = .reading →
      s'.held h = l.bufferOf h := by
    intro l heq hr
    rw [held, waiting_of_reader (by simp [hr]), heq]
    simp [Link.bufferOf, Link.setDelivery]
  rcases hcases with ⟨heq, hr⟩ | ⟨hr, ⟨hrec, heq⟩ | ⟨hrec, heq⟩⟩
  · rw [held, held, waiting_congr hr (by rw [heq]), heq]
  · have hi : i ≠ h := by
      rintro rfl
      rcases hu with hlive | hle
      · -- a live stream receives
        rw [hs'.isLive_eq, Bool.and_eq_true, heq] at hlive
        obtain ⟨x, hx, hreceiving⟩ := hs.sound.streamed.receiving i hlive.1
        simp [Link.isReceiving, hx, hreceiving] at hrec
      · rw [heq] at hle
        exact absurd hlt (Nat.not_lt.2 hle)
    rw [hdone s.link heq hr, hheld, if_neg hi]
    simp
  · obtain ⟨x, hx⟩ : ∃ x, s.link.streams.get? i = some x := by
      unfold Link.isReceiving at hrec
      split at hrec
      · next x hx => exact ⟨x, hx⟩
      · simp at hrec
    rw [hdone (s.link.enqueue i n.result) heq hr, hheld, Link.bufferOf_enqueue hx]
    by_cases hi : i = h <;> simp [hi]

/-- What is held after a turn, behind what the turn yields, is what was held before it, with what it
hands over behind it. -/
theorem Turn.balance (ht : Turn s e s') (hs : s.Reads) (hu : s'.Unended h) :
    (s.yields? h e).toList ++ s'.held h =
      s.held h ++ kept s.link.policy s.link.capacity (s.handed? h e).toList := by
  have hs' := ht.reads hs
  have hnone : s.takenUp? e = none → kept s.link.policy s.link.capacity
      (s.handed? h e).toList = [] := by
    intro hn
    rw [handed?, hn]
    cases s.link.policy <;> rfl
  have hnoItem : s.reads? e = none → s.takenUp? e = none := fun hi => by rw [takenUp?, hi]; rfl
  have hread : e.isRead = true → s.yields? h e = none := fun he =>
    yields?_of_ne (fun i => Event.ne_of_isRead he _) h
  -- on a closed connection only what was not opened has not ended
  have hclosed : s'.link.subscriptions = s.link.subscriptions.close → s'.held h = s.held h := by
    intro hsub
    have hle : s.link.subscriptions.nextHandle ≤ h := by
      rcases hu with hlive | hle
      · simp [hs'.isLive_eq, hsub, Subscriptions.close, Subscriptions.isOpen, Table.has,
          Table.get?] at hlive
      · rwa [hsub] at hle
    rw [hs.held_of_unopened hle, hs'.held_of_unopened (by rw [hsub]; exact hle)]
  cases ht with
  | idle hi he hlink hr =>
    rw [yields?_of_ne he, hnone (hnoItem hi), held, held, waiting_congr hr (by rw [hlink]), hlink]
    simp
  | event e' hplain hi he hlink hr =>
    have h := Link.retains_apply (fun _ => hs.unopened (Nat.le_refl _))
      (Link.Event.plain_iff.1 hplain).1
    rw [yields?_of_ne he, hnone (takenUp?_of_plain hplain hi), held, held,
      waiting_congr hr (by rw [hlink]; exact h.deliveries), hlink, h.buffer]
    simp
  | poll i he hlink hr =>
    subst he
    rw [balance_poll i hlink hr, hnone rfl, List.append_nil]
  | handOver n he hi hreading hlink hr =>
    rw [hread he]
    exact balance_handOver hs hi hreading hlink hr
  | again d he hwaits hlink hr =>
    rw [hread he, hnone (hnoItem (reads?_of_reader (by simp [hwaits]))),
      balance_again hs hs' hu hwaits hlink hr]
    simp
  | stop he hi hreading hlink hr =>
    rw [hread he, hnone (hnoItem hi), hclosed (by rw [hlink]; rfl)]
    simp
  | giveUp d he hwaits hlink hr =>
    rw [hread he, hnone (hnoItem (reads?_of_reader (by simp [hwaits]))),
      hclosed (by rw [hlink]; rfl)]
    simp

/-- A turn after which a subscription is not live yields and dispatches nothing to it. -/
theorem Turn.quiet (ht : Turn s e s') (hs : s.Reads) (hnot : s'.isLive h = false) (tag : String)
    (confirmed : List (Nat × SubscriptionId)) :
    s.yields? h e = none ∧ s.dispatched? h tag confirmed e = none := by
  have hs' := ht.reads hs
  have hnone : s.takenUp? e = none → s.dispatched? h tag confirmed e = none := fun hn => by
    rw [dispatched?, hn, Option.bind_none]
  have hnoItem : s.reads? e = none → s.dispatched? h tag confirmed e = none := fun hi =>
    hnone (by rw [takenUp?, hi]; rfl)
  have hread : e.isRead = true → s.yields? h e = none := fun he =>
    yields?_of_ne (fun i => Event.ne_of_isRead he _) h
  cases ht with
  | idle hi he _ _ => exact ⟨yields?_of_ne he h, hnoItem hi⟩
  | event e' hplain hi he _ _ => exact ⟨yields?_of_ne he h, hnone (takenUp?_of_plain hplain hi)⟩
  | poll i he hlink _ =>
    subst he
    refine ⟨?_, hnone rfl⟩
    unfold yields?
    dsimp only
    split
    · next hi =>
      subst hi
      rcases s.link.poll_cases i with ⟨hno, _⟩ | ⟨value, u, hitem, _, heq⟩
      · cases hp : (s.link.poll i).1 with
        | item value => exact absurd hp (hno value)
        | _ => rfl
      · -- a poll that takes something out does not end the stream, so it had ended before
        have hended : s.link.subscriptions.isOpen i = false ∨
            s.link.calls.isCancelled (.stream i) = true := by
          rw [hs'.isLive_eq, hlink, heq, Bool.and_eq_false_iff, Bool.not_eq_false'] at hnot
          exact hnot
        exact absurd hitem (Link.poll_of_ended hs.sound.streamed hended value)
    · rfl
  | handOver n he hi hreading hlink hr =>
    refine ⟨hread he, ?_⟩
    obtain ⟨_, _, _, heq, _⟩ := hs.handOver hreading n hlink hr
    have hsame : s.isLive h = false := by
      rw [← hnot, hs.isLive_eq, hs'.isLive_eq, heq]
    unfold dispatched?
    simp [hsame]
  | again d he hwaits _ _ =>
    exact ⟨hread he, hnoItem (reads?_of_reader (by simp [hwaits]))⟩
  | stop he hi _ _ _ => exact ⟨hread he, hnoItem hi⟩
  | giveUp d he hwaits _ _ =>
    exact ⟨hread he, hnoItem (reads?_of_reader (by simp [hwaits]))⟩

/-! ### Whole runs -/

/-- While the subscription `h` is live, no other that is open was confirmed under its id. One that
was cancelled stays open until its stream is polled or dropped. -/
def HasOwnId (s : Session) (events : List Event) (h : Nat) : Prop :=
  ∀ past, past <+: events → (s.after past).isLive h = true → ∀ (id : SubscriptionId) (other : Nat),
    (h, id) ∈ s.confirmed past → (other, id) ∈ s.confirmed past → other ≠ h →
    (s.after past).link.subscriptions.isOpen other = false

/-- The part of a run up to the last moment at which the subscription `h` is live. -/
def lifetime (h : Nat) : Session → List Event → List Event
  | _, [] => []
  | s, e :: events =>
    match lifetime h (s.apply e) events with
    | [] => if (s.apply e).isLive h then [e] else []
    | rest => e :: rest

theorem lifetime_concat (s : Session) (h : Nat) (events : List Event) (e : Event) :
    s.lifetime h (events ++ [e]) =
      if (s.after (events ++ [e])).isLive h then events ++ [e] else s.lifetime h events := by
  induction events generalizing s with
  | nil => rfl
  | cons a events ih =>
    have hafter : s.after (a :: events ++ [e]) = (s.apply a).after (events ++ [e]) := rfl
    rw [List.cons_append, lifetime, ih, ← List.cons_append, hafter]
    by_cases hl : ((s.apply a).after (events ++ [e])).isLive h = true
    · rw [if_pos hl, if_pos hl]
      cases events <;> rfl
    · rw [if_neg hl, if_neg hl, lifetime]

theorem lifetime_within (s : Session) (h : Nat) (events : List Event) :
    s.lifetime h events <+: events := by
  induction events using List.reverseRecOn with
  | nil => exact List.prefix_rfl
  | append_singleton events e ih =>
    rw [lifetime_concat]
    split
    · exact List.prefix_rfl
    · exact ih.trans (List.prefix_append _ _)

variable {buffer : Nat} {policy : Backpressure} {events : List Event} {tag : String}

theorem onward_after (buffer : Nat) (policy : Backpressure) (events : List Event) (e : Event) :
    ((start buffer policy).after events).Onward ((start buffer policy).after (events ++ [e])) := by
  rw [after_concat]
  exact (turn_apply _ e).onward (reads_after buffer policy events)

theorem unended_of_concat (hu : ((start buffer policy).after (events ++ [e])).Unended h) :
    ((start buffer policy).after events).Unended h :=
  (onward_after buffer policy events e).unended (reads_after buffer policy events)
    (reads_after buffer policy _) hu

theorem limits_after (buffer : Nat) (policy : Backpressure) (events : List Event) :
    ((start buffer policy).after events).link.policy = policy ∧
      ((start buffer policy).after events).link.capacity = max buffer 1 := by
  induction events using List.reverseRecOn with
  | nil => exact ⟨rfl, rfl⟩
  | append_singleton events e ih =>
    have ho := onward_after buffer policy events e
    exact ⟨ho.policy.trans ih.1, ho.capacity.trans ih.2⟩

theorem HasOwnId.sole (hown : (start buffer policy).HasOwnId events h) {past : List Event}
    (hpast : past <+: events) (hu : ((start buffer policy).after past).Unended h) :
    ((start buffer policy).after past).link.subscriptions.Sole h := by
  have hk := known_after buffer policy past
  intro id hid other hne hother
  rcases hu with hlive | hle
  · obtain ⟨hopen, hconfirmed⟩ := (hk.serverId other id).1 hother
    have hclosed := hown past hpast hlive id other ((hk.serverId h id).1 hid).2 hconfirmed hne
    simp [hclosed] at hopen
  · have hlt := (reads_after buffer policy past).sound.tied.openLt h
      (Subscriptions.isOpen_of_serverId? hid)
    exact absurd hlt (Nat.not_lt.2 hle)

theorem HasOwnId.before {s : Session} (hown : s.HasOwnId events h) {past : List Event}
    (hpast : past <+: events) : s.HasOwnId past h :=
  fun _ hp => hown _ (hp.trans hpast)

theorem held_start (buffer : Nat) (policy : Backpressure) (h : Nat) :
    (start buffer policy).held h = [] := by
  simp [held, waiting, start, Link.ofOptions, Link.bufferOf, Table.get?]

/-- A subscription that never shares its id keeps its route until it ends. -/
theorem HasOwnId.leads (hown : (start buffer policy).HasOwnId events h)
    (hu : ((start buffer policy).after events).Unended h) :
    ((start buffer policy).after events).link.subscriptions.Leads h := by
  induction events using List.reverseRecOn with
  | nil =>
    intro id hid
    simp [after, start, Link.ofOptions, Subscriptions.serverId?, Table.get?] at hid
  | append_singleton events e ih =>
    have hpast : events <+: events ++ [e] := List.prefix_append _ _
    have hold := unended_of_concat hu
    have hsole := hown.sole hpast hold
    have hsole' := hown.sole List.prefix_rfl hu
    rw [after_concat] at hsole' ⊢
    exact (turn_apply _ e).leads (reads_after buffer policy events)
      (ih (hown.before hpast) hold) hsole hsole'

/-- Until a subscription ends, what was yielded and what is held is what was dispatched, but for
what was dropped. -/
theorem HasOwnId.balance (hown : (start buffer policy).HasOwnId events h)
    (htag : ∀ past, past <+: events → ((start buffer policy).after past).HasTag h tag)
    (hu : ((start buffer policy).after events).Unended h) :
    (start buffer policy).yielded h events ++ ((start buffer policy).after events).held h =
      kept policy (max buffer 1) ((start buffer policy).dispatched h tag [] events) := by
  induction events using List.reverseRecOn with
  | nil =>
    have hnone : ((start buffer policy).after []).held h = [] := held_start buffer policy h
    rw [hnone]
    cases policy <;> rfl
  | append_singleton events e ih =>
    have hpast : events <+: events ++ [e] := List.prefix_append _ _
    have hold := unended_of_concat hu
    have hown' := hown.before hpast
    have hreads := reads_after buffer policy events
    obtain ⟨hpolicy, hcapacity⟩ := limits_after buffer policy events
    have hturn := (turn_apply ((start buffer policy).after events) e).balance hreads
      (by rwa [← after_concat])
    have hhanded := dispatched?_eq (e := e) hreads (known_after buffer policy events)
      (htag events hpast) (hown'.leads hold) hold
    rw [hpolicy, hcapacity, ← after_concat] at hturn
    rw [yielded, trace_concat, List.append_assoc, hturn, ← List.append_assoc, dispatched_concat,
      List.nil_append, hhanded, kept_append]
    exact congrArg (· ++ _) (ih hown' (fun past hp => htag past (hp.trans hpast)) hold)

/-- Once a subscription has ended nothing is dispatched to it or yielded. -/
theorem lifetime_traces (buffer : Nat) (policy : Backpressure) (events : List Event) (h : Nat)
    (tag : String) :
    (start buffer policy).yielded h events =
        (start buffer policy).yielded h ((start buffer policy).lifetime h events) ∧
      (start buffer policy).dispatched h tag [] events =
        (start buffer policy).dispatched h tag [] ((start buffer policy).lifetime h events) := by
  induction events using List.reverseRecOn with
  | nil => exact ⟨rfl, rfl⟩
  | append_singleton events e ih =>
    rw [lifetime_concat]
    split
    · exact ⟨rfl, rfl⟩
    · next hnot =>
      rw [after_concat, Bool.not_eq_true] at hnot
      obtain ⟨hy, hd⟩ := (turn_apply _ e).quiet (reads_after buffer policy events) hnot tag
        ([] ++ (start buffer policy).confirmed events)
      rw [← ih.1, ← ih.2, yielded, trace_concat, dispatched_concat, hy, hd]
      exact ⟨List.append_nil _, List.append_nil _⟩

theorem lifetime_cases (s : Session) (h : Nat) (events : List Event) :
    s.lifetime h events = [] ∨ (s.after (s.lifetime h events)).isLive h = true := by
  induction events using List.reverseRecOn with
  | nil => exact .inl rfl
  | append_singleton events e ih =>
    rw [lifetime_concat]
    split
    · next hlive => exact .inr hlive
    · exact ih

/-- A subscription whose id no other shares yields what was dispatched to it, in wire order. Until
it ends what was not yielded is held: in its buffer, and under `pauseReads` by the reader. Under
`dropNewest` the reader never waits, and what found the buffer full is missing. -/
theorem yields_what_was_dispatched (buffer : Nat) (policy : Backpressure)
    (before later : List Event) (request : SubscriptionRequest) (token : Token)
    (howned : ((start buffer policy).after before).owned = true)
    (hown : (start buffer policy).HasOwnId (before ++ .act (.open request token) :: later)
      ((start buffer policy).after before).link.subscriptions.nextHandle) :
    let events := before ++ .act (.open request token) :: later
    let h := ((start buffer policy).after before).link.subscriptions.nextHandle
    let sent := (start buffer policy).dispatched h request.names.notification [] events
    let session := (start buffer policy).after ((start buffer policy).lifetime h events)
    (policy = .pauseReads →
      (start buffer policy).yielded h events ++ session.link.bufferOf h
          ++ (session.waiting h).toList =
        sent.map Prod.fst) ∧
    (policy = .dropNewest →
      (∀ d, ((start buffer policy).after events).reader ≠ .delivering d) ∧
      (start buffer policy).yielded h events ++ session.link.bufferOf h =
        (sent.filter fun p => p.2 ≠ max buffer 1).map Prod.fst) := by
  intro events h sent session
  have hbalance : (start buffer policy).yielded h events ++ session.held h =
      kept policy (max buffer 1) sent := by
    obtain ⟨hy, hd⟩ := lifetime_traces buffer policy events h request.names.notification
    have hwithin := lifetime_within (start buffer policy) h events
    dsimp only [sent]
    rw [hy, hd]
    rcases lifetime_cases (start buffer policy) h events with hnil | hlive
    · have hstart : session = start buffer policy := by
        dsimp only [session]
        rw [hnil]
        rfl
      rw [hstart, hnil, held_start]
      cases policy <;> rfl
    · exact (hown.before hwithin).balance
        (fun past hp => hasTag_after howned request token (hp.trans hwithin)) (.inl hlive)
  have hreader : policy = .dropNewest → ∀ (past : List Event) (d : Nat),
      ((start buffer policy).after past).reader ≠ .delivering d := by
    rintro rfl past d hd
    have hp := ((reads_after buffer .dropNewest past).waits d hd).1
    rw [(limits_after buffer .dropNewest past).1] at hp
    simp at hp
  refine ⟨?_, ?_⟩
  · rintro rfl
    rw [List.append_assoc]
    exact hbalance
  · intro hdrop
    refine ⟨hreader hdrop events, ?_⟩
    rw [held, waiting_of_reader (hreader hdrop _)] at hbalance
    subst hdrop
    simpa [kept] using hbalance

/-- The only subscription has an id of its own. -/
theorem hasOwnId_of_alone {s : Session} (halone : ∀ n < events.length + 1,
    ∀ p ∈ (s.after (events.take n)).link.subscriptions.registrations, p.1 = h) :
    s.HasOwnId events h := by
  intro past hpast _ id other _ _ hne
  by_contra hopen
  rw [List.prefix_iff_eq_take.1 hpast, Bool.not_eq_false] at hopen
  obtain ⟨r, hr⟩ := Option.isSome_iff_exists.1 hopen
  exact hne (halone past.length (Nat.lt_succ_of_le hpast.length_le) _ (Table.mem_of_get? hr))

/-- What the only subscription of these examples asks for. -/
def slotsRequest : SubscriptionRequest :=
  ⟨⟨"slotSubscribe", "slotUnsubscribe", "slotNotification"⟩, .arr []⟩

/-- A subscription under the id 7, to which the node sends 1, 2 and 3 right behind its response. The
consumer takes one of them, and the reader is left with one in its hands. -/
def threeSent : List Event :=
  let push (frame : Json) : Event := .arrive (.text frame.compact)
  let notify (value : Int) : Event :=
    push (Notification.toJson ⟨"slotNotification", .number 7, .int value⟩)
  [.run (.exchange 0), push (Response.toJson ⟨1, .ok (.int 7)⟩), notify 1, notify 2, notify 3,
    .run .reader, .run .reader, .run .reader, .run (.exchange 0), .act (.poll 1), .run .reader,
    .run .reader]

/-- One is yielded, one is in the buffer, and the reader waits with the third. -/
theorem yields_what_was_dispatched_three :
    let events := .act (.open slotsRequest (.caller 0)) :: threeSent
    let session := (start 1 .pauseReads).after ((start 1 .pauseReads).lifetime 1 events)
    (start 1 .pauseReads).yielded 1 events ++ session.link.bufferOf 1
        ++ (session.waiting 1).toList =
      [.int 1, .int 2, .int 3] := by
  intro events session
  have hown : (start 1 .pauseReads).HasOwnId events 1 := hasOwnId_of_alone (by decide +kernel)
  have hsent : ((start 1 .pauseReads).dispatched 1 "slotNotification" [] events).map Prod.fst =
      [.int 1, .int 2, .int 3] := by decide +kernel
  have hyields := yields_what_was_dispatched 1 .pauseReads [] threeSent slotsRequest (.caller 0)
    rfl hown
  exact (hyields.1 rfl).trans hsent

end NodeRpc.Session
