import NodeRpc.Proofs.Link.Histories

/-!
# The tables agree

A route leads to a registered handle that was confirmed under the id of the route, and a handle is
registered only while its consumer has the stream and it is not closed. What is delivered takes the
route once, and may wait behind it; so a delivery that waits is for a stream that was confirmed
under the id of its notification (`Addressed`), whatever has become of the route meanwhile.
-/

namespace NodeRpc.Link

variable {l : Link} {confirmed : List (Nat × SubscriptionId)}

/-- The tables of a link agree with each other and with its streams. -/
structure Consistent (l : Link) : Prop where
  routed : ∀ id h, l.subscriptions.routes.get? id = some h →
    ∃ r, l.subscriptions.registrations.get? h = some r ∧ r.serverId = some id
  /-- No handle has two routes. -/
  single : ∀ id id' h, l.subscriptions.routes.get? id = some h →
    l.subscriptions.routes.get? id' = some h → id = id'
  owned : ∀ h r, l.subscriptions.registrations.get? h = some r →
    ∃ s, l.streams.get? h = some s ∧ s.held = true ∧ s.phase ≠ .closed
  closed : l.subscriptions.closed = true →
    l.subscriptions.registrations = [] ∧ l.subscriptions.routes = []

theorem Tied.consistent (ht : l.Tied) (hv : l.Valid) : l.Consistent where
  routed id h hroute := Option.bind_eq_some_iff.1 (ht.routed id h hroute)
  single id id' h hroute hroute' :=
    Option.some.inj ((ht.routed id h hroute).symm.trans (ht.routed id' h hroute'))
  owned h r hr := by
    have hopen : l.subscriptions.isOpen h = true := by
      simp [Subscriptions.isOpen, Table.has, hr]
    obtain ⟨s, hs, hlive⟩ := hv.live h hopen
    exact ⟨s, hs, hlive.held, hlive.phase⟩
  closed hc := ⟨hv.registrations_eq_nil hc, ht.routes_eq_nil (hv.closed hc)⟩

/-! ### Deliveries -/

/-- A delivery that waits is for a stream that was confirmed under the id of its notification. -/
def Addressed (l : Link) (confirmed : List (Nat × SubscriptionId)) : Prop :=
  ∀ (d : Nat) (n : Notification) (h : Nat), l.deliveries[d]? = some ⟨n, .blocked h⟩ →
    (h, n.subscription) ∈ confirmed

/-- Where a delivery may go: to the stream that it waits for, or to the target of its notification
if it has not looked for one. -/
def Heads (l : Link) (x : Delivery) (h : Nat) : Prop :=
  x.stage = .blocked h ∨ x.stage = .fresh ∧ l.subscriptions.target? x.notification = some h

/-- What a turn does to a delivery `x` that is not done. -/
inductive Sent (l : Link) (d : Nat) (x : Delivery) : Link → Prop where
  | lost : Sent l d x (l.setDelivery d .done)
  | waits (h : Nat) (hh : l.Heads x h) : Sent l d x (l.setDelivery d (.blocked h))
  | taken (h : Nat) (hh : l.Heads x h) (hr : l.isReceiving h = true) :
      Sent l d x ((l.enqueue h x.notification.result).setDelivery d .done)

theorem sent_deliver {x : Delivery} {h : Nat} (hh : l.Heads x h) (d ahead : Nat) :
    l.Sent d x (l.deliver d h ahead x.notification.result) := by
  unfold deliver
  split
  · exact .lost
  · next hr =>
    split
    · exact .taken h hh (by simpa using hr)
    · split
      · exact .waits h hh
      · exact .lost

theorem sent_run (l : Link) (d : Nat) :
    l.run (.delivery d) = l ∨
      ∃ x, l.deliveries[d]? = some x ∧ l.Sent d x (l.run (.delivery d)) := by
  unfold run
  split
  · dsimp only
    unfold runDelivery
    split
    · exact .inl rfl
    · next x hx =>
      split
      · next hf =>
        refine .inr ⟨x, hx, ?_⟩
        split
        · next h ht => exact sent_deliver (.inr ⟨hf, ht⟩) d _
        · exact .lost
      · next h hb => exact .inr ⟨x, hx, sent_deliver (.inl hb) d _⟩
      · exact .inl rfl
  · exact .inl rfl

/-- A delivery goes where its notification belongs. -/
theorem Addressed.heads (ha : l.Addressed confirmed) (ht : l.Tied) (hk : l.Known confirmed)
    {d : Nat} {x : Delivery} (hx : l.deliveries[d]? = some x) {h : Nat} (hh : l.Heads x h) :
    (h, x.notification.subscription) ∈ confirmed := by
  obtain ⟨n, stage⟩ := x
  rcases hh with hb | ⟨_, htarget⟩
  · obtain rfl : stage = .blocked h := hb
    exact ha d n h hx
  · have hroute := Subscriptions.routes_of_target? htarget
    exact ((hk.serverId h n.subscription).1 (ht.routed n.subscription h hroute)).2

theorem Addressed.setDelivery (ha : l.Addressed confirmed) {d : Nat} {stage : DeliveryStage}
    (hstage : ∀ n h, (l.deliveries[d]?).map Delivery.notification = some n →
      stage = .blocked h → (h, n.subscription) ∈ confirmed) :
    (l.setDelivery d stage).Addressed confirmed := by
  intro i n h hi
  rw [deliveries_setDelivery] at hi
  split at hi
  · next he =>
    obtain ⟨x, hx, heq⟩ := Option.map_eq_some_iff.1 hi
    obtain ⟨rfl, rfl⟩ := Delivery.mk.inj heq
    exact hstage _ h (by rw [he, hx]; rfl) rfl
  · exact ha i n h hi

theorem Addressed.run (ha : l.Addressed confirmed) (ht : l.Tied) (hk : l.Known confirmed)
    (d : Nat) : (l.run (.delivery d)).Addressed confirmed := by
  rcases l.sent_run d with hsame | ⟨x, hx, hsent⟩
  · rw [hsame]
    exact ha
  · generalize l.run (.delivery d) = l' at hsent
    cases hsent with
    | lost => exact ha.setDelivery (by simp)
    | waits h hh =>
      refine ha.setDelivery fun n h' hn he => ?_
      rw [hx] at hn
      obtain rfl := Option.some.inj hn
      obtain rfl := DeliveryStage.blocked.inj he
      exact ha.heads ht hk hx hh
    | taken h _ _ => exact Addressed.setDelivery (l := l.enqueue h _) ha (by simp)

/-- What is no step of a delivery leaves deliveries alone, and takes at most something out of a
buffer at the front. -/
theorem apply_delivers (l : Link) (e : Event) :
    (l.apply e).deliveries = l.deliveries ∧ (∀ h, (l.apply e).bufferOf h <:+ l.bufferOf h) ∨
      (∃ n, e = .dispatch n) ∨ (∃ d, e = .dropDelivery d) ∨ ∃ d, e = .run (.delivery d) := by
  have hretains : ∀ {l' : Link}, l.Retains l' →
      l'.deliveries = l.deliveries ∧ ∀ h, l'.bufferOf h <:+ l.bufferOf h := fun hr =>
    ⟨hr.deliveries, fun h => hr.buffer h ▸ List.suffix_rfl⟩
  cases hspares : e.sparesBuffers with
  | true =>
    left
    by_cases hopen : ∃ request token, e = .act (.open request token)
    · obtain ⟨request, token, rfl⟩ := hopen
      constructor
      · unfold apply act «open»
        dsimp only
        split <;> split <;> rfl
      · intro h
        have hstr := (l.open_eq request token).2
        unfold bufferOf apply act
        dsimp only
        rw [hstr, Table.get?_put]
        split
        · exact List.nil_suffix
        · exact List.suffix_rfl
    · exact hretains (retains_apply (fun h => absurd h hopen) hspares)
  | false =>
    cases e with
    | act a =>
      left
      cases a with
      | poll handle =>
        unfold apply act
        dsimp only
        rcases l.poll_cases handle with ⟨_, hr⟩ | ⟨value, s, _, hbuffer, heq⟩
        · exact hretains hr
        · rw [heq]
          refine ⟨rfl, fun h => ?_⟩
          rw [bufferOf_setStream]
          split
          · next he =>
            rw [← he, hbuffer]
            exact List.suffix_cons _ _
          · exact List.suffix_rfl
      | _ => simp [Event.sparesBuffers] at hspares
    | dispatch n => exact .inr (.inl ⟨n, rfl⟩)
    | dropDelivery d => exact .inr (.inr (.inl ⟨d, rfl⟩))
    | run t =>
      cases t with
      | exchange k => simp [Event.sparesBuffers] at hspares
      | delivery d => exact .inr (.inr (.inr ⟨d, rfl⟩))
    | _ => simp [Event.sparesBuffers] at hspares

/-- An event keeps what waits addressed. -/
theorem addressed_apply (ha : l.Addressed confirmed) (ht : l.Tied) (hk : l.Known confirmed)
    (e : Event) : (l.apply e).Addressed confirmed := by
  rcases l.apply_delivers e with ⟨hsame, _⟩ | ⟨n, rfl⟩ | ⟨d, rfl⟩ | ⟨d, rfl⟩
  · intro d n h hx
    rw [hsame] at hx
    exact ha d n h hx
  · intro d m h hd
    have hdeliveries :
        (l.apply (.dispatch n)).deliveries = l.deliveries ++ [{ notification := n }] := rfl
    rw [hdeliveries, getElem?_concat] at hd
    split at hd
    · simp at hd
    · exact ha d m h hd
  · exact ha.setDelivery (by simp)
  · exact ha.run ht hk d

theorem Addressed.mono (ha : l.Addressed confirmed) {more : List (Nat × SubscriptionId)}
    (hsub : confirmed ⊆ more) : l.Addressed more :=
  fun d n h hd => hsub (ha d n h hd)

theorem addressed_after (buffer : Nat) (policy : Backpressure) (events : List Event) :
    ((ofOptions buffer policy).after events).Addressed
      ((ofOptions buffer policy).confirmedIn events) := by
  induction events using List.reverseRecOn with
  | nil => intro d n h hd; simp [after, ofOptions] at hd
  | append_singleton events e ih =>
    rw [after_concat, confirmedIn, trace_concat]
    exact (addressed_apply ih (tied_after buffer policy events) (known_after buffer policy events)
      e).mono (List.subset_append_left _ _)

/-! ### Buffers -/

/-- What an event makes of the buffer of a stream: something is taken out at the front, a turn of a
delivery puts one notification in at the end, or it stays as it is. -/
theorem bufferOf_apply (l : Link) (e : Event) (h : Nat) :
    (l.apply e).bufferOf h <:+ l.bufferOf h ∨
      ∃ d x, e = .run (.delivery d) ∧ l.deliveries[d]? = some x ∧ l.Heads x h ∧
        (l.apply e).bufferOf h = l.bufferOf h ++ [x.notification.result] := by
  rcases l.apply_delivers e with ⟨_, hsuffix⟩ | ⟨n, rfl⟩ | ⟨d, rfl⟩ | ⟨d, rfl⟩
  · exact .inl (hsuffix h)
  · exact .inl List.suffix_rfl
  · exact .inl List.suffix_rfl
  · unfold apply
    dsimp only
    rcases l.sent_run d with heq | ⟨x, hx, hsent⟩
    · rw [heq]
      exact .inl List.suffix_rfl
    · generalize l.run (.delivery d) = l' at hsent
      cases hsent with
      | lost => exact .inl List.suffix_rfl
      | waits _ _ => exact .inl List.suffix_rfl
      | taken handle hh hr =>
        have hget : ∃ s, l.streams.get? handle = some s := by
          unfold isReceiving at hr
          split at hr
          · next s hs => exact ⟨s, hs⟩
          · simp at hr
        obtain ⟨s, hs⟩ := hget
        have hbuffer : ((l.enqueue handle x.notification.result).setDelivery d
            .done).bufferOf h = _ := bufferOf_enqueue hs x.notification.result h
        rw [hbuffer]
        split
        · next he => exact .inr ⟨d, x, rfl, hx, he ▸ hh, rfl⟩
        · exact .inl List.suffix_rfl

/-- At all times the tables agree, and once the connection is gone they are empty for good. Whatever
is put into the buffer of a stream is a notification with the id under which the stream was
confirmed, and the stream is never confirmed under another. -/
theorem tables_consistent (buffer : Nat) (policy : Backpressure) (events more : List Event) :
    let link := (ofOptions buffer policy).after events
    link.Consistent ∧
    (link.subscriptions.closed = true → (link.after more).subscriptions.closed = true ∧
      (link.after more).subscriptions.registrations = [] ∧
      (link.after more).subscriptions.routes = []) ∧
    ∀ e h, (link.apply e).bufferOf h <:+ link.bufferOf h ∨
      ∃ d x, e = .run (.delivery d) ∧ link.deliveries[d]? = some x ∧
        (link.apply e).bufferOf h = link.bufferOf h ++ [x.notification.result] ∧
        ∀ id, (h, id) ∈ (ofOptions buffer policy).confirmedIn (events ++ more) ↔
          id = x.notification.subscription := by
  intro link
  have hconsistent : ∀ events, ((ofOptions buffer policy).after events).Consistent := fun events =>
    (tied_after buffer policy events).consistent (valid_after buffer policy events)
  refine ⟨hconsistent events, fun hc => ?_, fun e h => ?_⟩
  · have hmore := closed_after hc more
    refine ⟨hmore, Consistent.closed ?_ hmore⟩
    rw [← after_append]
    exact hconsistent (events ++ more)
  · refine (link.bufferOf_apply e h).imp_right ?_
    rintro ⟨d, x, he, hx, hh, hbuffer⟩
    refine ⟨d, x, he, hx, hbuffer, fun id => ?_⟩
    have hmem : (h, x.notification.subscription) ∈
        (ofOptions buffer policy).confirmedIn (events ++ more) := by
      rw [confirmedIn, trace_append]
      exact List.mem_append_left _ ((addressed_after buffer policy events).heads
        (tied_after buffer policy events) (known_after buffer policy events) hx hh)
    constructor
    · exact fun hid => (known_after buffer policy (events ++ more)).unique hid hmem
    · rintro rfl
      exact hmem

end NodeRpc.Link
