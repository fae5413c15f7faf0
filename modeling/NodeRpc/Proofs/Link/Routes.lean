import NodeRpc.Proofs.Link.Streams

/-!
# What the end of one subscription does to the others

Routes are kept by the ids of the node, and a node may give one id to two subscriptions. Whichever
way a subscription ends, its handle is released, and with the handle the route of its id goes,
whoever that route leads to by then. So a notification for another subscription still arrives if and
only if its id is not the one under which the ended subscription was confirmed.
-/

namespace NodeRpc

namespace Subscriptions

/-- The id under which the node has confirmed a registered handle. -/
def serverId? (s : Subscriptions) (handle : Nat) : Option SubscriptionId :=
  (s.registrations.get? handle).bind Registration.serverId

theorem routes_release (s : Subscriptions) (handle : Nat) (id : SubscriptionId) :
    (s.release handle).routes.get? id =
      if s.serverId? handle = some id then none else s.routes.get? id := by
  unfold release farewell? serverId?
  cases hr : s.registrations.get? handle with
  | none => simp
  | some r =>
    cases hid : r.serverId with
    | none => simp [hid]
    | some id' => simp [hid, Table.get?_erase]

/-- The target of a notification is where the route of its id leads, if the tag there is its own. -/
theorem target?_eq_some_iff {s : Subscriptions} {n : Notification} {target : Nat} :
    s.target? n = some target ↔ s.routes.get? n.subscription = some target ∧
      ∃ r, s.registrations.get? target = some r ∧ r.notification = n.method := by
  unfold target?
  cases s.routes.get? n.subscription with
  | none => simp
  | some handle =>
    dsimp only
    constructor
    · intro h
      split at h
      · next r hr =>
        split at h
        · next htag =>
          obtain rfl := Option.some.inj h
          exact ⟨rfl, r, hr, htag⟩
        · simp at h
      · simp at h
    · rintro ⟨he, r, hr, htag⟩
      obtain rfl := Option.some.inj he
      rw [hr]
      exact if_pos htag

theorem routes_of_target? {s : Subscriptions} {n : Notification} {target : Nat}
    (h : s.target? n = some target) : s.routes.get? n.subscription = some target :=
  (target?_eq_some_iff.1 h).1

theorem target?_isOpen {s : Subscriptions} {n : Notification} {target : Nat}
    (h : s.target? n = some target) : s.isOpen target = true := by
  obtain ⟨_, r, hr, _⟩ := target?_eq_some_iff.1 h
  exact Option.isSome_iff_exists.2 ⟨r, hr⟩

/-- Releasing one handle takes the target from the notifications with its id, and from no others
that go to another handle. -/
theorem target?_release {s : Subscriptions} {n : Notification} {handle target : Nat}
    (hne : handle ≠ target) (h : s.target? n = some target) :
    (s.release handle).target? n = some target ↔ s.serverId? handle ≠ some n.subscription := by
  have hreg : (s.release handle).registrations.get? target = s.registrations.get? target := by
    simp [release, Table.get?_erase, hne]
  obtain ⟨hroute, hregistered⟩ := target?_eq_some_iff.1 h
  rw [target?_eq_some_iff, routes_release, hreg]
  by_cases hid : s.serverId? handle = some n.subscription
  · simp [hid]
  · rw [if_neg hid]
    exact iff_of_true ⟨hroute, hregistered⟩ hid

end Subscriptions

namespace Link

/-! ### Handing a notification to a stream -/

/-- The link after `n` has been dispatched and its delivery has had its turn. -/
def handOver (l : Link) (n : Notification) : Link :=
  (l.dispatch n).run (.delivery l.deliveries.length)

/-- Dispatching `n` brings it into the buffer of the stream `handle`, or to wait for room there. -/
def HandsTo (l : Link) (n : Notification) (handle : Nat) : Prop :=
  (∃ s, l.streams.get? handle = some s ∧
    (l.handOver n).streams.get? handle = some { s with buffer := s.buffer ++ [n.result] }) ∨
  (l.handOver n).deliveries[l.deliveries.length]? = some ⟨n, .blocked handle⟩

/-- Whether one more notification to the stream `handle` would not be lost. -/
def admits (l : Link) (handle : Nat) : Bool :=
  l.isReceiving handle &&
    (l.hasRoom handle (blockedOn l.deliveries handle) || decide (l.policy = .pauseReads))

theorem getElem?_dispatch (l : Link) (n : Notification) :
    (l.dispatch n).deliveries[l.deliveries.length]? = some { notification := n } := by
  simp [dispatch]

/-- The first turn of a delivery looks for the target of its notification. -/
theorem handOver_eq (l : Link) (n : Notification) :
    l.handOver n =
      match l.subscriptions.target? n with
      | some handle => (l.dispatch n).deliver l.deliveries.length handle
          (blockedOn l.deliveries handle) n.result
      | none => (l.dispatch n).setDelivery l.deliveries.length .done := by
  have hcan : (l.dispatch n).canRun (.delivery l.deliveries.length) = true := by
    simp only [canRun, getElem?_dispatch]
  have hblocked : ∀ handle, blockedOn (l.dispatch n).deliveries handle =
      blockedOn l.deliveries handle := fun handle => by simp [blockedOn, dispatch]
  have hsub : (l.dispatch n).subscriptions = l.subscriptions := rfl
  unfold handOver run
  rw [if_pos hcan]
  cases ht : l.subscriptions.target? n <;>
    simp [runDelivery, getElem?_dispatch, hsub, hblocked, ht]

theorem getElem?_setDelivery (l : Link) (n : Notification) (stage : DeliveryStage) :
    ((l.dispatch n).setDelivery l.deliveries.length stage).deliveries[l.deliveries.length]? =
      some ⟨n, stage⟩ := by
  simp [dispatch, setDelivery]

theorem Stream.ne_grown (s : Stream) (value : Json) :
    s ≠ { s with buffer := s.buffer ++ [value] } := by
  intro h
  have hbuffer := congrArg Stream.buffer h
  simp at hbuffer

/-- Where the streams stay as they are, only a delivery that is blocked is handed over. -/
theorem handsTo_setDelivery {l : Link} {n : Notification} {stage : DeliveryStage}
    (h : l.handOver n = (l.dispatch n).setDelivery l.deliveries.length stage) (handle : Nat) :
    l.HandsTo n handle ↔ stage = .blocked handle := by
  have hstr : (l.handOver n).streams = l.streams := by rw [h]; rfl
  unfold HandsTo
  rw [hstr, h, getElem?_setDelivery]
  constructor
  · rintro (⟨s, hs, hgrown⟩ | hblocked)
    · rw [hs] at hgrown
      exact absurd (Option.some.inj hgrown) (Stream.ne_grown s _)
    · simpa using hblocked
  · rintro rfl
    exact .inr rfl

/-- What is put into a buffer is handed to the stream of that buffer. -/
theorem handsTo_enqueue {l : Link} {n : Notification} {target : Nat}
    (h : l.handOver n = ((l.dispatch n).enqueue target n.result).setDelivery
      l.deliveries.length .done) (hr : l.isReceiving target = true) (handle : Nat) :
    l.HandsTo n handle ↔ target = handle := by
  have hstr : (l.handOver n).streams.get? handle =
      if target = handle
      then (l.streams.get? handle).map fun s => { s with buffer := s.buffer ++ [n.result] }
      else l.streams.get? handle := by
    rw [h]
    exact Table.get?_update l.streams target handle
      fun s => { s with buffer := s.buffer ++ [n.result] }
  have hdone : (l.handOver n).deliveries[l.deliveries.length]? = some ⟨n, .done⟩ := by
    rw [h]
    exact getElem?_setDelivery l n .done
  unfold HandsTo
  rw [hstr, hdone]
  constructor
  · rintro (⟨s, hs, hgrown⟩ | hblocked)
    · by_cases heq : target = handle
      · exact heq
      · rw [if_neg heq, hs] at hgrown
        exact absurd (Option.some.inj hgrown) (Stream.ne_grown s _)
    · simp at hblocked
  · rintro rfl
    unfold isReceiving at hr
    split at hr
    · next s hs => exact .inl ⟨s, hs, by rw [if_pos rfl, hs]; rfl⟩
    · simp at hr

/-- A notification is handed to its target, if that does not lose it, and to nobody else. -/
theorem handsTo_iff (l : Link) (n : Notification) (handle : Nat) :
    l.HandsTo n handle ↔ l.subscriptions.target? n = some handle ∧ l.admits handle = true := by
  have h := l.handOver_eq n
  cases ht : l.subscriptions.target? n with
  | none =>
    rw [ht] at h
    rw [handsTo_setDelivery h]
    simp
  | some target =>
    rw [ht] at h
    have hrec : (l.dispatch n).isReceiving target = l.isReceiving target := rfl
    have hroom : ∀ ahead, (l.dispatch n).hasRoom target ahead = l.hasRoom target ahead :=
      fun _ => rfl
    have hpolicy : (l.dispatch n).policy = l.policy := rfl
    unfold deliver at h
    dsimp only at h
    rw [hrec, hroom, hpolicy] at h
    unfold admits
    cases hr : l.isReceiving target with
    | false =>
      simp only [hr, Bool.not_false, if_true] at h
      rw [handsTo_setDelivery h]
      simp only [Option.some.injEq, reduceCtorEq, false_iff, not_and]
      rintro rfl
      simp [hr]
    | true =>
      cases hm : l.hasRoom target (blockedOn l.deliveries target) with
      | false =>
        cases hp : l.policy with
        | pauseReads =>
          simp only [hr, hm, hp, Bool.not_true, Bool.false_eq_true, if_false] at h
          rw [handsTo_setDelivery h]
          simp only [DeliveryStage.blocked.injEq, Option.some.injEq]
          refine ⟨fun heq => ⟨heq, ?_⟩, And.left⟩
          subst heq
          simp [hr]
        | dropNewest =>
          simp only [hr, hm, hp, Bool.not_true, Bool.false_eq_true, if_false] at h
          rw [handsTo_setDelivery h]
          simp only [Option.some.injEq, reduceCtorEq, false_iff, not_and]
          rintro rfl
          simp [hm]
      | true =>
        simp only [hr, hm, Bool.not_true, Bool.false_eq_true, if_false, if_true] at h
        rw [handsTo_enqueue h hr]
        simp only [Option.some.injEq]
        refine ⟨fun heq => ⟨heq, ?_⟩, And.left⟩
        subst heq
        simp [hr, hm]

/-! ### The end of a subscription -/

/-- The ways in which a subscription ends. -/
inductive Ending where
  | close (telling : Bool)
  /-- Its token is cancelled, and the stream is polled. -/
  | cancel
  | drop (telling : Bool)
  | release
  deriving DecidableEq

/-- The link after the subscription `handle` has ended in a way. -/
def endBy (l : Link) (handle : Nat) : Ending → Link
  | .close telling => l.closeStream handle telling
  | .cancel =>
    match l.streams.get? handle with
    | some s => ((l.cancel s.parent).poll handle).2
    | none => l
  | .drop telling => l.dropStream handle telling
  | .release => (l.release handle).2

/-- What the end of the subscription `handle` leaves alone: the other streams, and what waits for
them. -/
structure Spares (l l' : Link) (handle : Nat) : Prop where
  capacity : l'.capacity = l.capacity
  policy : l'.policy = l.policy
  deliveries : l'.deliveries = l.deliveries
  streams : ∀ other, handle ≠ other → l'.streams.get? other = l.streams.get? other

theorem closeStream_spares (l : Link) (handle : Nat) (telling : Bool) :
    l.Spares (l.closeStream handle telling) handle := by
  by_cases h : ∀ s, l.streams.get? handle = some s → s.phase = .closed
  · rw [l.closeStream_of_closed handle telling h]
    exact ⟨rfl, rfl, rfl, fun _ _ => rfl⟩
  · push Not at h
    obtain ⟨s, hs, hp⟩ := h
    rw [l.closeStream_frame handle telling hs hp]
    refine ⟨rfl, rfl, rfl, fun other hne => ?_⟩
    dsimp only
    rw [Table.get?_put, if_neg hne]

/-- Closing a stream releases its handle: where it does nothing, the handle is released already. -/
theorem Valid.subscriptions_closeStream {l : Link} (hv : l.Valid) (handle : Nat) (telling : Bool) :
    (l.closeStream handle telling).subscriptions = l.subscriptions.release handle := by
  by_cases h : ∀ s, l.streams.get? handle = some s → s.phase = .closed
  · rw [l.closeStream_of_closed handle telling h]
    refine (Subscriptions.release_of_not_isOpen ?_).symm
    cases hopen : l.subscriptions.isOpen handle with
    | false => rfl
    | true =>
      obtain ⟨s, hs, hlive⟩ := hv.live handle hopen
      exact absurd (h s hs) hlive.phase
  · push Not at h
    obtain ⟨s, hs, hp⟩ := h
    rw [l.closeStream_frame handle telling hs hp]

theorem mem_cancelled_cancelStreams (handles : List Nat) (l : Link) {t : Token}
    (h : t ∈ l.calls.cancelled ∨ ∃ handle ∈ handles, t = .stream handle) :
    t ∈ (handles.foldl cancelStream l).calls.cancelled := by
  induction handles generalizing l with
  | nil => simpa using h
  | cons handle handles ih =>
    refine ih (l.cancelStream handle) ?_
    rcases h with h | ⟨other, hmem, rfl⟩
    · exact .inl (List.mem_cons_of_mem _ h)
    · rcases List.mem_cons.1 hmem with rfl | hmem
      · exact .inl List.mem_cons_self
      · exact .inr ⟨other, hmem, rfl⟩

/-- Cancelling the token of a stream cancels the stream. -/
theorem isCancelled_cancel_parent {l : Link} {handle : Nat} {s : Stream}
    (hs : l.streams.get? handle = some s) :
    (l.cancel s.parent).calls.isCancelled (.stream handle) = true := by
  have hbelow : handle ∈ l.below s.parent := by
    refine List.mem_map.2 ⟨(handle, s), List.mem_reverse.2 (List.mem_filter.2 ?_), rfl⟩
    exact ⟨Table.mem_of_get? hs, by simp⟩
  have h := mem_cancelled_cancelStreams (l.below s.parent) l (.inr ⟨handle, hbelow, rfl⟩)
  exact List.contains_iff_mem.2 (List.mem_cons_of_mem _ h)

/-- A stream whose token has been cancelled is closed by the next poll. -/
theorem poll_cancel {l : Link} {handle : Nat} {s : Stream}
    (hs : l.streams.get? handle = some s) :
    ((l.cancel s.parent).poll handle).2 = (l.cancel s.parent).closeStream handle true := by
  have hs' : (l.cancel s.parent).streams.get? handle = some s := by
    rw [cancel_frame]
    exact hs
  unfold poll
  rw [hs']
  dsimp only
  by_cases hp : s.phase = .closed
  · rw [if_pos hp, closeStream_of_closed]
    intro s' hs''
    rw [hs'] at hs''
    rwa [← Option.some.inj hs'']
  · rw [if_neg hp, if_pos (isCancelled_cancel_parent hs)]

theorem endBy_spares (l : Link) (handle : Nat) (ending : Ending) :
    l.Spares (l.endBy handle ending) handle := by
  cases ending with
  | close telling => exact l.closeStream_spares handle telling
  | cancel =>
    unfold endBy
    dsimp only
    split
    · next s hs =>
      rw [poll_cancel hs]
      have h := (l.cancel s.parent).closeStream_spares handle true
      have hframe := l.cancel_frame s.parent
      refine ⟨h.capacity.trans (by rw [hframe]), h.policy.trans (by rw [hframe]),
        h.deliveries.trans (by rw [hframe]), fun other hne => (h.streams other hne).trans ?_⟩
      rw [hframe]
    · exact ⟨rfl, rfl, rfl, fun _ _ => rfl⟩
  | drop telling =>
    have h := l.closeStream_spares handle telling
    refine ⟨h.capacity, h.policy, h.deliveries, fun other hne => ?_⟩
    unfold endBy dropStream
    dsimp only
    rw [Table.get?_update, if_neg hne]
    exact h.streams other hne
  | release => exact ⟨rfl, rfl, rfl, fun _ _ => rfl⟩

/-- Whichever way a subscription ends, its handle is released. -/
theorem Valid.subscriptions_endBy {l : Link} (hv : l.Valid) (handle : Nat) (ending : Ending) :
    (l.endBy handle ending).subscriptions = l.subscriptions.release handle := by
  cases ending with
  | close telling => exact hv.subscriptions_closeStream handle telling
  | cancel =>
    unfold endBy
    dsimp only
    split
    · next s hs =>
      have hv' := hv.narrow (l.cancel_narrows s.parent)
      rw [poll_cancel hs, hv'.subscriptions_closeStream handle true, cancel_frame]
    · next hnone =>
      refine (Subscriptions.release_of_not_isOpen ?_).symm
      cases hopen : l.subscriptions.isOpen handle with
      | false => rfl
      | true =>
        obtain ⟨s, hs, _⟩ := hv.live handle hopen
        rw [hnone] at hs
        simp at hs
  | drop telling => exact hv.subscriptions_closeStream handle telling
  | release => rfl

theorem Spares.admits {l l' : Link} {handle other : Nat} (h : l.Spares l' handle)
    (hne : handle ≠ other) : l'.admits other = l.admits other := by
  unfold Link.admits isReceiving hasRoom
  rw [h.streams other hne, h.capacity, h.policy, h.deliveries]

/-- After one subscription has ended, a notification that was for another is still handed to it if
and only if its id is not the one under which the node had confirmed the first. -/
theorem handsTo_endBy_iff (buffer : Nat) (policy : Backpressure) (events : List Event)
    {handle other : Nat} (hne : handle ≠ other) (n : Notification) (ending : Ending)
    (h : ((ofOptions buffer policy).after events).HandsTo n other) :
    (((ofOptions buffer policy).after events).endBy handle ending).HandsTo n other ↔
      ((ofOptions buffer policy).after events).subscriptions.serverId? handle ≠
        some n.subscription := by
  have hv := valid_after buffer policy events
  generalize (ofOptions buffer policy).after events = l at hv h ⊢
  obtain ⟨htarget, hadmits⟩ := (l.handsTo_iff n other).1 h
  rw [handsTo_iff, hv.subscriptions_endBy, (l.endBy_spares handle ending).admits hne,
    Subscriptions.target?_release hne htarget]
  exact and_iff_left hadmits

/-- Two subscriptions, which the node confirms under two ids. -/
def confirmedUnder (first second : Int) : List Event :=
  let request : SubscriptionRequest :=
    ⟨⟨"slotSubscribe", "slotUnsubscribe", "slotNotification"⟩, .arr []⟩
  [.act (.open request (.caller 0)), .act (.open request (.caller 1)), .run (.exchange 0),
    .run (.exchange 1), .route ⟨1, .ok (.int first)⟩, .route ⟨2, .ok (.int second)⟩]

/-- Under two ids, the notifications of the second stay when the first is closed. -/
theorem handsTo_endBy_of_two_ids :
    (((ofOptions 1 .pauseReads).after (confirmedUnder 7 8)).endBy 1 (.close true)).HandsTo
      ⟨"slotNotification", .number 8, .int 1⟩ 2 := by
  have h : ((ofOptions 1 .pauseReads).after (confirmedUnder 7 8)).HandsTo
      ⟨"slotNotification", .number 8, .int 1⟩ 2 := (handsTo_iff _ _ _).2 (by decide)
  exact (handsTo_endBy_iff 1 .pauseReads (confirmedUnder 7 8) (by decide) _ (.close true) h).2
    (by decide)

/-- Under one id, the end of the first takes the notifications from the second. -/
theorem lost_notification :
    ¬ ∀ (buffer : Nat) (policy : Backpressure) (events : List Event) (handle other : Nat)
      (n : Notification) (ending : Ending), handle ≠ other →
      ((ofOptions buffer policy).after events).HandsTo n other →
      (((ofOptions buffer policy).after events).endBy handle ending).HandsTo n other := by
  intro h
  have hlost := h 1 .pauseReads (confirmedUnder 7 7) 1 2 ⟨"slotNotification", .number 7, .int 1⟩
    (.close true) (by decide) ((handsTo_iff _ _ _).2 (by decide))
  rw [handsTo_iff] at hlost
  revert hlost
  decide

end Link

end NodeRpc
