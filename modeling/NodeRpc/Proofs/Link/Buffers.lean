import NodeRpc.Proofs.Calls.Steps
import NodeRpc.Proofs.Link.Streams

/-!
# What streams hold

The buffer of a stream changes when its consumer takes something out of it and when a delivery puts
something in. Everything else `Retains` what is held, and takes back no cancellation.
-/

namespace NodeRpc

namespace Link

variable {l l' : Link}

/-- What the stream `handle` holds. -/
def bufferOf (l : Link) (handle : Nat) : List Json :=
  ((l.streams.get? handle).map Stream.buffer).getD []

/-- Nothing is taken out of a buffer or delivered, and what is cancelled stays so. -/
structure Retains (l l' : Link) : Prop where
  capacity : l'.capacity = l.capacity
  policy : l'.policy = l.policy
  deliveries : l'.deliveries = l.deliveries
  buffer : ∀ h, l'.bufferOf h = l.bufferOf h
  cancelled : ∀ t, l.calls.isCancelled t = true → l'.calls.isCancelled t = true

theorem Retains.refl (l : Link) : l.Retains l := ⟨rfl, rfl, rfl, fun _ => rfl, fun _ h => h⟩

theorem Retains.trans {l'' : Link} (h : l.Retains l') (h' : l'.Retains l'') : l.Retains l'' :=
  ⟨h'.capacity.trans h.capacity, h'.policy.trans h.policy, h'.deliveries.trans h.deliveries,
    fun i => (h'.buffer i).trans (h.buffer i), fun t ht => h'.cancelled t (h.cancelled t ht)⟩

/-- Calls, what they are for, subscriptions and the time do not matter to what is held. -/
theorem retains_of_calls (l : Link) {c : Calls} (roles : List Role) (subs : Subscriptions)
    (now : Nat) (hc : ∀ t, l.calls.isCancelled t = true → c.isCancelled t = true) :
    l.Retains { l with calls := c, roles, subscriptions := subs, now } :=
  ⟨rfl, rfl, rfl, fun _ => rfl, hc⟩

/-- So what happens to the calls alone does not. -/
theorem apply_calls_retains (l : Link) (e : Calls.Event) :
    l.Retains { l with calls := l.calls.apply e } :=
  l.retains_of_calls l.roles l.subscriptions l.now fun t ht =>
    (Calls.isCancelled_apply l.calls e t).2 (.inl ht)

theorem bufferOf_setStream (l : Link) (handle : Nat) (s : Stream) (h : Nat) :
    (l.setStream handle s).bufferOf h = if handle = h then s.buffer else l.bufferOf h := by
  unfold bufferOf setStream
  dsimp only
  rw [Table.get?_put]
  split <;> rfl

theorem bufferOf_update (l : Link) (handle : Nat) (f : Stream → Stream) (h : Nat) :
    bufferOf { l with streams := l.streams.update handle f } h =
      if handle = h then ((l.streams.get? h).map fun s => (f s).buffer).getD []
      else l.bufferOf h := by
  unfold bufferOf
  dsimp only
  rw [Table.get?_update]
  split <;> simp [Function.comp_def]

theorem retains_setStream {handle : Nat} {s t : Stream} (hs : l.streams.get? handle = some s)
    (hbuffer : t.buffer = s.buffer) : l.Retains (l.setStream handle t) := by
  refine ⟨rfl, rfl, rfl, fun h => ?_, fun _ ht => ht⟩
  rw [bufferOf_setStream]
  split
  · next he =>
    subst he
    simp [bufferOf, hs, hbuffer]
  · rfl

theorem retains_update (l : Link) (handle : Nat) {f : Stream → Stream}
    (hbuffer : ∀ s, (f s).buffer = s.buffer) :
    l.Retains { l with streams := l.streams.update handle f } := by
  refine ⟨rfl, rfl, rfl, fun h => ?_, fun _ ht => ht⟩
  rw [bufferOf_update]
  split
  · simp [bufferOf, hbuffer]
  · rfl

theorem make_retains (l : Link) (calls : List Call) (batched : Bool) (token : Token) (role : Role) :
    l.Retains (l.make calls batched token role) :=
  l.retains_of_calls (l.roles ++ [role]) l.subscriptions l.now fun _ h => h

theorem sayFarewell_retains (l : Link) (farewell : Option (SubscriptionId × String)) :
    l.Retains (l.sayFarewell farewell) := by
  unfold sayFarewell
  split
  · split
    · exact .refl l
    · exact l.make_retains _ _ _ _
  · exact .refl l

theorem release_retains (l : Link) (handle : Nat) : l.Retains (l.release handle).2 :=
  l.retains_of_calls l.roles (l.subscriptions.release handle) l.now fun _ h => h

theorem closeStream_retains (l : Link) (handle : Nat) (telling : Bool) :
    l.Retains (l.closeStream handle telling) := by
  unfold closeStream
  split
  · exact .refl l
  · next s hs =>
    split
    · exact .refl l
    · have h := (l.apply_calls_retains (.cancel (.stream handle))).trans
        (retains_setStream (t := { s with phase := .closed, receiving := false }) hs rfl)
      have hrelease := h.trans (release_retains _ handle)
      split
      · exact hrelease.trans (sayFarewell_retains _ _)
      · exact hrelease

theorem dropStream_retains (l : Link) (handle : Nat) (telling : Bool) :
    l.Retains (l.dropStream handle telling) :=
  (l.closeStream_retains handle telling).trans (retains_update _ handle fun _ => rfl)

theorem cancel_retains (l : Link) (t : Token) : l.Retains (l.cancel t) := by
  have hstreams : ∀ (handles : List Nat) (l : Link), l.Retains (handles.foldl cancelStream l) := by
    intro handles
    induction handles with
    | nil => exact .refl
    | cons handle handles ih =>
      exact fun l => (l.apply_calls_retains (.cancel (.stream handle))).trans (ih _)
  exact (hstreams (l.below t) l).trans (apply_calls_retains _ (.cancel t))

theorem answer_retains (l : Link) (i : Nat) (o : Outcome) : l.Retains (l.answer i o) := by
  have hconfirmed : ∀ handle u o' l', l.confirmed handle u o = (o', l') → l.Retains l' := by
    intro handle u o' l' heq
    unfold confirmed at heq
    split at heq
    · obtain ⟨_, rfl⟩ := Prod.mk.inj heq
      exact .refl l
    · split at heq
      · obtain ⟨_, rfl⟩ := Prod.mk.inj heq
        exact .refl l
      · split at heq <;> obtain ⟨_, rfl⟩ := Prod.mk.inj heq
        · exact l.retains_of_calls l.roles _ l.now fun _ h => h
        · exact l.sayFarewell_retains _
  unfold answer
  split
  next o' l' heq =>
  have h : l.Retains l' := by
    split at heq
    · exact hconfirmed _ _ _ _ heq
    · obtain ⟨_, rfl⟩ := Prod.mk.inj heq
      exact .refl l
  refine h.trans (l'.retains_of_calls l'.roles l'.subscriptions l'.now fun t ht => ?_)
  unfold Calls.isCancelled at ht ⊢
  rwa [Calls.answer_frame]

theorem answerAll_retains (as : List (Nat × Outcome)) (l : Link) : l.Retains (l.answerAll as) := by
  induction as generalizing l with
  | nil => exact .refl l
  | cons a as ih => exact (l.answer_retains a.1 a.2).trans (ih _)

theorem opened_retains (l : Link) (handle : Nat) (o : Outcome) :
    l.Retains (l.opened handle o) := by
  unfold opened
  dsimp only
  split
  · exact l.retains_update handle fun _ => rfl
  · exact ((l.release_retains handle).trans (sayFarewell_retains _ _)).trans
      (retains_update _ handle fun _ => rfl)

theorem runExchange_retains (l : Link) (k : Nat) : l.Retains (l.runExchange k) := by
  have hdeadline : l.Retains (l.setDeadline k) := by
    unfold setDeadline
    split
    · exact l.retains_of_calls _ l.subscriptions l.now fun _ h => h
    · exact .refl l
  have hafter : ∀ l : Link, l.Retains (l.afterTurn k) := by
    intro l
    unfold afterTurn
    split
    · split
      · exact l.opened_retains _ _
      · exact .refl l
    · split
      · exact l.apply_calls_retains (.drop k)
      · exact .refl l
    · exact .refl l
  exact (hdeadline.trans (apply_calls_retains _ (.run k))).trans (hafter _)

/-- Opening makes a stream that holds nothing, and no other stream has its handle. -/
theorem open_retains (hnew : l.streams.get? l.subscriptions.nextHandle = none)
    (request : SubscriptionRequest) (parent : Token) : l.Retains (l.open request parent) := by
  have hput : ∀ (l : Link) (h : Nat) (s : Stream), l.streams.get? h = none → s.buffer = [] →
      l.Retains (l.setStream h s) := by
    refine fun l h s hnone hs => ⟨rfl, rfl, rfl, fun i => ?_, fun _ ht => ht⟩
    rw [bufferOf_setStream]
    split
    · next he => rw [hs, ← he, bufferOf, hnone]; rfl
    · rfl
  have hregister : ∀ l : Link,
      l.Retains { l with subscriptions := l.subscriptions.register request.names } := fun l =>
    l.retains_of_calls l.roles _ l.now fun _ h => h
  unfold «open»
  dsimp only
  split <;> split
  · exact ((hregister l).trans (apply_calls_retains _ (.cancel _))).trans (hput _ _ _ hnew rfl)
  · exact (((hregister l).trans (apply_calls_retains _ (.cancel _))).trans
      (hput _ _ _ hnew rfl)).trans (make_retains _ _ _ _ _)
  · exact (hregister l).trans (hput _ _ _ hnew rfl)
  · exact ((hregister l).trans (hput _ _ _ hnew rfl)).trans (make_retains _ _ _ _ _)

/-- Whether an event takes nothing out of a buffer and delivers nothing. -/
def Event.sparesBuffers : Event → Bool
  | .act (.poll _) | .dispatch _ | .run (.delivery _) | .dropDelivery _ => false
  | _ => true

/-- What spares the buffers retains what is held; opening does if the new handle has no stream. -/
theorem retains_apply {e : Event} (hnew : (∃ request token, e = .act (.open request token)) →
      l.streams.get? l.subscriptions.nextHandle = none)
    (he : e.sparesBuffers = true) : l.Retains (l.apply e) := by
  cases e with
  | act a =>
    cases a with
    | call call token => exact l.make_retains _ _ _ _
    | batch calls token => exact l.make_retains _ _ _ _
    | «open» request token => exact open_retains (hnew ⟨request, token, rfl⟩) request token
    | poll handle => simp [Event.sparesBuffers] at he
    | closeStream handle telling => exact l.closeStream_retains handle telling
    | dropStream handle telling => exact l.dropStream_retains handle telling
    | cancel token => exact l.cancel_retains token
    | drop k => exact l.apply_calls_retains (.drop k)
    | advance ms => exact l.retains_of_calls l.roles l.subscriptions _ fun _ h => h
  | release handle => exact l.release_retains handle
  | unsubscribe id method => exact l.make_retains _ _ _ _
  | run t =>
    cases t with
    | exchange k =>
      unfold apply run
      dsimp only
      split
      · exact l.runExchange_retains k
      · exact .refl l
    | delivery d => simp [Event.sparesBuffers] at he
  | route r => exact answerAll_retains _ l
  | routeBatch responses => exact answerAll_retains _ l
  | reject error => exact answerAll_retains _ l
  | closeCalls => exact l.apply_calls_retains .close
  | closeSubscriptions => exact l.retains_of_calls l.roles _ l.now fun _ h => h
  | sink sink => exact l.apply_calls_retains (.sink sink)
  | resume k reply => exact l.apply_calls_retains (.resume k reply)
  | dispatch n => simp [Event.sparesBuffers] at he
  | dropDelivery d => simp [Event.sparesBuffers] at he

end Link

end NodeRpc
