import NodeRpc.Proofs.Session.Histories

/-!
# What is dispatched, yielded and held

The accounts of a subscription. What the reader dispatches to it is told from outside: the
notifications with its tag, and with the id that its subscribe call was answered with before, as
long as its stream is live. What it yields is what its polls take out, and what it holds is in its
buffer or in the hands of the reader.

Which subscriptions are live can be told by the tables too (`Reads.isLive_eq`), and one that has
ended has ended for good (`Onward.unended`).
-/

namespace NodeRpc

/-- What a poll takes out. -/
def Polled.item? : Polled → Option Json
  | .item value => some value
  | _ => none

/-- Whether a stream goes on: it is not closed, and opening it has not failed. -/
def Stream.goesOn (x : Stream) : Bool :=
  x.phase ≠ .closed &&
    match x.confirmation with
    | some (.error _) => false
    | _ => true

theorem Stream.goesOn_iff {x : Stream} : x.goesOn = true ↔
    x.phase ≠ .closed ∧ ∀ cause, x.confirmation ≠ some (.error cause) := by
  unfold goesOn
  split <;> simp_all

namespace Session

variable {s : Session}

/-! ### Accounts -/

/-- Whether the subscription `h` is neither closed nor cancelled nor lost: its stream has not ended
and has not been cancelled, its opening has not failed, and the reader has not stopped. -/
def isLive (s : Session) (h : Nat) : Bool :=
  s.reader ≠ .stopped && !s.link.calls.isCancelled (.stream h) &&
    (s.link.streams.get? h).any Stream.goesOn

/-- What an event dispatches to the subscription `h` with the tag `tag`, after some subscriptions
were confirmed: the payload of a notification under its id, and how many undelivered items are held
when it is dispatched. -/
def dispatched? (s : Session) (h : Nat) (tag : String) (confirmed : List (Nat × SubscriptionId))
    (e : Event) : Option (Json × Nat) :=
  (s.takenUp? e).bind fun n =>
    if s.isLive h ∧ (h, n.subscription) ∈ confirmed ∧ n.method = tag then
      some (n.result, (s.link.bufferOf h).length)
    else none

/-- What a run dispatches to the subscription `h` with the tag `tag`, in wire order, after some
subscriptions were confirmed. -/
def dispatched (s : Session) (h : Nat) (tag : String) (confirmed : List (Nat × SubscriptionId)) :
    List Event → List (Json × Nat)
  | [] => []
  | e :: events => (s.dispatched? h tag confirmed e).toList ++
      (s.apply e).dispatched h tag (confirmed ++ s.confirms e) events

theorem dispatched_concat (s : Session) (h : Nat) (tag : String)
    (confirmed : List (Nat × SubscriptionId)) (events : List Event) (e : Event) :
    s.dispatched h tag confirmed (events ++ [e]) = s.dispatched h tag confirmed events ++
      ((s.after events).dispatched? h tag (confirmed ++ s.confirmed events) e).toList := by
  induction events generalizing s confirmed with
  | nil => simp [dispatched, after, Session.confirmed, trace]
  | cons a events ih =>
    rw [List.cons_append, dispatched, ih, dispatched, List.append_assoc, List.append_assoc]
    rfl

/-- What an event yields to the consumer of the subscription `h`. -/
def yields? (s : Session) (h : Nat) : Event → Option Json
  | .act (.poll handle) => if handle = h then (s.link.poll handle).1.item? else none
  | _ => none

/-- What a run yields to the consumer of the subscription `h`. -/
def yielded (s : Session) (h : Nat) (events : List Event) : List Json :=
  s.trace (fun s e => (s.yields? h e).toList) events

/-- What the reader waits to put into the buffer of the subscription `h`. -/
def waiting (s : Session) (h : Nat) : Option Json :=
  match s.reader with
  | .delivering d =>
    match s.link.deliveries[d]? with
    | some ⟨n, .blocked handle⟩ => if handle = h then some n.result else none
    | _ => none
  | _ => none

/-- What is dispatched to the subscription `h` and not yet yielded. -/
def held (s : Session) (h : Nat) : List Json := s.link.bufferOf h ++ (s.waiting h).toList

/-- The dispatched payloads that are not dropped when buffers hold `capacity`. -/
def kept (policy : Backpressure) (capacity : Nat) (dispatched : List (Json × Nat)) : List Json :=
  match policy with
  | .pauseReads => dispatched.map Prod.fst
  | .dropNewest => (dispatched.filter fun p => p.2 ≠ capacity).map Prod.fst

theorem kept_append (policy : Backpressure) (capacity : Nat) (ds ds' : List (Json × Nat)) :
    kept policy capacity (ds ++ ds') = kept policy capacity ds ++ kept policy capacity ds' := by
  cases policy <;> simp [kept]

theorem waiting_of_reader (hreader : ∀ d, s.reader ≠ .delivering d) (h : Nat) :
    s.waiting h = none := by
  unfold waiting
  split
  · next d hd => exact absurd hd (hreader d)
  · rfl

theorem waiting_congr {s' : Session} (hreader : s'.reader = s.reader)
    (hdeliveries : s'.link.deliveries = s.link.deliveries) (h : Nat) :
    s'.waiting h = s.waiting h := by
  unfold waiting
  rw [hreader, hdeliveries]

theorem waiting_of_blocked {d i : Nat} {n : Notification} (hreader : s.reader = .delivering d)
    (hd : s.link.deliveries[d]? = some ⟨n, .blocked i⟩) (h : Nat) :
    s.waiting h = if i = h then some n.result else none := by
  unfold waiting
  rw [hreader]
  dsimp only
  rw [hd]

/-! ### Live subscriptions -/

/-- Live are the subscriptions that are registered and not cancelled. -/
theorem Reads.isLive_eq (hs : s.Reads) (h : Nat) :
    s.isLive h = (s.link.subscriptions.isOpen h && !s.link.calls.isCancelled (.stream h)) := by
  unfold isLive
  cases hc : s.link.calls.isCancelled (.stream h) with
  | true => simp
  | false =>
    cases ho : s.link.subscriptions.isOpen h with
    | true =>
      obtain ⟨x, hget, hlive⟩ := hs.sound.valid.live h ho
      have hgoesOn : x.goesOn = true := Stream.goesOn_iff.2 ⟨hlive.phase, hlive.confirmation⟩
      have hreader : s.reader ≠ .stopped := fun hr => by
        simpa [ho] using hs.sound.valid.closed (hs.closed.2 hr) h
      simp [hget, hgoesOn, hreader]
    | false =>
      -- what is not registered any more was cancelled, could not be opened, or is lost
      cases hget : s.link.streams.get? h with
      | none => simp
      | some x =>
        have hends : s.link.subscriptions.closed = false → x.goesOn = false := by
          intro hopen
          obtain ⟨cause, hfailed⟩ := hs.sound.streamed.ended h x hget ho hopen hc
          simpa using fun hgoesOn => (Stream.goesOn_iff.1 hgoesOn).2 cause hfailed
        by_cases hr : s.reader = .stopped
        · simp [hr]
        · simp [hends (by simpa using fun hclosed => hr (hs.closed.1 hclosed))]

/-! ### What a turn leaves as it was -/

/-- What every turn keeps: policy and capacity, and that handles and cancellations are final. -/
structure Onward (s s' : Session) : Prop where
  policy : s'.link.policy = s.link.policy
  capacity : s'.link.capacity = s.link.capacity
  subscriptions : s.link.subscriptions.Onward s'.link.subscriptions
  cancelled : ∀ t, s.link.calls.isCancelled t = true → s'.link.calls.isCancelled t = true

/-- What a turn keeps is said of the connection that it leaves. -/
theorem onward_of_link {s' : Session} {l : Link} (hlink : s'.link = l)
    (hpolicy : l.policy = s.link.policy) (hcapacity : l.capacity = s.link.capacity)
    (hsubscriptions : s.link.subscriptions.Onward l.subscriptions)
    (hcancelled : ∀ t, s.link.calls.isCancelled t = true → l.calls.isCancelled t = true) :
    s.Onward s' where
  policy := hlink ▸ hpolicy
  capacity := hlink ▸ hcapacity
  subscriptions := hlink ▸ hsubscriptions
  cancelled := hlink ▸ hcancelled

/-- A delivery leaves calls and subscriptions alone. -/
theorem onward_of_delivery {s' : Session} {l : Link} {d : Nat}
    (hlink : s'.link = l.run (.delivery d)) (hpolicy : l.policy = s.link.policy)
    (hcapacity : l.capacity = s.link.capacity) (hsubscriptions : l.subscriptions =
      s.link.subscriptions) (hcalls : l.calls = s.link.calls) : s.Onward s' := by
  have hframe : l.run (.delivery d) = l ∨ l.run (.delivery d) = l.runDelivery d := by
    unfold Link.run
    split
    · exact .inr rfl
    · exact .inl rfl
  rcases hframe with h | h
  · exact onward_of_link (hlink.trans h) hpolicy hcapacity (hsubscriptions ▸ .refl _)
      fun _ ht => hcalls ▸ ht
  · rw [Link.runDelivery_frame] at h
    exact onward_of_link (hlink.trans h) hpolicy hcapacity (hsubscriptions ▸ .refl _)
      fun _ ht => hcalls ▸ ht

theorem Turn.onward {e : Event} {s' : Session} (ht : Turn s e s') (hs : s.Reads) : s.Onward s' := by
  have hclose : ∀ t, s.link.calls.isCancelled t = true → s.link.calls.close.isCancelled t = true :=
    fun t h => (Calls.isCancelled_apply s.link.calls .close t).2 (.inl h)
  cases ht with
  | idle _ _ hlink _ => exact onward_of_link hlink rfl rfl (.refl _) fun _ h => h
  | event e' hplain _ _ hlink _ =>
    have h := Link.retains_apply (fun _ => hs.unopened (Nat.le_refl _))
      (Link.Event.plain_iff.1 hplain).1
    exact onward_of_link hlink h.policy h.capacity (s.link.onward_apply e') h.cancelled
  | poll i _ hlink _ =>
    have hsub := (s.link.poll_moved i).onward
    rcases s.link.poll_cases i with ⟨_, h⟩ | ⟨_, _, _, _, heq⟩
    · exact onward_of_link hlink h.policy h.capacity hsub h.cancelled
    · rw [heq] at hlink hsub
      exact onward_of_link hlink rfl rfl hsub fun _ h => h
  | handOver n _ _ _ hlink _ => exact onward_of_delivery hlink rfl rfl rfl rfl
  | again d _ _ hlink _ => exact onward_of_delivery hlink rfl rfl rfl rfl
  | stop _ _ _ hlink _ =>
    exact onward_of_link hlink rfl rfl s.link.subscriptions.onward_close hclose
  | giveUp d _ _ hlink _ =>
    exact onward_of_link hlink rfl rfl s.link.subscriptions.onward_close hclose

/-- The subscription `h` has not ended: it is live, or not even opened. -/
def Unended (s : Session) (h : Nat) : Prop :=
  s.isLive h = true ∨ s.link.subscriptions.nextHandle ≤ h

/-- What has ended stays ended. -/
theorem Onward.unended {s' : Session} (ho : s.Onward s') (hs : s.Reads) (hs' : s'.Reads) {h : Nat}
    (hu : s'.Unended h) : s.Unended h := by
  by_cases hlt : s.link.subscriptions.nextHandle ≤ h
  · exact .inr hlt
  · have hlt := Nat.lt_of_not_le hlt
    refine .inl ?_
    rcases hu with hlive | hle
    · rw [hs.isLive_eq, Bool.and_eq_true, Bool.not_eq_true']
      rw [hs'.isLive_eq, Bool.and_eq_true, Bool.not_eq_true'] at hlive
      refine ⟨ho.subscriptions.isOpen hlt hlive.1, ?_⟩
      cases hc : s.link.calls.isCancelled (.stream h) with
      | false => rfl
      | true => rw [ho.cancelled _ hc] at hlive; simp at hlive
    · have := ho.subscriptions.next
      omega

/-- Nothing is held for a subscription that is not opened yet. -/
theorem Reads.held_of_unopened (hs : s.Reads) {h : Nat}
    (hle : s.link.subscriptions.nextHandle ≤ h) : s.held h = [] := by
  have hwaiting : s.waiting h = none := by
    cases hr : s.reader with
    | delivering d =>
      obtain ⟨_, n, i, hd, hi⟩ := hs.waits d hr
      rw [waiting_of_blocked hr hd, if_neg]
      omega
    | _ => exact waiting_of_reader (by simp [hr]) h
  simp [held, Link.bufferOf, hs.unopened hle, hwaiting]

end Session

end NodeRpc
