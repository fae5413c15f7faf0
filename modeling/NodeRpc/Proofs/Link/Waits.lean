import NodeRpc.Proofs.Link.Routes

/-!
# Of the deliveries, only those that wait matter

A link asks its deliveries one thing: how many of them wait for room in a buffer. So two links that
differ in their deliveries, but not in what waits, do the same: every event that is no step of a
delivery leaves the difference as it is (`apply_deliveries`), polls find the same
(`poll_deliveries`), and a notification goes the same way (`handOver_deliveries`).
-/

namespace NodeRpc.Link

/-- The link with other deliveries. -/
def withDeliveries (l : Link) (ds : List Delivery) : Link := { l with deliveries := ds }

variable (l : Link) {ds : List Delivery}

/-! ### Parts of steps -/

theorem sayFarewell_deliveries (ds : List Delivery)
    (farewell : Option (SubscriptionId × String)) :
    (l.withDeliveries ds).sayFarewell farewell = (l.sayFarewell farewell).withDeliveries ds := by
  unfold sayFarewell
  split
  · unfold withDeliveries
    dsimp only
    split <;> rfl
  · rfl

theorem closeStream_deliveries (ds : List Delivery) (handle : Nat) (telling : Bool) :
    (l.withDeliveries ds).closeStream handle telling =
      (l.closeStream handle telling).withDeliveries ds := by
  unfold closeStream
  have hstreams : (l.withDeliveries ds).streams = l.streams := rfl
  rw [hstreams]
  cases l.streams.get? handle with
  | none => rfl
  | some s =>
    dsimp only
    split
    · rfl
    · split
      · exact sayFarewell_deliveries { l with
          calls := l.calls.cancel (.stream handle)
          subscriptions := l.subscriptions.release handle
          streams := l.streams.put handle { s with phase := .closed, receiving := false } } ds _
      · rfl

theorem take_deliveries (hsame : ∀ h, blockedOn ds h = blockedOn l.deliveries h) (handle : Nat)
    (s : Stream) :
    (l.withDeliveries ds).take handle s =
      ((l.take handle s).1, (l.take handle s).2.withDeliveries ds) := by
  have hblocked : blockedOn (l.withDeliveries ds).deliveries handle =
      blockedOn l.deliveries handle := hsame handle
  have hopen : (l.withDeliveries ds).subscriptions = l.subscriptions := rfl
  unfold take
  rw [hblocked, hopen]
  split
  · rfl
  · split <;> rfl

/-- A poll finds the same, whatever deliveries there are that do not wait. -/
theorem poll_deliveries (hsame : ∀ h, blockedOn ds h = blockedOn l.deliveries h) (handle : Nat) :
    (l.withDeliveries ds).poll handle =
      ((l.poll handle).1, (l.poll handle).2.withDeliveries ds) := by
  have htake := l.take_deliveries hsame handle
  have hstreams : (l.withDeliveries ds).streams = l.streams := rfl
  have hcalls : (l.withDeliveries ds).calls = l.calls := rfl
  have hsubs : (l.withDeliveries ds).subscriptions = l.subscriptions := rfl
  unfold poll
  rw [hstreams, hcalls, hsubs]
  cases l.streams.get? handle with
  | none => rfl
  | some s =>
    dsimp only
    split
    · rfl
    · split
      · rw [closeStream_deliveries]
      · split
        · rfl
        · split
          · rfl
          · rfl
          · exact htake _
          · exact htake _

theorem open_deliveries (ds : List Delivery) (request : SubscriptionRequest) (parent : Token) :
    (l.withDeliveries ds).open request parent = (l.open request parent).withDeliveries ds := by
  unfold «open» withDeliveries
  dsimp only
  split <;> split <;> rfl

theorem cancel_deliveries (ds : List Delivery) (t : Token) :
    (l.withDeliveries ds).cancel t = (l.cancel t).withDeliveries ds := by
  have hstreams : ∀ (handles : List Nat) (l : Link),
      handles.foldl cancelStream (l.withDeliveries ds) =
        (handles.foldl cancelStream l).withDeliveries ds := by
    intro handles
    induction handles with
    | nil => exact fun _ => rfl
    | cons handle handles ih => exact fun l => ih (l.cancelStream handle)
  exact congrArg (cancelCalls · t) (hstreams (l.below t) l)

theorem confirmed_deliveries (ds : List Delivery) (handle : Nat) (unsubscribe : String)
    (outcome : Outcome) :
    (l.withDeliveries ds).confirmed handle unsubscribe outcome =
      ((l.confirmed handle unsubscribe outcome).1,
        (l.confirmed handle unsubscribe outcome).2.withDeliveries ds) := by
  have hsubs : (l.withDeliveries ds).subscriptions = l.subscriptions := rfl
  unfold confirmed
  rw [hsubs]
  split
  · rfl
  · split
    · rfl
    · split
      · rfl
      · rw [sayFarewell_deliveries]

theorem answer_deliveries (ds : List Delivery) (i : Nat) (o : Outcome) :
    (l.withDeliveries ds).answer i o = (l.answer i o).withDeliveries ds := by
  have hrole : (l.withDeliveries ds).roleOf i = l.roleOf i := rfl
  unfold answer
  rw [hrole]
  cases l.roleOf i with
  | opening handle u =>
    dsimp only
    rw [confirmed_deliveries]
    rfl
  | _ => rfl

theorem answerAll_deliveries (ds : List Delivery) (as : List (Nat × Outcome)) :
    (l.withDeliveries ds).answerAll as = (l.answerAll as).withDeliveries ds := by
  induction as generalizing l with
  | nil => rfl
  | cons a as ih =>
    have hhead := l.answer_deliveries ds a.1 a.2
    unfold answerAll at ih ⊢
    rw [List.foldl_cons, List.foldl_cons, hhead, ih]

theorem opened_deliveries (ds : List Delivery) (handle : Nat) (o : Outcome) :
    (l.withDeliveries ds).opened handle o = (l.opened handle o).withDeliveries ds := by
  have hfarewell := sayFarewell_deliveries (l.release handle).2 ds
    (l.subscriptions.farewell? handle)
  unfold opened
  dsimp only
  split
  · rfl
  · have hrelease : (l.withDeliveries ds).release handle =
        (l.subscriptions.farewell? handle, (l.release handle).2.withDeliveries ds) := rfl
    have hrelease' : l.release handle =
        (l.subscriptions.farewell? handle, (l.release handle).2) := rfl
    rw [hrelease, hrelease']
    dsimp only
    rw [hfarewell]
    rfl

theorem runExchange_deliveries (ds : List Delivery) (k : Nat) :
    (l.withDeliveries ds).runExchange k = (l.runExchange k).withDeliveries ds := by
  have hdeadline : (l.withDeliveries ds).setDeadline k =
      (l.setDeadline k).withDeliveries ds := by
    have hrole : (l.withDeliveries ds).roleAt k = l.roleAt k := rfl
    unfold setDeadline
    rw [hrole]
    split <;> rfl
  have hafter : ∀ l : Link,
      (l.withDeliveries ds).afterTurn k = (l.afterTurn k).withDeliveries ds := by
    intro l
    have hrole : (l.withDeliveries ds).roleAt k = l.roleAt k := rfl
    have hcalls : (l.withDeliveries ds).calls = l.calls := rfl
    have hoverdue : (l.withDeliveries ds).isOverdue k = l.isOverdue k := rfl
    unfold afterTurn
    rw [hrole, hcalls, hoverdue]
    split
    · split
      · exact l.opened_deliveries ds _ _
      · rfl
    · split <;> rfl
    · rfl
  unfold runExchange
  rw [hdeadline]
  exact hafter { l.setDeadline k with calls := (l.setDeadline k).calls.run k }

/-! ### Events -/

/-- Whether an event is a step of a delivery. -/
def Event.delivers : Event → Bool
  | .dispatch _ | .dropDelivery _ | .run (.delivery _) => true
  | _ => false

/-- Of the deliveries, an event that is no step of theirs heeds what waits, and it leaves them
alone. -/
theorem apply_deliveries (hsame : ∀ h, blockedOn ds h = blockedOn l.deliveries h) {e : Event}
    (he : e.delivers = false) :
    (l.withDeliveries ds).apply e = (l.apply e).withDeliveries ds := by
  have hanswer := l.answerAll_deliveries ds
  cases e with
  | act a =>
    cases a with
    | «open» request token => exact l.open_deliveries ds request token
    | poll handle => exact congrArg Prod.snd (l.poll_deliveries hsame handle)
    | closeStream handle telling => exact l.closeStream_deliveries ds handle telling
    | dropStream handle telling =>
      have hclose := l.closeStream_deliveries ds handle telling
      unfold apply act dropStream
      dsimp only
      rw [hclose]
      rfl
    | cancel token => exact l.cancel_deliveries ds token
    | _ => rfl
  | run t =>
    cases t with
    | exchange k =>
      have hcan : (l.withDeliveries ds).canRun (.exchange k) = l.canRun (.exchange k) := rfl
      unfold apply run
      dsimp only
      rw [hcan]
      split
      · exact l.runExchange_deliveries ds k
      · rfl
    | delivery d => simp [Event.delivers] at he
  | route r => exact hanswer _
  | routeBatch responses => exact hanswer _
  | reject error => exact hanswer _
  | dispatch n => simp [Event.delivers] at he
  | dropDelivery d => simp [Event.delivers] at he
  | _ => rfl

/-- What is no step of a delivery leaves the deliveries alone. -/
theorem deliveries_apply {e : Event} (he : e.delivers = false) :
    (l.apply e).deliveries = l.deliveries := by
  have hself : l.apply e = (l.apply e).withDeliveries l.deliveries :=
    l.apply_deliveries (fun _ => rfl) he
  rw [hself]
  rfl

/-! ### Notifications -/

theorem blockedOn_concat (ds : List Delivery) (x : Delivery) (h : Nat) :
    blockedOn (ds ++ [x]) h = blockedOn ds h + if x.stage = .blocked h then 1 else 0 := by
  simp [blockedOn, List.countP_append, List.countP_cons]

theorem setDelivery_dispatch (ds : List Delivery) (n : Notification) (stage : DeliveryStage) :
    ((l.withDeliveries ds).dispatch n).setDelivery ds.length stage =
      l.withDeliveries (ds ++ [⟨n, stage⟩]) := by
  have hmodify : (ds ++ [(⟨n, .fresh⟩ : Delivery)]).modify ds.length
      (fun x => { x with stage }) = ds ++ [⟨n, stage⟩] := by
    rw [List.modify_eq_set]
    simp
  unfold setDelivery dispatch withDeliveries
  dsimp only
  rw [hmodify]

/-- A notification goes the same way, whatever deliveries there are that do not wait. -/
theorem handOver_deliveries (n : Notification) :
    ∃ (l' : Link) (stage : DeliveryStage), ∀ ds : List Delivery,
      (∀ h, blockedOn ds h = blockedOn l.deliveries h) →
        (l.withDeliveries ds).handOver n = l'.withDeliveries (ds ++ [⟨n, stage⟩]) := by
  cases ht : l.subscriptions.target? n with
  | none =>
    refine ⟨l, .done, fun ds _ => ?_⟩
    have htarget : (l.withDeliveries ds).subscriptions.target? n = none := ht
    rw [handOver_eq, htarget]
    exact l.setDelivery_dispatch ds n .done
  | some handle =>
    have hto : ∀ ds, (∀ h, blockedOn ds h = blockedOn l.deliveries h) →
        (l.withDeliveries ds).handOver n = ((l.withDeliveries ds).dispatch n).deliver ds.length
          handle (blockedOn l.deliveries handle) n.result := by
      intro ds hsame
      have htarget : (l.withDeliveries ds).subscriptions.target? n = some handle := ht
      rw [handOver_eq, htarget, ← hsame handle]
      rfl
    have hreceiving : ∀ ds : List Delivery,
        ((l.withDeliveries ds).dispatch n).isReceiving handle = l.isReceiving handle := fun _ => rfl
    have hroom : ∀ (ds : List Delivery) ahead,
        ((l.withDeliveries ds).dispatch n).hasRoom handle ahead = l.hasRoom handle ahead :=
      fun _ _ => rfl
    have hpolicy : ∀ ds : List Delivery,
        ((l.withDeliveries ds).dispatch n).policy = l.policy := fun _ => rfl
    unfold deliver at hto
    simp only [hreceiving, hroom, hpolicy] at hto
    by_cases hr : l.isReceiving handle = true
    · by_cases hm : l.hasRoom handle (blockedOn l.deliveries handle) = true
      · refine ⟨l.enqueue handle n.result, .done, fun ds hsame => ?_⟩
        rw [hto ds hsame, if_neg (by simp [hr]), if_pos hm]
        exact (l.enqueue handle n.result).setDelivery_dispatch ds n .done
      · cases hp : l.policy with
        | pauseReads =>
          refine ⟨l, .blocked handle, fun ds hsame => ?_⟩
          rw [hto ds hsame, if_neg (by simp [hr]), if_neg hm, hp]
          exact l.setDelivery_dispatch ds n (.blocked handle)
        | dropNewest =>
          refine ⟨l, .done, fun ds hsame => ?_⟩
          rw [hto ds hsame, if_neg (by simp [hr]), if_neg hm, hp]
          exact l.setDelivery_dispatch ds n .done
    · refine ⟨l, .done, fun ds hsame => ?_⟩
      rw [hto ds hsame, if_pos (by simp [hr])]
      exact l.setDelivery_dispatch ds n .done

end NodeRpc.Link
