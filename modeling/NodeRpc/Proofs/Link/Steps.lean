import NodeRpc.Proofs.Link.Deliveries

/-!
# What an event does to calls and subscriptions

An event of a link that hands out no answers does one of six things (`Passed`), and an answer one of
three (`Answered`). What calls are for is kept along with the calls: but for the deadlines of calls
that close a subscription it changes only where a call is made.
-/

namespace NodeRpc

/-- Whether an exchange closes a subscription. -/
def Role.isTeardown : Role → Bool
  | .teardown _ => true
  | _ => false

namespace Link

variable {l : Link}

/-- The call that closes a subscription. -/
def farewell (id : SubscriptionId) (method : String) : List Call := [⟨method, .arr [id.toJson]⟩]

/-- Calls and what they are for, after something that makes no call. -/
structure Aged (l : Link) (c : Calls) (roles : List Role) : Prop where
  calls : l.calls.Ages c
  length : roles.length = l.roles.length
  roles : ∀ k : Nat, roles[k]? = l.roles[k]? ∨
    ∃ d d', l.roles[k]? = some (.teardown d) ∧ roles[k]? = some (.teardown d')

/-- What the callers ask of the node to close subscriptions. -/
def Event.asks? : Event → Option (List Call)
  | .unsubscribe id method => some (farewell id method)
  | _ => none

/-- The handle that an event opens, and the method that closes it. -/
def Event.opens? (l : Link) : Event → Option (Nat × String)
  | .act (.open request _) => some (l.subscriptions.nextHandle, request.names.unsubscribe)
  | _ => none

/-- Whether the node is told when the event ends a subscription. -/
def Event.tells : Event → Bool
  | .release _ => false
  | .act (.closeStream _ telling) | .act (.dropStream _ telling) => telling
  | _ => true

/-- What an event that hands out no answers does to calls, to what they are for, and to
subscriptions. -/
inductive Passed (l : Link) (e : Event) (l' : Link) : Prop where
  | aged (ha : e.asks? = none) (ho : e.opens? l = none) (h : l.Aged l'.calls l'.roles)
      (hsubs : l'.subscriptions = l.subscriptions)
  /-- A caller makes a call or a batch, or has a subscription closed. -/
  | made (calls : List Call) (batched : Bool) (token : Token) (role : Role)
      (hrole : ∀ h u, role ≠ .opening h u)
      (ha : e.asks? = if role.isTeardown then some calls else none) (ho : e.opens? l = none)
      (hcalls : l'.calls = l.calls.make calls batched token) (hroles : l'.roles = l.roles ++ [role])
      (hsubs : l'.subscriptions = l.subscriptions)
  /-- A subscription is opened on a connection that is gone. -/
  | refused (names : SubscriptionNames) (ha : e.asks? = none)
      (ho : e.opens? l = some (l.subscriptions.nextHandle, names.unsubscribe))
      (hclosed : l.subscriptions.closed = true) (h : l.Aged l'.calls l'.roles)
      (hsubs : l'.subscriptions = l.subscriptions.register names)
  | opened (names : SubscriptionNames) (call : Call) (c : Calls) (ha : e.asks? = none)
      (ho : e.opens? l = some (l.subscriptions.nextHandle, names.unsubscribe))
      (hopen : l.subscriptions.closed = false) (h : l.calls.Ages c)
      (hcalls : l'.calls = c.make [call] false (.stream l.subscriptions.nextHandle))
      (hroles : l'.roles = l.roles ++ [.opening l.subscriptions.nextHandle names.unsubscribe])
      (hsubs : l'.subscriptions = l.subscriptions.register names)
  /-- A subscription ends, and the node is told if it knows of it. -/
  | ended (handle : Nat) (c : Calls) (roles : List Role) (ha : e.asks? = none)
      (ho : e.opens? l = none) (h : l.Aged c roles)
      (hsubs : l'.subscriptions = l.subscriptions.release handle)
      (htold : (e.tells = false ∨ l.subscriptions.closed = true ∨
            l.subscriptions.farewell? handle = none) ∧ l'.calls = c ∧ l'.roles = roles ∨
          ∃ id u, l.subscriptions.closed = false ∧
            l.subscriptions.farewell? handle = some (id, u) ∧
            l'.calls = c.make (farewell id u) false .unshared ∧
            l'.roles = roles ++ [.teardown none])
  | closed (ha : e.asks? = none) (ho : e.opens? l = none) (hcalls : l'.calls = l.calls)
      (hroles : l'.roles = l.roles) (hsubs : l'.subscriptions = l.subscriptions.close)

/-! ### Calls that age -/

theorem Aged.refl (hv : l.calls.Valid) : l.Aged l.calls l.roles :=
  ⟨.refl hv, rfl, fun _ => .inl rfl⟩

theorem Aged.calls' {c c' : Calls} {roles : List Role} (h : l.Aged c roles) (hc : c.Ages c') :
    l.Aged c' roles := ⟨h.calls.trans hc, h.length, h.roles⟩

theorem aged_setDeadline (hv : l.calls.Valid) (k : Nat) :
    l.Aged (l.setDeadline k).calls (l.setDeadline k).roles := by
  unfold setDeadline
  split
  · next hrole =>
    refine ⟨.refl hv, by simp, fun j => ?_⟩
    dsimp only
    rw [List.getElem?_set]
    split
    · next he =>
      subst he
      by_cases hlt : k < l.roles.length
      · have hget : l.roles[k]? = some (.teardown none) := by
          unfold roleAt at hrole
          rw [List.getD_eq_getElem?_getD, List.getElem?_eq_getElem hlt] at hrole
          rw [List.getElem?_eq_getElem hlt]
          exact congrArg some hrole
        exact .inr ⟨none, _, hget, by rw [if_pos hlt]⟩
      · rw [if_neg hlt, List.getElem?_eq_none (Nat.le_of_not_lt hlt)]
        exact .inl rfl
    · exact .inl rfl
  · exact .refl hv

/-! ### The end of a subscription -/

theorem sayFarewell_cases (l : Link) (told : Option (SubscriptionId × String)) :
    (l.subscriptions.closed = true ∨ told = none) ∧ l.sayFarewell told = l ∨
      ∃ id u, l.subscriptions.closed = false ∧ told = some (id, u) ∧
        l.sayFarewell told = l.make (farewell id u) false .unshared (.teardown none) := by
  unfold sayFarewell
  split
  · next id u =>
    split
    · next hc => exact .inl ⟨.inl hc, rfl⟩
    · next hc => exact .inr ⟨id, u, by simpa using hc, rfl, rfl⟩
  · exact .inl ⟨.inr rfl, rfl⟩

/-- The node is told of a subscription that was released, if it knows of it. -/
theorem passed_sayFarewell {l' : Link} {e : Event} (handle : Nat) (ha : e.asks? = none)
    (ho : e.opens? l = none) (h : l.Aged l'.calls l'.roles)
    (hsubs : l'.subscriptions = l.subscriptions.release handle) :
    l.Passed e (l'.sayFarewell (l.subscriptions.farewell? handle)) := by
  have hclosed : l'.subscriptions.closed = l.subscriptions.closed := by rw [hsubs]; rfl
  rcases l'.sayFarewell_cases (l.subscriptions.farewell? handle) with
    ⟨hquiet, heq⟩ | ⟨id, u, hopen, hsome, heq⟩
  · rw [heq]
    rw [hclosed] at hquiet
    exact .ended handle _ _ ha ho h hsubs (.inl ⟨.inr hquiet, rfl, rfl⟩)
  · rw [heq]
    exact .ended handle _ _ ha ho h hsubs (.inr ⟨id, u, hclosed.symm.trans hopen, hsome, rfl, rfl⟩)

theorem passed_closeStream (hv : l.calls.Valid) {e : Event} (ha : e.asks? = none)
    (ho : e.opens? l = none) (handle : Nat) (telling : Bool)
    (htelling : telling = true ∨ e.tells = false) :
    l.Passed e (l.closeStream handle telling) := by
  have hcancel : l.Aged (l.calls.cancel (.stream handle)) l.roles :=
    (Aged.refl hv).calls' (Calls.ages_apply (e := .cancel (.stream handle)) hv rfl)
  unfold closeStream
  split
  · exact .aged ha ho (.refl hv) rfl
  · split
    · exact .aged ha ho (.refl hv) rfl
    · dsimp only
      split
      · exact passed_sayFarewell handle ha ho hcancel rfl
      · next hnot =>
        have hquiet : e.tells = false := htelling.resolve_left (by simpa using hnot)
        exact .ended handle _ _ ha ho hcancel rfl (.inl ⟨.inl hquiet, rfl, rfl⟩)

/-- Streams, deliveries and the time do not matter. -/
theorem Passed.congr {e : Event} {l' l'' : Link} (h : l.Passed e l') (hcalls : l''.calls = l'.calls)
    (hroles : l''.roles = l'.roles) (hsubs : l''.subscriptions = l'.subscriptions) :
    l.Passed e l'' := by
  obtain ⟨_, _, _, roles, _, _, _, _⟩ := l'
  obtain ⟨_, _, _, _, _, _, _, _⟩ := l''
  dsimp only at hcalls hroles hsubs
  subst hcalls hroles hsubs
  cases h with
  | aged ha ho h hsubs => exact .aged ha ho h hsubs
  | made calls batched token role hrole ha ho hcalls hroles hsubs =>
    exact .made calls batched token role hrole ha ho hcalls hroles hsubs
  | refused names ha ho hclosed h hsubs => exact .refused names ha ho hclosed h hsubs
  | opened names call c ha ho hopen h hcalls hroles hsubs =>
    exact .opened names call c ha ho hopen h hcalls hroles hsubs
  | ended handle c roles ha ho h hsubs htold => exact .ended handle c roles ha ho h hsubs htold
  | closed ha ho hcalls hroles hsubs => exact .closed ha ho hcalls hroles hsubs

theorem passed_poll (hv : l.calls.Valid) (handle : Nat) :
    l.Passed (.act (.poll handle)) (l.poll handle).2 := by
  have hsame : ∀ l' : Link, l'.calls = l.calls → l'.roles = l.roles →
      l'.subscriptions = l.subscriptions → l.Passed (.act (.poll handle)) l' :=
    fun l' hcalls hroles hsubs =>
      (Passed.aged rfl rfl (.refl hv) rfl : l.Passed _ l).congr hcalls hroles hsubs
  have htake : ∀ s, l.Passed (.act (.poll handle)) (l.take handle s).2 := fun s => by
    rw [take_frame]
    exact hsame _ rfl rfl rfl
  unfold poll
  split
  · exact hsame _ rfl rfl rfl
  · split
    · exact hsame _ rfl rfl rfl
    · split
      · exact passed_closeStream hv rfl rfl handle true (.inl rfl)
      · split
        · exact hsame _ rfl rfl rfl
        · split
          · exact hsame _ rfl rfl rfl
          · exact hsame _ rfl rfl rfl
          · exact htake _
          · exact htake _

/-! ### Turns of exchanges -/

theorem passed_runExchange (hv : l.calls.Valid) (k : Nat) :
    l.Passed (.run (.exchange k)) (l.runExchange k) := by
  have hdeadline := aged_setDeadline hv k
  have hturned := hdeadline.calls'
    (Calls.ages_apply (e := .run k) hdeadline.calls.valid (Calls.length_apply _ _))
  have hafter : ∀ l' : Link, l.Aged l'.calls l'.roles → l'.subscriptions = l.subscriptions →
      l.Passed (.run (.exchange k)) (l'.afterTurn k) := by
    intro l' h hsubs
    unfold afterTurn
    split
    · next handle _ _ _ _ =>
      split
      · unfold opened
        dsimp only
        split
        · exact .aged rfl rfl h hsubs
        · have hend : l.Passed (.run (.exchange k))
              ((l'.release handle).2.sayFarewell (l'.subscriptions.farewell? handle)) := by
            rw [hsubs]
            exact passed_sayFarewell handle rfl rfl h (by rw [← hsubs]; rfl)
          exact hend.congr rfl rfl rfl
      · exact .aged rfl rfl h hsubs
    · split
      · exact .aged rfl rfl
          (h.calls' (Calls.ages_apply (e := .drop k) h.calls.valid (Calls.length_apply _ _))) hsubs
      · exact .aged rfl rfl h hsubs
    · exact .aged rfl rfl h hsubs
  refine hafter _ hturned ?_
  unfold setDeadline
  split <;> rfl

/-! ### Every event -/

theorem passed_open (ht : l.Tied) (request : SubscriptionRequest) (token : Token) :
    l.Passed (.act (.open request token)) (l.open request token) := by
  have hsubs := (l.open_eq request token).1
  obtain ⟨c, hage, hcalls⟩ := open_calls ht request token
  rcases hcalls with ⟨hclosed, hc, hr⟩ | ⟨hopen, hc, hr⟩
  · refine .refused request.names rfl rfl hclosed ?_ hsubs
    rw [hc, hr]
    exact ⟨hage, rfl, fun _ => .inl rfl⟩
  · exact .opened request.names _ c rfl rfl hopen hage hc hr hsubs

theorem passed_apply (ht : l.Tied) {e : Event} (he : e.answers? l = none) :
    l.Passed e (l.apply e) := by
  have hv := ht.calls
  have hcalls : ∀ (e' : Calls.Event) (l' : Link), e.asks? = none → e.opens? l = none →
      (l.calls.apply e').exchanges.length = l.calls.exchanges.length →
      l'.calls = l.calls.apply e' → l'.roles = l.roles → l'.subscriptions = l.subscriptions →
      l.Passed e l' := by
    intro e' l' ha ho hlen hc hr hs
    refine .aged ha ho ?_ hs
    rw [hc, hr]
    exact (Aged.refl hv).calls' (Calls.ages_apply hv hlen)
  have hsame : ∀ l' : Link, e.asks? = none → e.opens? l = none → l'.calls = l.calls →
      l'.roles = l.roles → l'.subscriptions = l.subscriptions → l.Passed e l' := by
    intro l' ha ho hc hr hs
    refine .aged ha ho ?_ hs
    rw [hc, hr]
    exact .refl hv
  cases e with
  | act a =>
    cases a with
    | call call token => exact .made [call] false token .plain (by simp) rfl rfl rfl rfl rfl
    | batch calls token => exact .made calls true token .plain (by simp) rfl rfl rfl rfl rfl
    | «open» request token => exact passed_open ht request token
    | poll handle => exact passed_poll hv handle
    | closeStream handle telling =>
      refine passed_closeStream hv rfl rfl handle telling ?_
      cases telling <;> simp [Event.tells]
    | dropStream handle telling =>
      refine (passed_closeStream hv rfl rfl handle telling ?_).congr rfl rfl rfl
      cases telling <;> simp [Event.tells]
    | cancel token =>
      unfold apply act
      dsimp only
      rw [cancel_frame]
      exact .aged rfl rfl ((Aged.refl hv).calls' (cancel_ages hv token)) rfl
    | drop k => exact hcalls (.drop k) _ rfl rfl (Calls.length_apply _ _) rfl rfl rfl
    | advance ms => exact hsame _ rfl rfl rfl rfl rfl
  | release handle =>
    exact .ended handle _ _ rfl rfl (.refl hv) rfl (.inl ⟨.inl rfl, rfl, rfl⟩)
  | unsubscribe id method =>
    exact .made (farewell id method) false .unshared (.teardown none) (by simp) rfl rfl rfl rfl rfl
  | run t =>
    unfold apply run
    dsimp only
    split
    · cases t with
      | exchange k => exact passed_runExchange hv k
      | delivery d =>
        dsimp only
        rw [runDelivery_frame]
        exact hsame _ rfl rfl rfl rfl rfl
    · exact hsame _ rfl (by cases t <;> rfl) rfl rfl rfl
  | route r => simp [Event.answers?] at he
  | routeBatch responses => simp [Event.answers?] at he
  | reject error => simp [Event.answers?] at he
  | closeCalls => exact hcalls .close _ rfl rfl (Calls.length_apply _ _) rfl rfl rfl
  | closeSubscriptions => exact .closed rfl rfl rfl rfl rfl
  | sink sink => exact hcalls (.sink sink) _ rfl rfl rfl rfl rfl rfl
  | resume k reply => exact hcalls (.resume k reply) _ rfl rfl (Calls.length_apply _ _) rfl rfl rfl
  | dispatch n => exact hsame _ rfl rfl rfl rfl rfl
  | dropDelivery d => exact hsame _ rfl rfl rfl rfl rfl

/-! ### Answers -/

/-- The handle that an answer confirms, and the id: the answer is a valid id, and what it answers is
the pending subscribe call of the handle. -/
def confirmation? (l : Link) (i : Nat) (o : Outcome) : Option (Nat × SubscriptionId) :=
  match l.roleOf i, o with
  | .opening handle _, .ok value => (SubscriptionId.ofJson? value).map fun id => (handle, id)
  | _, _ => none

/-- What an answer does to calls, to what they are for, and to subscriptions. -/
inductive Answered (l : Link) (i : Nat) (o : Outcome) (l' : Link) : Prop where
  | other (o' : Outcome) (hnone : l.confirmation? i o = none)
      (hcalls : l'.calls = l.calls.answer i o') (hroles : l'.roles = l.roles)
      (hsubs : l'.subscriptions = l.subscriptions)
  /-- A subscription that is open is confirmed. -/
  | confirmed (entry : Entry) (handle : Nat) (u : String) (id : SubscriptionId) (o' : Outcome)
      (hp : l.calls.pending.get? i = some entry)
      (hrole : l.roles[entry.exchange]? = some (.opening handle u))
      (hconf : l.confirmation? i o = some (handle, id))
      (hopen : l.subscriptions.isOpen handle = true)
      (hcalls : l'.calls = l.calls.answer i o') (hroles : l'.roles = l.roles)
      (hsubs : l'.subscriptions = l.subscriptions.confirm handle id)
  /-- A subscription that has ended is confirmed, and the node is told. -/
  | late (entry : Entry) (handle : Nat) (u : String) (id : SubscriptionId) (c : Calls)
      (roles : List Role) (o' : Outcome) (hp : l.calls.pending.get? i = some entry)
      (hrole : l.roles[entry.exchange]? = some (.opening handle u))
      (hconf : l.confirmation? i o = some (handle, id))
      (hopen : l.subscriptions.isOpen handle = false)
      (htold : l.subscriptions.closed = true ∧ c = l.calls ∧ roles = l.roles ∨
        l.subscriptions.closed = false ∧ c = l.calls.make (farewell id u) false .unshared ∧
          roles = l.roles ++ [.teardown none])
      (hcalls : l'.calls = c.answer i o') (hroles : l'.roles = roles)
      (hsubs : l'.subscriptions = l.subscriptions)

theorem answered_answer (l : Link) (i : Nat) (o : Outcome) : l.Answered i o (l.answer i o) := by
  unfold answer
  split
  next o' l' heq =>
  split at heq
  · next handle u hrole =>
    obtain ⟨entry, hp, hk⟩ := subscribing_of_roleOf hrole
    unfold confirmed at heq
    split at heq
    · obtain ⟨rfl, rfl⟩ := Prod.mk.inj heq
      exact .other _ (by simp [confirmation?, hrole]) rfl rfl rfl
    · next value =>
      split at heq
      · next hid =>
        obtain ⟨rfl, rfl⟩ := Prod.mk.inj heq
        exact .other _ (by simp [confirmation?, hrole, hid]) rfl rfl rfl
      · next id hid =>
        have hconf : l.confirmation? i (.ok value) = some (handle, id) := by
          simp [confirmation?, hrole, hid]
        split at heq
        · next ho =>
          obtain ⟨rfl, rfl⟩ := Prod.mk.inj heq
          exact .confirmed entry handle u id _ hp hk hconf ho rfl rfl rfl
        · next ho =>
          obtain ⟨rfl, rfl⟩ := Prod.mk.inj heq
          have ho : l.subscriptions.isOpen handle = false := by simpa using ho
          rcases l.sayFarewell_cases (some (id, u)) with ⟨hc, he⟩ | ⟨_, _, hc, hsome, he⟩
          · refine .late entry handle u id _ _ (.error .cancelled) hp hk hconf ho
              (.inl ⟨hc.resolve_right (by simp), rfl, rfl⟩) ?_ ?_ ?_ <;> rw [he]
          · obtain ⟨rfl, rfl⟩ := Prod.mk.inj (Option.some.inj hsome)
            refine .late entry handle u id _ _ (.error .cancelled) hp hk hconf ho
              (.inr ⟨hc, rfl, rfl⟩) ?_ ?_ ?_ <;> rw [he] <;> rfl
  · next hrole =>
    obtain ⟨rfl, rfl⟩ := Prod.mk.inj heq
    refine .other _ ?_ rfl rfl rfl
    unfold confirmation?
    split
    · next handle u value hopening => exact absurd hopening (hrole handle u)
    · rfl

end Link

end NodeRpc
