import NodeRpc.Proofs.Calls.Ages
import NodeRpc.Proofs.Link.Routes

/-!
# Handles are confirmed by their subscribe calls

A handle is confirmed by the answer to its subscribe call. `Tied` says how the calls of a link,
what they are for, and its subscriptions hang together: a handle has one subscribe call, which is
one call, and while that call is unanswered the handle has no id; and every route leads to a handle
that is confirmed under the id of the route. So a handle is confirmed once.
-/

namespace NodeRpc

/-- How calls, what they are for, and subscriptions hang together. -/
structure Tied (c : Calls) (roles : List Role) (s : Subscriptions) : Prop where
  calls : c.Valid
  length : roles.length = c.exchanges.length
  openLt : ∀ h, s.isOpen h = true → h < s.nextHandle
  subscribeLt : ∀ (k h : Nat) (u : String), roles[k]? = some (.opening h u) → h < s.nextHandle
  /-- A handle has one subscribe call. -/
  apart : ∀ (k k' h : Nat) (u u' : String), roles[k]? = some (.opening h u) →
    roles[k']? = some (.opening h u') → k = k'
  single : ∀ (k h : Nat) (u : String) (x : Exchange), roles[k]? = some (.opening h u) →
    c.exchanges[k]? = some x → x.calls.length = 1
  /-- While its subscribe call has not been made or answered, a handle has no id. -/
  unmade : ∀ (k h : Nat) (u : String) (x : Exchange), roles[k]? = some (.opening h u) →
    c.exchanges[k]? = some x → x.stage = .fresh → s.serverId? h = none
  unanswered : ∀ (i h : Nat) (u : String) (entry : Entry), c.pending.get? i = some entry →
    roles[entry.exchange]? = some (.opening h u) → s.serverId? h = none
  /-- A route leads to a handle that was confirmed under its id. -/
  routed : ∀ (id : SubscriptionId) (h : Nat), s.routes.get? id = some h → s.serverId? h = some id

namespace Subscriptions

theorem serverId?_register (s : Subscriptions) (names : SubscriptionNames) (h : Nat) :
    (s.register names).serverId? h =
      if s.closed = false ∧ s.nextHandle = h then none else s.serverId? h := by
  unfold register serverId?
  cases hc : s.closed with
  | true => simp
  | false =>
    simp only [Bool.false_eq_true, if_false, true_and]
    rw [Table.get?_put]
    split <;> rfl

theorem serverId?_release (s : Subscriptions) (handle h : Nat) :
    (s.release handle).serverId? h = if handle = h then none else s.serverId? h := by
  unfold release serverId?
  rw [Table.get?_erase]
  split <;> rfl

theorem serverId?_confirm {s : Subscriptions} {handle : Nat} (ho : s.isOpen handle = true)
    (id : SubscriptionId) (h : Nat) :
    (s.confirm handle id).serverId? h = if handle = h then some id else s.serverId? h := by
  obtain ⟨r, hr⟩ := Option.isSome_iff_exists.1 ho
  unfold confirm serverId?
  rw [hr]
  dsimp only
  rw [Table.get?_put]
  split <;> rfl

theorem routes_confirm {s : Subscriptions} {handle : Nat} (ho : s.isOpen handle = true)
    (id other : SubscriptionId) :
    (s.confirm handle id).routes.get? other =
      if id = other then some handle else s.routes.get? other := by
  obtain ⟨r, hr⟩ := Option.isSome_iff_exists.1 ho
  unfold confirm
  rw [hr]
  exact Table.get?_put ..

theorem isOpen_of_serverId? {s : Subscriptions} {h : Nat} {id : SubscriptionId}
    (hid : s.serverId? h = some id) : s.isOpen h = true := by
  obtain ⟨r, hr, _⟩ := Option.bind_eq_some_iff.1 hid
  simp [isOpen, Table.has, hr]

theorem nextHandle_confirm (s : Subscriptions) (handle : Nat) (id : SubscriptionId) :
    (s.confirm handle id).nextHandle = s.nextHandle := by
  unfold confirm
  split <;> rfl

end Subscriptions

section Tied

variable {c c' : Calls} {roles : List Role} {s : Subscriptions}

theorem Tied.age (ht : Tied c roles s) (h : c.Ages c') : Tied c' roles s where
  calls := h.valid
  length := ht.length.trans h.length.symm
  openLt := ht.openLt
  subscribeLt := ht.subscribeLt
  apart := ht.apart
  single k handle u x' hrole hx' := by
    obtain ⟨x, hx, hcalls, _⟩ := h.exchange k x' hx'
    rw [hcalls]
    exact ht.single k handle u x hrole hx
  unmade k handle u x' hrole hx' hf := by
    obtain ⟨x, hx, _, hfresh, _⟩ := h.exchange k x' hx'
    exact ht.unmade k handle u x hrole hx (hfresh hf)
  unanswered i handle u entry hp hrole := by
    rcases h.pending i entry hp with hp | ⟨x, hx, hf⟩
    · exact ht.unanswered i handle u entry hp hrole
    · exact ht.unmade entry.exchange handle u x hrole hx hf
  routed := ht.routed

theorem Tied.release (ht : Tied c roles s) (handle : Nat) : Tied c roles (s.release handle) where
  calls := ht.calls
  length := ht.length
  openLt h ho := by
    rw [Subscriptions.isOpen_release, Bool.and_eq_true] at ho
    exact ht.openLt h ho.2
  subscribeLt := ht.subscribeLt
  apart := ht.apart
  single := ht.single
  unmade k h u x hrole hx hf := by
    rw [Subscriptions.serverId?_release, ht.unmade k h u x hrole hx hf, ite_self]
  unanswered i h u entry hp hrole := by
    rw [Subscriptions.serverId?_release, ht.unanswered i h u entry hp hrole, ite_self]
  routed id h hroute := by
    rw [Subscriptions.routes_release] at hroute
    split at hroute
    · simp at hroute
    · next hne =>
      have hid := ht.routed id h hroute
      rw [Subscriptions.serverId?_release, if_neg, hid]
      rintro rfl
      exact hne hid

theorem Tied.close (ht : Tied c roles s) : Tied c roles s.close where
  calls := ht.calls
  length := ht.length
  openLt h ho := by simp [Subscriptions.close, Subscriptions.isOpen, Table.has, Table.get?] at ho
  subscribeLt := ht.subscribeLt
  apart := ht.apart
  single := ht.single
  unmade _ _ _ _ _ _ _ := rfl
  unanswered _ _ _ _ _ _ := rfl
  routed id h hroute := by simp [Subscriptions.close, Table.get?] at hroute

theorem Tied.register (ht : Tied c roles s) (names : SubscriptionNames) :
    Tied c roles (s.register names) := by
  have hnext := s.nextHandle_register names
  have hroutes := s.routes_register names
  have hnone : ∀ h, s.serverId? h = none → (s.register names).serverId? h = none := fun h hid => by
    rw [Subscriptions.serverId?_register, hid, ite_self]
  constructor
  case calls => exact ht.calls
  case length => exact ht.length
  case openLt =>
    intro h ho
    rw [Subscriptions.isOpen_register, Bool.or_eq_true] at ho
    rw [hnext]
    rcases ho with ho | hnew
    · exact Nat.lt_succ_of_lt (ht.openLt h ho)
    · have heq : s.nextHandle = h := by simpa using (Bool.and_eq_true_iff.1 hnew).2
      omega
  case subscribeLt =>
    intro k h u hk
    rw [hnext]
    exact Nat.lt_succ_of_lt (ht.subscribeLt k h u hk)
  case apart => exact ht.apart
  case single => exact ht.single
  case unmade => exact fun k h u x hk hx hf => hnone h (ht.unmade k h u x hk hx hf)
  case unanswered => exact fun i h u entry hp hk => hnone h (ht.unanswered i h u entry hp hk)
  case routed =>
    intro id h hroute
    rw [hroutes] at hroute
    have hid := ht.routed id h hroute
    have hlt := ht.openLt h (Subscriptions.isOpen_of_serverId? hid)
    rw [Subscriptions.serverId?_register, if_neg (by omega), hid]

/-- The handle that is registered next is new. -/
theorem Tied.newHandle (ht : Tied c roles s) (names : SubscriptionNames) (hc : s.closed = false) :
    s.nextHandle < (s.register names).nextHandle ∧
      (s.register names).serverId? s.nextHandle = none ∧
      ∀ (k : Nat) (u : String), roles[k]? ≠ some (.opening s.nextHandle u) := by
  refine ⟨?_, ?_, fun k u hk => Nat.lt_irrefl _ (ht.subscribeLt k _ u hk)⟩
  · simp [Subscriptions.register, hc]
  · rw [Subscriptions.serverId?_register, if_pos ⟨hc, rfl⟩]

theorem Tied.make (ht : Tied c roles s) (calls : List Call) (batched : Bool) (token : Token)
    {role : Role} (hrole : ∀ h u, role = .opening h u →
      calls.length = 1 ∧ h < s.nextHandle ∧ s.serverId? h = none ∧
        ∀ (k : Nat) (u' : String), roles[k]? ≠ some (.opening h u')) :
    Tied (c.make calls batched token) (roles ++ [role]) s := by
  have hroles : ∀ (k h : Nat) (u : String), (roles ++ [role])[k]? = some (.opening h u) →
      roles[k]? = some (.opening h u) ∨ k = roles.length ∧ role = .opening h u := by
    intro k h u hk
    rw [getElem?_concat] at hk
    split at hk
    · next he => exact .inr ⟨he, Option.some.inj hk⟩
    · exact .inl hk
  have hexchanges : ∀ (k : Nat) (x : Exchange),
      (c.make calls batched token).exchanges[k]? = some x →
      c.exchanges[k]? = some x ∨ k = roles.length ∧ x = { calls, batched, token } := by
    intro k x hx
    simp only [Calls.make, getElem?_concat] at hx
    split at hx
    · next he => exact .inr ⟨he.trans ht.length.symm, (Option.some.inj hx).symm⟩
    · exact .inl hx
  have hbeyond : ∀ x, c.exchanges[roles.length]? ≠ some x := by
    intro x hx
    have hlt := (List.getElem?_eq_some_iff.1 hx).1
    rw [ht.length] at hlt
    exact Nat.lt_irrefl _ hlt
  have hrolesBeyond : ∀ r, roles[roles.length]? ≠ some r := by simp
  constructor
  case calls => exact ht.calls.make calls batched token
  case length => simp [Calls.make, ht.length]
  case openLt => exact ht.openLt
  case subscribeLt =>
    intro k h u hk
    rcases hroles k h u hk with hk | ⟨_, he⟩
    · exact ht.subscribeLt k h u hk
    · exact (hrole h u he).2.1
  case apart =>
    intro k k' h u u' hk hk'
    rcases hroles k h u hk with hk | ⟨rfl, he⟩ <;> rcases hroles k' h u' hk' with hk' | ⟨rfl, he'⟩
    · exact ht.apart k k' h u u' hk hk'
    · exact absurd hk ((hrole h u' he').2.2.2 k u)
    · exact absurd hk' ((hrole h u he).2.2.2 k' u')
    · rfl
  case single =>
    intro k h u x hk hx
    rcases hroles k h u hk with hk | ⟨rfl, he⟩
    · rcases hexchanges k x hx with hx | ⟨rfl, _⟩
      · exact ht.single k h u x hk hx
      · exact absurd hk (hrolesBeyond _)
    · rcases hexchanges _ x hx with hx | ⟨_, rfl⟩
      · exact absurd hx (hbeyond x)
      · exact (hrole h u he).1
  case unmade =>
    intro k h u x hk hx hf
    rcases hroles k h u hk with hk | ⟨rfl, he⟩
    · rcases hexchanges k x hx with hx | ⟨rfl, _⟩
      · exact ht.unmade k h u x hk hx hf
      · exact absurd hk (hrolesBeyond _)
    · exact (hrole h u he).2.2.1
  case unanswered =>
    intro i h u entry hp hk
    rcases hroles _ h u hk with hk | ⟨_, he⟩
    · exact ht.unanswered i h u entry hp hk
    · exact (hrole h u he).2.2.1
  case routed => exact ht.routed

/-- Calls that only close subscriptions may change what they are for. -/
theorem Tied.setTeardown (ht : Tied c roles s) (k : Nat) (deadline : Option Nat) :
    Tied c (roles.set k (.teardown deadline)) s := by
  have hsame : ∀ (j h : Nat) (u : String),
      (roles.set k (.teardown deadline))[j]? = some (.opening h u) →
      roles[j]? = some (.opening h u) := by
    intro j h u hj
    rw [List.getElem?_set] at hj
    split at hj
    · split at hj <;> simp at hj
    · exact hj
  constructor
  case calls => exact ht.calls
  case length => simp [ht.length]
  case openLt => exact ht.openLt
  case subscribeLt => exact fun j h u hj => ht.subscribeLt j h u (hsame j h u hj)
  case apart =>
    exact fun j j' h u u' hj hj' => ht.apart j j' h u u' (hsame j h u hj) (hsame j' h u' hj')
  case single => exact fun j h u x hj => ht.single j h u x (hsame j h u hj)
  case unmade => exact fun j h u x hj => ht.unmade j h u x (hsame j h u hj)
  case unanswered => exact fun i h u entry hp hj => ht.unanswered i h u entry hp (hsame _ h u hj)
  case routed => exact ht.routed

/-- A handle whose subscribe call has been answered waits for no other answer. -/
theorem Tied.answered (ht : Tied c roles s) {i h : Nat} {u : String} {entry : Entry}
    (hp : c.pending.get? i = some entry) (hrole : roles[entry.exchange]? = some (.opening h u))
    (o : Outcome) :
    (∀ (k : Nat) (u' : String) (y : Exchange), roles[k]? = some (.opening h u') →
        (c.answer i o).exchanges[k]? = some y → y.stage ≠ .fresh) ∧
      ∀ (j : Nat) (u' : String) (other : Entry), (c.answer i o).pending.get? j = some other →
        roles[other.exchange]? ≠ some (.opening h u') := by
  obtain ⟨x, hx, hw, hi, _⟩ := ht.calls.owned i entry hp
  have hlen : x.ids.length = 1 := by
    rw [← ht.single _ h u x hrole hx]
    refine (ht.calls.exchange _ x hx).idsLength ?_ ?_ <;>
      · intro hs
        simp [Exchange.isUnderWay, hs] at hw
  refine ⟨fun k u' y hk hy hf => ?_, fun j u' other hj hk => ?_⟩
  · -- the call is under way, so it is not one that has not been made
    obtain rfl := ht.apart k entry.exchange h u' u hk hrole
    obtain ⟨x', hx', _, hfresh, _⟩ := (Calls.answer_ages ht.calls i o).exchange _ y hy
    rw [hx] at hx'
    have hstage := hfresh hf
    rw [← Option.some.inj hx'] at hstage
    simp [Exchange.isUnderWay, hstage] at hw
  · have hk' := ht.apart other.exchange entry.exchange h u' u hk hrole
    rw [Calls.pending_answer] at hj
    split at hj
    · simp at hj
    · next hij =>
      obtain ⟨y, hy, _, hjy, _⟩ := ht.calls.owned j other hj
      rw [hk', hx] at hy
      obtain rfl := Option.some.inj hy
      obtain ⟨a, ha⟩ := List.length_eq_one_iff.1 hlen
      rw [ha, List.mem_singleton] at hi hjy
      exact hij (hi.trans hjy.symm)

/-- The answer to a subscribe call confirms its handle, which has no other one. -/
theorem Tied.confirm (ht : Tied c roles s) {i h : Nat} {u : String} {entry : Entry}
    (hp : c.pending.get? i = some entry) (hrole : roles[entry.exchange]? = some (.opening h u))
    (ho : s.isOpen h = true) (id : SubscriptionId) (o : Outcome) :
    Tied (c.answer i o) roles (s.confirm h id) := by
  have ht' := ht.age (Calls.answer_ages ht.calls i o)
  obtain ⟨hmade, hanswered⟩ := ht.answered hp hrole o
  have hnone := ht.unanswered i h u entry hp hrole
  have hother : ∀ h', h ≠ h' → (s.confirm h id).serverId? h' = s.serverId? h' := fun h' hne => by
    rw [Subscriptions.serverId?_confirm ho, if_neg hne]
  constructor
  case calls => exact ht'.calls
  case length => exact ht'.length
  case openLt =>
    intro h' ho'
    rw [Subscriptions.isOpen_confirm] at ho'
    rw [Subscriptions.nextHandle_confirm]
    exact ht.openLt h' ho'
  case subscribeLt =>
    intro k h' u' hk
    rw [Subscriptions.nextHandle_confirm]
    exact ht.subscribeLt k h' u' hk
  case apart => exact ht.apart
  case single => exact ht'.single
  case unmade =>
    intro k h' u' y hk hy hf
    by_cases hne : h = h'
    · subst hne
      exact absurd hf (hmade k u' y hk hy)
    · rw [hother h' hne]
      exact ht'.unmade k h' u' y hk hy hf
  case unanswered =>
    intro j h' u' other hj hk
    by_cases hne : h = h'
    · subst hne
      exact absurd hk (hanswered j u' other hj)
    · rw [hother h' hne]
      exact ht'.unanswered j h' u' other hj hk
  case routed =>
    intro id' h' hroute
    rw [Subscriptions.routes_confirm ho] at hroute
    split at hroute
    · next he =>
      rw [Subscriptions.serverId?_confirm ho, if_pos (Option.some.inj hroute), he]
    · have hid := ht.routed id' h' hroute
      rw [hother, hid]
      rintro rfl
      rw [hnone] at hid
      simp at hid

end Tied

namespace Link

variable {l : Link}

/-- The calls of a link are tied to its subscriptions. -/
abbrev Tied (l : Link) : Prop := NodeRpc.Tied l.calls l.roles l.subscriptions

/-- Where nothing is registered, nothing is routed. -/
theorem Tied.routes_eq_nil (ht : l.Tied) (hnone : ∀ h, l.subscriptions.isOpen h = false) :
    l.subscriptions.routes = [] := by
  refine Table.eq_nil_of_get? fun id => ?_
  cases hroute : l.subscriptions.routes.get? id with
  | none => rfl
  | some h =>
    have hopen := Subscriptions.isOpen_of_serverId? (ht.routed id h hroute)
    simp [hnone h] at hopen

theorem Tied.plain (ht : l.Tied) (calls : List Call) (batched : Bool) (token : Token) {role : Role}
    (hrole : ∀ h u, role ≠ .opening h u) : (l.make calls batched token role).Tied :=
  NodeRpc.Tied.make ht calls batched token fun h u he => absurd he (hrole h u)

theorem Tied.sayFarewell (ht : l.Tied) (farewell : Option (SubscriptionId × String)) :
    (l.sayFarewell farewell).Tied := by
  unfold Link.sayFarewell
  split
  · split
    · exact ht
    · exact ht.plain _ _ _ (by simp)
  · exact ht

theorem Tied.cancelToken (ht : l.Tied) (t : Token) : Tied { l with calls := l.calls.cancel t } :=
  NodeRpc.Tied.age ht (Calls.ages_apply (e := .cancel t) ht.calls rfl)

theorem Tied.closeStream (ht : l.Tied) (handle : Nat) (telling : Bool) :
    (l.closeStream handle telling).Tied := by
  unfold Link.closeStream
  split
  · exact ht
  · split
    · exact ht
    · next s _ _ =>
      have h : Link.Tied { l with
          calls := l.calls.cancel (.stream handle)
          subscriptions := l.subscriptions.release handle
          streams := l.streams.put handle { s with phase := .closed, receiving := false } } :=
        NodeRpc.Tied.release (ht.cancelToken _) handle
      split
      · exact h.sayFarewell _
      · exact h

theorem Tied.poll (ht : l.Tied) (handle : Nat) : (l.poll handle).2.Tied := by
  have htake : ∀ s, (l.take handle s).2.Tied := by
    intro s
    unfold take
    split
    · exact ht
    · split <;> exact ht
  unfold Link.poll
  split
  · exact ht
  · split
    · exact ht
    · split
      · exact ht.closeStream handle true
      · split
        · exact ht
        · split
          · exact ht
          · exact ht
          · exact htake _
          · exact htake _

theorem Tied.cancel (ht : l.Tied) (t : Token) : (l.cancel t).Tied := by
  have hstreams : ∀ (handles : List Nat) (l : Link), l.Tied →
      (handles.foldl cancelStream l).Tied := by
    intro handles
    induction handles with
    | nil => exact fun _ h => h
    | cons handle handles ih => exact fun l h => ih _ (Tied.cancelToken h (.stream handle))
  exact Tied.cancelToken (hstreams _ l ht) t

theorem Tied.open (ht : l.Tied) (request : SubscriptionRequest) (parent : Token) :
    (l.open request parent).Tied := by
  have hregister : ∀ c : Calls, NodeRpc.Tied c l.roles l.subscriptions →
      NodeRpc.Tied c l.roles (l.subscriptions.register request.names) := fun _ h => h.register _
  unfold Link.open
  dsimp only
  split <;> rw [Subscriptions.closed_register] <;> split
  · exact hregister _ (ht.cancelToken _)
  · next hopen =>
    refine NodeRpc.Tied.make (hregister _ (ht.cancelToken _)) _ _ _ fun h u he => ?_
    obtain ⟨rfl, rfl⟩ := Role.opening.inj he
    exact ⟨rfl, ht.newHandle request.names (by simpa using hopen)⟩
  · exact hregister _ ht
  · next hopen =>
    refine NodeRpc.Tied.make (hregister _ ht) _ _ _ fun h u he => ?_
    obtain ⟨rfl, rfl⟩ := Role.opening.inj he
    exact ⟨rfl, ht.newHandle request.names (by simpa using hopen)⟩

/-- A pending call that confirms a handle is its subscribe call. -/
theorem subscribing_of_roleOf {i handle : Nat} {unsubscribe : String}
    (h : l.roleOf i = .opening handle unsubscribe) :
    ∃ entry, l.calls.pending.get? i = some entry ∧
      l.roles[entry.exchange]? = some (.opening handle unsubscribe) := by
  unfold roleOf at h
  cases hrole : (l.calls.pending.get? i).bind fun entry => l.roles[entry.exchange]? with
  | none => simp [hrole] at h
  | some role =>
    rw [hrole] at h
    obtain ⟨entry, hp, hk⟩ := Option.bind_eq_some_iff.1 hrole
    exact ⟨entry, hp, by rw [hk]; exact congrArg some h⟩

theorem Tied.answer (ht : l.Tied) (i : Nat) (o : Outcome) : (l.answer i o).Tied := by
  have hplain : ∀ (l : Link) (o : Outcome), l.Tied → Tied { l with calls := l.calls.answer i o } :=
    fun l o ht => NodeRpc.Tied.age ht (Calls.answer_ages ht.calls i o)
  unfold Link.answer
  split
  next o' l' heq =>
  split at heq
  · next handle unsubscribe hrole =>
    unfold confirmed at heq
    split at heq
    · obtain ⟨rfl, rfl⟩ := Prod.mk.inj heq
      exact hplain l _ ht
    · split at heq
      · obtain ⟨rfl, rfl⟩ := Prod.mk.inj heq
        exact hplain l _ ht
      · next id _ =>
        split at heq
        · next ho =>
          obtain ⟨rfl, rfl⟩ := Prod.mk.inj heq
          obtain ⟨entry, hp, hk⟩ := subscribing_of_roleOf hrole
          exact NodeRpc.Tied.confirm ht hp hk ho id _
        · obtain ⟨rfl, rfl⟩ := Prod.mk.inj heq
          exact hplain _ _ (ht.sayFarewell _)
  · obtain ⟨rfl, rfl⟩ := Prod.mk.inj heq
    exact hplain l _ ht

theorem Tied.answerAll (as : List (Nat × Outcome)) (ht : l.Tied) : (l.answerAll as).Tied := by
  induction as generalizing l with
  | nil => exact ht
  | cons a as ih => exact ih (ht.answer a.1 a.2)

theorem Tied.opened (ht : l.Tied) (handle : Nat) (o : Outcome) : (l.opened handle o).Tied := by
  unfold Link.opened
  dsimp only
  split
  · exact ht
  · exact Tied.sayFarewell (l := (l.release handle).2) (NodeRpc.Tied.release ht handle) _

theorem Tied.runExchange (ht : l.Tied) (k : Nat) : (l.runExchange k).Tied := by
  have hdeadline : (l.setDeadline k).Tied := by
    unfold setDeadline
    split
    · exact NodeRpc.Tied.setTeardown ht k _
    · exact ht
  have hafter : ∀ l : Link, l.Tied → (l.afterTurn k).Tied := by
    intro l ht
    unfold afterTurn
    split
    · split
      · exact ht.opened _ _
      · exact ht
    · split
      · exact NodeRpc.Tied.age ht
          (Calls.ages_apply (e := .drop k) ht.calls (Calls.length_apply _ _))
      · exact ht
    · exact ht
  exact hafter _ (NodeRpc.Tied.age hdeadline
    (Calls.ages_apply (e := .run k) hdeadline.calls (Calls.length_apply _ _)))

theorem Tied.runDelivery (ht : l.Tied) (d : Nat) : (l.runDelivery d).Tied := by
  have hdeliver : ∀ handle ahead value, (l.deliver d handle ahead value).Tied := by
    intro handle ahead value
    unfold deliver
    split
    · exact ht
    · split
      · exact ht
      · split <;> exact ht
  unfold Link.runDelivery
  split
  · exact ht
  · split
    · split
      · exact hdeliver _ _ _
      · exact ht
    · exact hdeliver _ _ _
    · exact ht

/-- An event keeps a link tied. -/
theorem tied_apply (ht : l.Tied) (e : Event) : (l.apply e).Tied := by
  have hcalls : ∀ e' : Calls.Event,
      (l.calls.apply e').exchanges.length = l.calls.exchanges.length →
      Tied { l with calls := l.calls.apply e' } := fun _ hmake =>
    NodeRpc.Tied.age ht (Calls.ages_apply ht.calls hmake)
  cases e with
  | act a =>
    cases a with
    | call call token => exact ht.plain [call] false token (by simp)
    | batch calls token => exact ht.plain calls true token (by simp)
    | «open» request token => exact ht.open request token
    | poll handle => exact ht.poll handle
    | closeStream handle telling => exact ht.closeStream handle telling
    | dropStream handle telling => exact ht.closeStream handle telling
    | cancel token => exact ht.cancel token
    | drop k => exact hcalls (.drop k) (Calls.length_apply _ _)
    | advance ms => exact ht
  | release handle => exact NodeRpc.Tied.release ht handle
  | unsubscribe id method => exact ht.plain _ _ _ (by simp)
  | run t =>
    unfold apply run
    dsimp only
    split
    · cases t with
      | exchange k => exact ht.runExchange k
      | delivery d => exact ht.runDelivery d
    · exact ht
  | route r => exact Tied.answerAll _ ht
  | routeBatch responses => exact Tied.answerAll _ ht
  | reject error => exact Tied.answerAll _ ht
  | closeCalls => exact hcalls .close (Calls.length_apply _ _)
  | closeSubscriptions => exact NodeRpc.Tied.close ht
  | sink sink => exact hcalls (.sink sink) rfl
  | resume k reply => exact hcalls (.resume k reply) (Calls.length_apply _ _)
  | dispatch n => exact ht
  | dropDelivery d => exact ht

theorem tied_ofOptions (buffer : Nat) (policy : Backpressure) : (ofOptions buffer policy).Tied where
  calls := Calls.valid_empty
  length := rfl
  openLt h ho := by simp [ofOptions, Subscriptions.isOpen, Table.has, Table.get?] at ho
  subscribeLt k h u hk := by simp [ofOptions] at hk
  apart k k' h u u' hk := by simp [ofOptions] at hk
  single k h u x hk := by simp [ofOptions] at hk
  unmade k h u x hk := by simp [ofOptions] at hk
  unanswered i h u entry hp := by simp [ofOptions, Table.get?] at hp
  routed id h hroute := by simp [ofOptions, Table.get?] at hroute

end Link

end NodeRpc
