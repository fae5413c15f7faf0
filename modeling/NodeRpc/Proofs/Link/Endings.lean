import NodeRpc.Proofs.Link.Buffers
import NodeRpc.Proofs.Link.Confirmations

/-!
# Streams and how they end

`Streamed` says what holds of the streams of a link at all times: one that is registered receives,
and one that is neither registered nor cancelled, on an open connection, is one whose opening has
failed. So nothing is taken out of the buffer of a subscription that has ended (`poll_of_ended`).
-/

namespace NodeRpc

namespace Link

variable {l : Link}

/-- What holds of the streams of a link at all times. -/
structure Streamed (l : Link) : Prop where
  lt : ∀ (h : Nat) (s : Stream), l.streams.get? h = some s → h < l.subscriptions.nextHandle
  receiving : ∀ h, l.subscriptions.isOpen h = true →
    ∃ s, l.streams.get? h = some s ∧ s.receiving = true
  bounded : ∀ h, (l.bufferOf h).length ≤ l.capacity
  active : ∀ (h : Nat) (s : Stream) (id : SubscriptionId), l.streams.get? h = some s →
    s.phase = .active id → ∃ id', s.confirmation = some (.ok id')
  /-- While a subscribe call is under way, its stream does not know what it will come to. -/
  unopened : ∀ (k h : Nat) (u : String) (x : Exchange), l.roles[k]? = some (.opening h u) →
    l.calls.exchanges[k]? = some x → x.isLive = true →
    ∃ s, l.streams.get? h = some s ∧ s.confirmation = none
  /-- A stream that is not registered on an open connection was cancelled or could not be opened. -/
  ended : ∀ (h : Nat) (s : Stream), l.streams.get? h = some s → l.subscriptions.isOpen h = false →
    l.subscriptions.closed = false → l.calls.isCancelled (.stream h) = false →
    ∃ cause, s.confirmation = some (.error cause)

/-- Once a subscription has ended, no poll takes anything out of its buffer. -/
theorem poll_of_ended (hs : l.Streamed) {h : Nat}
    (hended : l.subscriptions.isOpen h = false ∨ l.calls.isCancelled (.stream h) = true)
    (value : Json) : (l.poll h).1 ≠ .item value := by
  unfold poll
  split
  · simp
  · next s hget =>
    split
    · simp
    · next hphase =>
      split
      · simp
      · next hcancelled =>
        split
        · simp
        · next hclosed =>
          have hopen : l.subscriptions.isOpen h = false := by
            rcases hended with hopen | hc
            · exact hopen
            · exact absurd hc hcancelled
          obtain ⟨cause, hconf⟩ := hs.ended h s hget hopen (by simpa using hclosed)
            (by simpa using hcancelled)
          rw [hconf]
          cases hp : s.phase with
          | pending => simp
          | active id =>
            obtain ⟨id', hconf'⟩ := hs.active h s id hget hp
            rw [hconf] at hconf'
            simp at hconf'
          | closed => exact absurd hp hphase

/-! ### Parts of steps -/

theorem Streamed.age (hs : l.Streamed) {c : Calls} (h : l.calls.Ages c) (roles : List Role)
    (hroles : ∀ (k h : Nat) (u : String), roles[k]? = some (.opening h u) →
      l.roles[k]? = some (.opening h u)) :
    Streamed { l with calls := c, roles } where
  lt := hs.lt
  receiving := hs.receiving
  bounded := hs.bounded
  active := hs.active
  unopened k i u x' hrole hx' hlive' := by
    obtain ⟨x, hx, _, _, hlive⟩ := h.exchange k x' hx'
    exact hs.unopened k i u x (hroles k i u hrole) hx (hlive hlive')
  ended i s hget ho hc hfree := by
    refine hs.ended i s hget ho hc ?_
    cases hold : l.calls.isCancelled (.stream i) with
    | false => rfl
    | true => exact absurd (h.cancelled _ hold) (by simpa using hfree)

theorem Streamed.plain (hs : l.Streamed) (ht : l.Tied) (calls : List Call) (batched : Bool)
    (token : Token) {role : Role} (hrole : ∀ h u, role ≠ .opening h u) :
    (l.make calls batched token role).Streamed where
  lt := hs.lt
  receiving := hs.receiving
  bounded := hs.bounded
  active := hs.active
  unopened k h u x hk hx hlive := by
    simp only [Link.make, Calls.make, getElem?_concat] at hk hx
    rw [ht.length] at hk
    split at hk
    · exact absurd (Option.some.inj hk) (hrole h u)
    · next hne =>
      rw [if_neg hne] at hx
      exact hs.unopened k h u x hk hx hlive
  ended := hs.ended

theorem Streamed.sayFarewell (hs : l.Streamed) (ht : l.Tied)
    (farewell : Option (SubscriptionId × String)) : (l.sayFarewell farewell).Streamed := by
  unfold Link.sayFarewell
  split
  · split
    · exact hs
    · exact hs.plain ht _ _ _ (by simp)
  · exact hs

/-- What a stream was before the stream of one handle changed. -/
theorem get?_updated {streams streams' : Table Nat Stream} {handle : Nat} {f : Stream → Stream}
    (hstreams : ∀ i, streams'.get? i =
      if handle = i then (streams.get? i).map f else streams.get? i) {i : Nat} {t : Stream}
    (hget : streams'.get? i = some t) :
    ∃ s, streams.get? i = some s ∧ (handle = i ∧ t = f s ∨ handle ≠ i ∧ t = s) := by
  rw [hstreams] at hget
  split at hget
  · next he =>
    obtain ⟨s, hs, rfl⟩ := Option.map_eq_some_iff.1 hget
    exact ⟨s, hs, .inl ⟨he, rfl⟩⟩
  · next hne => exact ⟨t, hget, .inr ⟨hne, rfl⟩⟩

/-- A stream may change in everything but its confirmation. -/
theorem Streamed.update (hs : l.Streamed) (handle : Nat) {f : Stream → Stream}
    {streams : Table Nat Stream}
    (hstreams : ∀ i, streams.get? i =
      if handle = i then (l.streams.get? i).map f else l.streams.get? i)
    (hconf : ∀ s, l.streams.get? handle = some s → (f s).confirmation = s.confirmation)
    (hreceiving : ∀ s, l.streams.get? handle = some s → l.subscriptions.isOpen handle = true →
      (f s).receiving = true)
    (hbounded : ∀ s, l.streams.get? handle = some s → (f s).buffer.length ≤ l.capacity)
    (hactive : ∀ s id, l.streams.get? handle = some s → (f s).phase = .active id →
      ∃ id', s.confirmation = some (.ok id')) :
    Streamed { l with streams } := by
  refine {
    lt := fun i t hi => ?lt
    receiving := fun i ho => ?receiving
    bounded := fun i => ?bounded
    active := fun i t id hi hp => ?active
    unopened := fun k i u x hk hx hlive => ?unopened
    ended := fun i t hi ho hc hfree => ?ended }
  case lt =>
    obtain ⟨s, hget, _⟩ := get?_updated hstreams hi
    exact hs.lt i s hget
  case receiving =>
    obtain ⟨s, hget, hrec⟩ := hs.receiving i ho
    dsimp only
    rw [hstreams, hget]
    split
    · next he =>
      subst he
      exact ⟨f s, rfl, hreceiving s hget ho⟩
    · exact ⟨s, rfl, hrec⟩
  case bounded =>
    have h := hs.bounded i
    unfold bufferOf at h ⊢
    dsimp only
    rw [hstreams]
    split
    · next he =>
      subst he
      cases hget : l.streams.get? handle with
      | none => simp
      | some s => simpa using hbounded s hget
    · exact h
  case active =>
    obtain ⟨s, hget, ⟨rfl, rfl⟩ | ⟨_, rfl⟩⟩ := get?_updated hstreams hi
    · rw [hconf s hget]
      exact hactive s id hget hp
    · exact hs.active i t id hget hp
  case unopened =>
    obtain ⟨s, hget, hnone⟩ := hs.unopened k i u x hk hx hlive
    dsimp only
    rw [hstreams, hget]
    split
    · next he =>
      subst he
      exact ⟨f s, rfl, (hconf s hget).trans hnone⟩
    · exact ⟨s, rfl, hnone⟩
  case ended =>
    obtain ⟨s, hget, he⟩ := get?_updated hstreams hi
    obtain ⟨cause, h⟩ := hs.ended i s hget ho hc hfree
    rcases he with ⟨rfl, rfl⟩ | ⟨_, rfl⟩
    · exact ⟨cause, (hconf s hget).trans h⟩
    · exact ⟨cause, h⟩

theorem Streamed.setStream (hs : l.Streamed) {handle : Nat} {s t : Stream}
    (hget : l.streams.get? handle = some s) (hconf : t.confirmation = s.confirmation)
    (hreceiving : l.subscriptions.isOpen handle = true → t.receiving = true)
    (hbounded : t.buffer.length ≤ l.capacity)
    (hactive : ∀ id, t.phase = .active id → ∃ id', t.confirmation = some (.ok id')) :
    (l.setStream handle t).Streamed := by
  have hsame : ∀ u, l.streams.get? handle = some u → u = s := fun u hu =>
    Option.some.inj (hu.symm.trans hget)
  refine hs.update handle (f := fun _ => t) (fun i => ?_) (fun u hu => ?_) (fun _ _ => hreceiving)
    (fun _ _ => hbounded) fun u id hu hp => ?_
  · rw [Table.get?_put]
    split
    · next he => rw [← he, hget, Option.map_some]
    · rfl
  · rw [hsame u hu, hconf]
  · obtain ⟨id', h⟩ := hactive id hp
    exact ⟨id', by rw [hsame u hu, ← hconf, h]⟩

/-- A handle may be released once its token is cancelled. -/
theorem Streamed.release (hs : l.Streamed) (handle : Nat)
    (hcancelled : l.calls.isCancelled (.stream handle) = true) :
    Streamed { l with subscriptions := l.subscriptions.release handle } where
  lt := hs.lt
  receiving h ho := by
    rw [Subscriptions.isOpen_release, Bool.and_eq_true] at ho
    exact hs.receiving h ho.2
  bounded := hs.bounded
  active := hs.active
  unopened := hs.unopened
  ended h s hget ho hc hfree := by
    refine hs.ended h s hget ?_ hc hfree
    rw [Subscriptions.isOpen_release, Bool.and_eq_false_iff] at ho
    rcases ho with he | ho
    · have he : handle = h := by simpa using he
      rw [he] at hcancelled
      exact absurd hcancelled (by simpa using hfree)
    · exact ho

/-- What subscriptions are open is all that streams have to do with them. -/
theorem Streamed.subscriptions (hs : l.Streamed) {subs : Subscriptions}
    (hopen : ∀ h, subs.isOpen h = l.subscriptions.isOpen h)
    (hclosed : subs.closed = l.subscriptions.closed)
    (hnext : subs.nextHandle = l.subscriptions.nextHandle) :
    Streamed { l with subscriptions := subs } where
  lt h s hget := by
    rw [hnext]
    exact hs.lt h s hget
  receiving h ho := hs.receiving h ((hopen h).symm.trans ho)
  bounded := hs.bounded
  active := hs.active
  unopened := hs.unopened
  ended h s hget ho hc hfree :=
    hs.ended h s hget ((hopen h).symm.trans ho) (hclosed.symm.trans hc) hfree

theorem Streamed.closeStream (hs : l.Streamed) (ht : l.Tied) (handle : Nat) (telling : Bool) :
    (l.closeStream handle telling).Streamed := by
  unfold Link.closeStream
  split
  · exact hs
  · next s hget =>
    split
    · exact hs
    · have hcancel : Streamed { l with calls := l.calls.cancel (.stream handle) } :=
        hs.age (Calls.ages_apply (e := .cancel (.stream handle)) ht.calls rfl) l.roles
          fun _ _ _ h => h
      have hrelease := hcancel.release handle (by simp [Calls.cancel, Calls.isCancelled])
      have hbuffer : s.buffer.length ≤ l.capacity := by
        have h := hs.bounded handle
        simpa [bufferOf, hget] using h
      have hset := hrelease.setStream (t := { s with phase := .closed, receiving := false }) hget
        rfl (fun ho => by simp [Subscriptions.isOpen_release] at ho) hbuffer (by simp)
      have htied : Link.Tied { l with
          calls := l.calls.cancel (.stream handle)
          subscriptions := l.subscriptions.release handle
          streams := l.streams.put handle { s with phase := .closed, receiving := false } } :=
        NodeRpc.Tied.release (ht.cancelToken _) handle
      split
      · exact Streamed.sayFarewell hset htied _
      · exact hset

theorem Streamed.take (hs : l.Streamed) {handle : Nat} {s t : Stream}
    (hget : l.streams.get? handle = some s) (hconf : t.confirmation = s.confirmation)
    (hbuffer : t.buffer = s.buffer) (hrec : t.receiving = s.receiving)
    (hactive : ∀ id, t.phase = .active id → ∃ id', t.confirmation = some (.ok id')) :
    (l.take handle t).2.Streamed := by
  have hreceiving : l.subscriptions.isOpen handle = true → t.receiving = true := by
    intro ho
    obtain ⟨u, hu, h⟩ := hs.receiving handle ho
    rw [hget] at hu
    rw [hrec, Option.some.inj hu, h]
  have hbounded : t.buffer.length ≤ l.capacity := by
    have h := hs.bounded handle
    rw [hbuffer]
    simpa [bufferOf, hget] using h
  unfold Link.take
  split
  · next value buffer hb =>
    refine hs.setStream (t := { t with buffer }) hget hconf hreceiving ?_ hactive
    rw [hb, List.length_cons] at hbounded
    exact Nat.le_of_succ_le hbounded
  · split
    · exact hs.setStream hget hconf hreceiving hbounded hactive
    · exact hs.setStream (t := { t with phase := .closed }) hget hconf hreceiving hbounded (by simp)

theorem Streamed.poll (hs : l.Streamed) (ht : l.Tied) (hv : l.Valid) (handle : Nat) :
    (l.poll handle).2.Streamed := by
  unfold Link.poll
  split
  · exact hs
  · next s hget =>
    have hreceiving : l.subscriptions.isOpen handle = true → s.receiving = true := fun ho => by
      obtain ⟨t, ht, h⟩ := hs.receiving handle ho
      rw [hget] at ht
      rw [Option.some.inj ht, h]
    have hbounded : s.buffer.length ≤ l.capacity := by
      simpa [bufferOf, hget] using hs.bounded handle
    split
    · exact hs
    · split
      · exact hs.closeStream ht handle true
      · split
        · next hclosed =>
          refine hs.setStream (t := { s with phase := .closed, receiving := false }) hget rfl
            (fun ho => ?_) hbounded (by simp)
          rw [hv.closed hclosed] at ho
          simp at ho
        · split
          · exact hs
          · exact hs.setStream (t := { s with phase := .closed }) hget rfl hreceiving hbounded
              (by simp)
          · next id _ hconf =>
            exact hs.take (t := { s with phase := .active id }) hget rfl rfl rfl
              fun _ _ => ⟨id, hconf⟩
          · exact hs.take hget rfl rfl rfl fun id hp => hs.active handle s id hget hp

theorem Streamed.dropStream (hs : l.Streamed) (ht : l.Tied) (hv : l.Valid) (handle : Nat)
    (telling : Bool) : (l.dropStream handle telling).Streamed := by
  have hclose := hs.closeStream ht handle telling
  have hnot := hv.not_isOpen_closeStream handle telling
  refine hclose.update handle (fun i => Table.get?_update ..) (fun _ _ => rfl) (fun _ _ ho => ?_)
    (fun s hget => ?_) fun s id hget hp => hclose.active handle s id hget hp
  · rw [hnot] at ho
    simp at ho
  · simpa [bufferOf, hget] using hclose.bounded handle

/-- Cancelling makes no call. -/
theorem cancel_ages (hv : l.calls.Valid) (t : Token) : l.calls.Ages (l.cancel t).calls := by
  have hstreams : ∀ (handles : List Nat) (l : Link), l.calls.Valid →
      l.calls.Ages (handles.foldl cancelStream l).calls := by
    intro handles
    induction handles with
    | nil => exact fun l hv => .refl hv
    | cons handle handles ih =>
      intro l hv
      have hage : l.calls.Ages (l.cancelStream handle).calls :=
        Calls.ages_apply (e := .cancel (.stream handle)) hv rfl
      exact hage.trans (ih _ hage.valid)
  have hage := hstreams (l.below t) l hv
  exact hage.trans (Calls.ages_apply (e := .cancel t) hage.valid rfl)

theorem Streamed.cancel (hs : l.Streamed) (ht : l.Tied) (t : Token) : (l.cancel t).Streamed := by
  have h := hs.age (cancel_ages ht.calls t) l.roles fun _ _ _ h => h
  rw [cancel_frame]
  exact h

/-- Opening makes the subscribe call of the next handle, unless the connection is gone. -/
theorem open_calls (ht : l.Tied) (request : SubscriptionRequest) (parent : Token) :
    ∃ c : Calls, l.calls.Ages c ∧
      (l.subscriptions.closed = true ∧ (l.open request parent).calls = c ∧
          (l.open request parent).roles = l.roles ∨
        l.subscriptions.closed = false ∧
          (l.open request parent).calls =
            c.make [⟨request.names.subscribe, request.params⟩] false
              (.stream l.subscriptions.nextHandle) ∧
          (l.open request parent).roles =
            l.roles ++ [.opening l.subscriptions.nextHandle request.names.unsubscribe]) := by
  have hcancel : l.calls.Ages (l.calls.cancel (.stream l.subscriptions.nextHandle)) :=
    Calls.ages_apply (e := .cancel _) ht.calls rfl
  unfold «open»
  dsimp only
  split <;> rw [Subscriptions.closed_register] <;> split
  · next hc => exact ⟨_, hcancel, .inl ⟨hc, rfl, rfl⟩⟩
  · next hc => exact ⟨_, hcancel, .inr ⟨by simpa using hc, rfl, rfl⟩⟩
  · next hc => exact ⟨_, .refl ht.calls, .inl ⟨hc, rfl, rfl⟩⟩
  · next hc => exact ⟨_, .refl ht.calls, .inr ⟨by simpa using hc, rfl, rfl⟩⟩

/-- Opening adds the stream of the next handle, which has failed at once if the connection is gone,
and leaves the others as they are. -/
theorem get?_streams_open {request : SubscriptionRequest} {parent : Token} {h : Nat} {s : Stream}
    (hget : (l.open request parent).streams.get? h = some s) :
    l.subscriptions.nextHandle = h ∧ s.phase = .pending ∧
        s.confirmation =
          (if l.subscriptions.closed then some (.error .transportClosed) else none) ∨
      l.subscriptions.nextHandle ≠ h ∧ l.streams.get? h = some s := by
  rw [(l.open_eq request parent).2, Table.get?_put] at hget
  split at hget
  · next he =>
    rw [← Option.some.inj hget]
    exact .inl ⟨he, rfl, rfl⟩
  · next hne => exact .inr ⟨hne, hget⟩

/-- A token that is cancelled stays so. -/
theorem cancelled_open (ht : l.Tied) (request : SubscriptionRequest) (parent : Token) {t : Token}
    (h : l.calls.isCancelled t = true) : (l.open request parent).calls.isCancelled t = true := by
  obtain ⟨c, hage, ⟨_, hcalls, _⟩ | ⟨_, hcalls, _⟩⟩ := open_calls ht request parent <;>
    rw [hcalls]
  · exact hage.cancelled _ h
  · simpa [Calls.make, Calls.isCancelled] using hage.cancelled _ h

/-- A subscribe call that is under way after opening is the new one, whose stream is new, or was
under way before. -/
theorem unopened_open (hs : l.Streamed) (ht : l.Tied) (request : SubscriptionRequest)
    (parent : Token) {k h : Nat} {u : String} {x : Exchange}
    (hk : (l.open request parent).roles[k]? = some (.opening h u))
    (hx : (l.open request parent).calls.exchanges[k]? = some x) (hlive : x.isLive = true) :
    ∃ s, (l.open request parent).streams.get? h = some s ∧ s.confirmation = none := by
  obtain ⟨c, hage, hcalls⟩ := open_calls ht request parent
  have hold : l.roles[k]? = some (.opening h u) → c.exchanges[k]? = some x →
      ∃ s, (l.open request parent).streams.get? h = some s ∧ s.confirmation = none := by
    intro hk hx
    obtain ⟨y, hy, _, _, hlive'⟩ := hage.exchange k x hx
    have hne : l.subscriptions.nextHandle ≠ h := Nat.ne_of_gt (ht.subscribeLt k h u hk)
    rw [(l.open_eq request parent).2, Table.get?_put, if_neg hne]
    exact hs.unopened k h u y hk hy (hlive' hlive)
  rcases hcalls with ⟨_, hc, hr⟩ | ⟨hopen, hc, hr⟩
  · rw [hc] at hx
    rw [hr] at hk
    exact hold hk hx
  · rw [hc] at hx
    simp only [hr, Calls.make, getElem?_concat, ht.length, hage.length] at hk hx
    split at hk
    · obtain ⟨rfl, rfl⟩ := Role.opening.inj (Option.some.inj hk)
      rw [(l.open_eq request parent).2, Table.get?_put, if_pos rfl]
      exact ⟨_, rfl, by simp [hopen]⟩
    · next hne =>
      rw [if_neg hne] at hx
      exact hold hk hx

theorem Streamed.open (hs : l.Streamed) (ht : l.Tied) (request : SubscriptionRequest)
    (parent : Token) : (l.open request parent).Streamed where
  lt h s hget := by
    rw [(l.open_eq request parent).1, Subscriptions.nextHandle_register]
    rcases get?_streams_open hget with ⟨he, _⟩ | ⟨_, hold⟩
    · omega
    · have := hs.lt h s hold
      omega
  receiving h ho := by
    rw [(l.open_eq request parent).1, Subscriptions.isOpen_register, Bool.or_eq_true] at ho
    rw [(l.open_eq request parent).2, Table.get?_put]
    split
    · exact ⟨_, rfl, rfl⟩
    · next hne =>
      rcases ho with ho | hnext
      · exact hs.receiving h ho
      · simp [hne] at hnext
  bounded h := by
    have hnew : l.streams.get? l.subscriptions.nextHandle = none := by
      cases hget : l.streams.get? l.subscriptions.nextHandle with
      | none => rfl
      | some s => exact absurd (hs.lt _ s hget) (Nat.lt_irrefl _)
    have hretains := open_retains hnew request parent
    rw [hretains.buffer, hretains.capacity]
    exact hs.bounded h
  active h s id hget hp := by
    rcases get?_streams_open hget with ⟨_, hphase, _⟩ | ⟨_, hold⟩
    · simp [hphase] at hp
    · exact hs.active h s id hold hp
  unopened _ _ _ _ hk hx hlive := unopened_open hs ht request parent hk hx hlive
  ended h s hget ho hc hfree := by
    rw [(l.open_eq request parent).1, Subscriptions.closed_register] at hc
    rw [(l.open_eq request parent).1, Subscriptions.isOpen_register, Bool.or_eq_false_iff] at ho
    rcases get?_streams_open hget with ⟨rfl, _, _⟩ | ⟨_, hold⟩
    · simp [hc] at ho
    · refine hs.ended h s hold ho.1 hc ?_
      cases hcancelled : l.calls.isCancelled (.stream h) with
      | false => rfl
      | true => exact absurd (cancelled_open ht request parent hcancelled) (by simpa using hfree)

theorem Streamed.answer (hs : l.Streamed) (ht : l.Tied) (i : Nat) (o : Outcome) :
    (l.answer i o).Streamed := by
  have hplain : ∀ (l : Link) (o : Outcome), l.Streamed → l.Tied →
      Streamed { l with calls := l.calls.answer i o } := fun l o hs ht =>
    hs.age (Calls.answer_ages ht.calls i o) l.roles fun _ _ _ h => h
  unfold Link.answer
  split
  next o' l' heq =>
  split at heq
  · next handle unsubscribe _ =>
    unfold confirmed at heq
    split at heq
    · obtain ⟨_, rfl⟩ := Prod.mk.inj heq
      exact hplain l _ hs ht
    · split at heq
      · obtain ⟨_, rfl⟩ := Prod.mk.inj heq
        exact hplain l _ hs ht
      · next id _ =>
        split at heq
        · obtain ⟨_, rfl⟩ := Prod.mk.inj heq
          exact (hplain l o' hs ht).subscriptions (Subscriptions.isOpen_confirm _ _ _)
            (Subscriptions.closed_confirm _ _ _) (Subscriptions.nextHandle_confirm _ _ _)
        · obtain ⟨_, rfl⟩ := Prod.mk.inj heq
          exact hplain _ _ (hs.sayFarewell ht _) (ht.sayFarewell _)
  · obtain ⟨_, rfl⟩ := Prod.mk.inj heq
    exact hplain l _ hs ht

theorem Streamed.answerAll (as : List (Nat × Outcome)) (hs : l.Streamed) (ht : l.Tied) :
    (l.answerAll as).Streamed := by
  induction as generalizing l with
  | nil => exact hs
  | cons a as ih => exact ih (hs.answer ht a.1 a.2) (ht.answer a.1 a.2)

/-! ### Turns of tasks -/

/-- The end of a subscribe call tells its stream what opening came to; if it has failed, the handle
is released. -/
theorem Streamed.conclude (hs : l.Streamed) {handle : Nat}
    (hnone : ∀ s, l.streams.get? handle = some s → s.confirmation = none)
    (hover : ∀ (k : Nat) (u : String) (x : Exchange), l.roles[k]? = some (.opening handle u) →
      l.calls.exchanges[k]? = some x → x.isLive = false)
    (result : Except CallError SubscriptionId) (subs : Subscriptions)
    (hsubs : subs = l.subscriptions ∧ (∃ id, result = .ok id) ∨
      subs = l.subscriptions.release handle ∧ ∃ cause, result = .error cause) :
    Streamed { l with
      subscriptions := subs
      streams := l.streams.update handle fun s => { s with confirmation := some result } } := by
  have hopen : ∀ h, subs.isOpen h = true → l.subscriptions.isOpen h = true := by
    intro h ho
    rcases hsubs with ⟨rfl, _⟩ | ⟨rfl, _⟩
    · exact ho
    · rw [Subscriptions.isOpen_release, Bool.and_eq_true] at ho
      exact ho.2
  have hnext : subs.nextHandle = l.subscriptions.nextHandle ∧
      subs.closed = l.subscriptions.closed := by
    rcases hsubs with ⟨rfl, _⟩ | ⟨rfl, _⟩ <;> exact ⟨rfl, rfl⟩
  have hstreams := fun i => Table.get?_update l.streams handle i fun s =>
    { s with confirmation := some result }
  refine {
    lt := fun h s hh => ?lt
    receiving := fun h ho => ?receiving
    bounded := fun h => ?bounded
    active := fun h s id hh hp => ?active
    unopened := fun k h u x hk hx hlive => ?unopened
    ended := fun h s hh ho hc hfree => ?ended }
  case lt =>
    obtain ⟨t, ht, _⟩ := get?_updated hstreams hh
    rw [hnext.1]
    exact hs.lt h t ht
  case receiving =>
    obtain ⟨s, hold, hrec⟩ := hs.receiving h (hopen h ho)
    dsimp only
    rw [Table.get?_update, hold]
    split
    · exact ⟨_, rfl, hrec⟩
    · exact ⟨s, rfl, hrec⟩
  case bounded =>
    have hretains := l.retains_update handle (f := fun s => { s with confirmation := some result })
      fun _ => rfl
    have hbuffer := hretains.buffer h
    have hbound := hs.bounded h
    rw [← hbuffer] at hbound
    exact hbound
  case active =>
    obtain ⟨t, ht, ⟨rfl, rfl⟩ | ⟨_, rfl⟩⟩ := get?_updated hstreams hh
    · -- a stream that does not know yet is not active
      obtain ⟨id', hconf⟩ := hs.active handle t id ht hp
      rw [hnone t ht] at hconf
      simp at hconf
    · exact hs.active h s id ht hp
  case unopened =>
    obtain ⟨t, ht, hconf⟩ := hs.unopened k h u x hk hx hlive
    have hne : handle ≠ h := by
      rintro rfl
      have hdead := hover k u x hk hx
      rw [hlive] at hdead
      simp at hdead
    dsimp only
    rw [Table.get?_update, if_neg hne]
    exact ⟨t, ht, hconf⟩
  case ended =>
    rw [hnext.2] at hc
    obtain ⟨t, ht, he⟩ := get?_updated hstreams hh
    rcases he with ⟨rfl, rfl⟩ | ⟨hne, rfl⟩
    · rcases hsubs with ⟨rfl, _⟩ | ⟨_, cause, rfl⟩
      · obtain ⟨cause, hconf⟩ := hs.ended handle t ht ho hc hfree
        rw [hnone t ht] at hconf
        simp at hconf
      · exact ⟨cause, rfl⟩
    · refine hs.ended h s ht ?_ hc hfree
      rcases hsubs with ⟨rfl, _⟩ | ⟨rfl, _⟩
      · exact ho
      · rw [Subscriptions.isOpen_release] at ho
        simpa [hne] using ho

/-- Telling the node takes no notice of the streams. -/
theorem sayFarewell_streams (l : Link) (streams : Table Nat Stream)
    (farewell : Option (SubscriptionId × String)) :
    sayFarewell { l with streams } farewell = { l.sayFarewell farewell with streams } := by
  unfold sayFarewell
  split
  · split <;> rfl
  · rfl

theorem Streamed.opened (hs : l.Streamed) (ht : l.Tied) {handle : Nat}
    (hnone : ∀ s, l.streams.get? handle = some s → s.confirmation = none)
    (hover : ∀ (k : Nat) (u : String) (x : Exchange), l.roles[k]? = some (.opening handle u) →
      l.calls.exchanges[k]? = some x → x.isLive = false) (o : Outcome) :
    (l.opened handle o).Streamed := by
  unfold Link.opened
  dsimp only
  split
  · next id heq =>
    rw [heq]
    exact hs.conclude hnone hover (.ok id) _ (.inl ⟨rfl, id, rfl⟩)
  · next cause heq =>
    rw [heq]
    have h := hs.conclude hnone hover (.error cause) (l.subscriptions.release handle)
      (.inr ⟨rfl, cause, rfl⟩)
    have hfarewell := h.sayFarewell (NodeRpc.Tied.release ht handle)
      (l.subscriptions.farewell? handle)
    have hframe := sayFarewell_streams (l.release handle).2
      (l.streams.update handle fun s => { s with confirmation := some (.error cause) })
      (l.subscriptions.farewell? handle)
    have hsame : ((l.release handle).2.sayFarewell (l.subscriptions.farewell? handle)).streams =
        l.streams := by
      rw [sayFarewell_frame]
      rfl
    have hrelease : l.release handle =
        (l.subscriptions.farewell? handle, (l.release handle).2) := rfl
    rw [hrelease]
    dsimp only
    rw [hsame]
    exact hframe ▸ hfarewell

theorem Streamed.runExchange (hs : l.Streamed) (ht : l.Tied) (k : Nat)
    (hlive : ∀ (h : Nat) (u : String), l.roles[k]? = some (.opening h u) →
      ∃ x, l.calls.exchanges[k]? = some x ∧ x.isLive = true) : (l.runExchange k).Streamed := by
  -- setting the deadline changes no subscribe call
  have hroles : ∀ (j h : Nat) (u : String), (l.setDeadline k).roles[j]? = some (.opening h u) →
      l.roles[j]? = some (.opening h u) := by
    intro j h u hj
    unfold setDeadline at hj
    split at hj
    · rw [List.getElem?_set] at hj
      split at hj
      · split at hj <;> simp at hj
      · exact hj
    · exact hj
  have hframe : l.setDeadline k = { l with roles := (l.setDeadline k).roles } := by
    unfold setDeadline
    split <;> rfl
  have hage : l.calls.Ages (l.calls.run k) :=
    Calls.ages_apply (e := .run k) ht.calls (Calls.length_apply _ _)
  have hturned := hs.age hage _ hroles
  have htied : Tied { l with calls := l.calls.run k, roles := (l.setDeadline k).roles } := by
    have hdeadline : (l.setDeadline k).Tied := by
      unfold setDeadline
      split
      · exact NodeRpc.Tied.setTeardown ht k _
      · exact ht
    rw [hframe] at hdeadline
    exact NodeRpc.Tied.age hdeadline hage
  have hrun : l.runExchange k =
      Link.afterTurn { l with calls := l.calls.run k, roles := (l.setDeadline k).roles } k := by
    unfold Link.runExchange
    rw [hframe]
  rw [hrun]
  unfold afterTurn
  split
  · next handle u x hrole hx =>
    split
    · next outcome ho =>
      have hk : (l.setDeadline k).roles[k]? = some (.opening handle u) := by
        unfold roleAt at hrole
        dsimp only at hrole
        cases hget : (l.setDeadline k).roles[k]? with
        | none => simp [List.getD_eq_getElem?_getD, hget] at hrole
        | some role => simpa [List.getD_eq_getElem?_getD, hget] using hrole
      have hdead : x.isLive = false := by
        revert ho
        unfold Exchange.outcome? Exchange.isLive
        cases x.stage <;> simp
      refine hturned.opened htied (fun s hget => ?_) (fun j u' y hj hy => ?_) outcome
      · obtain ⟨y, hy, hl⟩ := hlive handle u (hroles k handle u hk)
        obtain ⟨s', hget', hnone⟩ := hs.unopened k handle u y (hroles k handle u hk) hy hl
        have hsame := hget.symm.trans hget'
        rw [Option.some.inj hsame, hnone]
      · obtain rfl := htied.apart j k handle u' u hj hk
        rw [hx] at hy
        rw [← Option.some.inj hy, hdead]
    · exact hturned
  · split
    · exact hturned.age (Calls.ages_apply (e := .drop k) htied.calls (Calls.length_apply _ _)) _
        fun _ _ _ h => h
    · exact hturned
  · exact hturned

/-- How far deliveries have come, and the time, do not matter to the streams. -/
theorem Streamed.elsewhere (hs : l.Streamed) (deliveries : List Delivery) (now : Nat) :
    Streamed { l with deliveries, now } :=
  ⟨hs.lt, hs.receiving, hs.bounded, hs.active, hs.unopened, hs.ended⟩

theorem Streamed.enqueue (hs : l.Streamed) {handle ahead : Nat}
    (hroom : l.hasRoom handle ahead = true) (value : Json) : (l.enqueue handle value).Streamed := by
  refine hs.update handle (fun i => Table.get?_update ..) (fun _ _ => rfl) (fun s hget ho => ?_)
    (fun s hget => ?_) fun s id hget hp => hs.active handle s id hget hp
  · obtain ⟨t, ht, hrec⟩ := hs.receiving handle ho
    rw [hget] at ht
    rw [Option.some.inj ht, hrec]
  · unfold hasRoom at hroom
    rw [hget] at hroom
    have hlt : s.buffer.length + ahead < l.capacity := by simpa using hroom
    rw [List.length_append]
    exact Nat.succ_le_of_lt (Nat.lt_of_le_of_lt (Nat.le_add_right _ _) hlt)

theorem Streamed.deliver (hs : l.Streamed) (d handle ahead : Nat) (value : Json) :
    (l.deliver d handle ahead value).Streamed := by
  unfold Link.deliver
  split
  · exact hs.elsewhere _ _
  · split
    · next hroom => exact (hs.enqueue hroom value).elsewhere _ _
    · split
      · exact hs.elsewhere _ _
      · exact hs.elsewhere _ _

theorem Streamed.runDelivery (hs : l.Streamed) (d : Nat) : (l.runDelivery d).Streamed := by
  unfold Link.runDelivery
  split
  · exact hs
  · split
    · split
      · exact hs.deliver _ _ _ _
      · exact hs.elsewhere _ _
    · exact hs.deliver _ _ _ _
    · exact hs

/-- A subscribe call that can have a turn is under way. -/
theorem live_of_canRun {k : Nat} (hcan : l.canRun (.exchange k) = true) {h : Nat} {u : String}
    (hrole : l.roles[k]? = some (.opening h u)) :
    ∃ x, l.calls.exchanges[k]? = some x ∧ x.isLive = true := by
  have hoverdue : l.isOverdue k = false := by
    unfold isOverdue roleAt
    rw [List.getD_eq_getElem?_getD, hrole]
    rfl
  have hcalls : l.calls.canRun k = true := by simpa [canRun, hoverdue] using hcan
  unfold Calls.canRun at hcalls
  split at hcalls
  · simp at hcalls
  · next x hx =>
    refine ⟨x, hx, ?_⟩
    unfold Exchange.isLive
    revert hcalls
    cases x.stage <;> simp

/-! ### Every event -/

/-- An event keeps what holds of the streams, unless it releases a handle behind their backs. -/
theorem streamed_apply (hs : l.Streamed) (ht : l.Tied) (hv : l.Valid) {e : Event}
    (he : ∀ h, e ≠ .release h) : (l.apply e).Streamed := by
  have hcalls : ∀ e' : Calls.Event,
      (l.calls.apply e').exchanges.length = l.calls.exchanges.length →
      Streamed { l with calls := l.calls.apply e' } := fun _ hmake =>
    hs.age (Calls.ages_apply ht.calls hmake) l.roles fun _ _ _ h => h
  cases e with
  | act a =>
    cases a with
    | call call token => exact hs.plain ht [call] false token (by simp)
    | batch calls token => exact hs.plain ht calls true token (by simp)
    | «open» request token => exact hs.open ht request token
    | poll handle => exact hs.poll ht hv handle
    | closeStream handle telling => exact hs.closeStream ht handle telling
    | dropStream handle telling => exact hs.dropStream ht hv handle telling
    | cancel token => exact hs.cancel ht token
    | drop k => exact hcalls (.drop k) (Calls.length_apply _ _)
    | advance ms => exact hs.elsewhere _ _
  | release handle => exact absurd rfl (he handle)
  | unsubscribe id method => exact hs.plain ht _ _ _ (by simp)
  | run t =>
    unfold apply run
    dsimp only
    split
    · next hcan =>
      cases t with
      | exchange k => exact hs.runExchange ht k fun h u => live_of_canRun hcan
      | delivery d => exact hs.runDelivery d
    · exact hs
  | route r => exact Streamed.answerAll _ hs ht
  | routeBatch responses => exact Streamed.answerAll _ hs ht
  | reject error => exact Streamed.answerAll _ hs ht
  | closeCalls => exact hcalls .close (Calls.length_apply _ _)
  | closeSubscriptions =>
    refine ⟨hs.lt, fun h ho => ?_, hs.bounded, hs.active, hs.unopened, fun h s _ _ hc => ?_⟩
    · simp [Link.apply, Link.closeSubscriptions, Subscriptions.close, Subscriptions.isOpen,
        Table.has, Table.get?] at ho
    · simp [Link.apply, Link.closeSubscriptions, Subscriptions.close] at hc
  | sink sink => exact hcalls (.sink sink) rfl
  | resume k reply => exact hcalls (.resume k reply) (Calls.length_apply _ _)
  | dispatch n => exact hs.elsewhere _ _
  | dropDelivery d => exact hs.elsewhere _ _

theorem streamed_ofOptions (buffer : Nat) (policy : Backpressure) :
    (ofOptions buffer policy).Streamed where
  lt h s hget := by simp [ofOptions, Table.get?] at hget
  receiving h ho := by simp [ofOptions, Subscriptions.isOpen, Table.has, Table.get?] at ho
  bounded h := by simp [ofOptions, bufferOf, Table.get?]
  active h s id hget := by simp [ofOptions, Table.get?] at hget
  unopened k h u x hk := by simp [ofOptions] at hk
  ended h s hget := by simp [ofOptions, Table.get?] at hget

end Link

end NodeRpc
