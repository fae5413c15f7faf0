import Mathlib.Data.List.Induction
import NodeRpc.Link.Run

/-!
# Registered handles have streams

A handle is registered only while the consumer still has its stream, that stream is not closed, and
opening it has not failed. `Link.Valid` says so, and that nothing is registered once the connection
is gone; `valid_apply` shows that an event keeps it. All events but two only narrow what is
registered: `Narrows` is that relation, and it is shown once for every part of a step.
-/

namespace NodeRpc

namespace Subscriptions

/-! ### Which handles are registered -/

theorem isOpen_register (s : Subscriptions) (names : SubscriptionNames) (h : Nat) :
    (s.register names).isOpen h = (s.isOpen h || (!s.closed && decide (s.nextHandle = h))) := by
  unfold register isOpen Table.has
  dsimp only
  cases hc : s.closed with
  | true => simp
  | false =>
    simp only [Bool.false_eq_true, if_false]
    rw [Table.get?_put]
    by_cases hn : s.nextHandle = h <;> simp [hn]

theorem closed_register (s : Subscriptions) (names : SubscriptionNames) :
    (s.register names).closed = s.closed := by
  unfold register
  split <;> rfl

theorem nextHandle_register (s : Subscriptions) (names : SubscriptionNames) :
    (s.register names).nextHandle = s.nextHandle + 1 := by
  unfold register
  split <;> rfl

theorem routes_register (s : Subscriptions) (names : SubscriptionNames) :
    (s.register names).routes = s.routes := by
  unfold register
  split <;> rfl

theorem isOpen_confirm (s : Subscriptions) (handle : Nat) (id : SubscriptionId) (h : Nat) :
    (s.confirm handle id).isOpen h = s.isOpen h := by
  unfold confirm
  split
  · next r hr =>
    unfold isOpen Table.has
    rw [Table.get?_put]
    split
    · next heq => simp [← heq, hr]
    · rfl
  · rfl

theorem closed_confirm (s : Subscriptions) (handle : Nat) (id : SubscriptionId) :
    (s.confirm handle id).closed = s.closed := by
  unfold confirm
  split <;> rfl

theorem isOpen_release (s : Subscriptions) (handle h : Nat) :
    (s.release handle).isOpen h = (decide (handle ≠ h) && s.isOpen h) := by
  unfold release isOpen Table.has
  rw [Table.get?_erase]
  by_cases hh : handle = h <;> simp [hh]

theorem ended_of_release {s : Subscriptions} {handle h : Nat}
    (ho : (s.release handle).isOpen h = false) : h = handle ∨ s.isOpen h = false := by
  rw [isOpen_release, Bool.and_eq_false_iff] at ho
  exact ho.imp_left fun he => (show handle = h by simpa using he).symm

/-- Releasing a handle that is not registered changes nothing. -/
theorem release_of_not_isOpen {s : Subscriptions} {handle : Nat} (h : s.isOpen handle = false) :
    s.release handle = s := by
  have hnone : s.registrations.get? handle = none := by simpa [isOpen, Table.has] using h
  have hkey := (Table.get?_eq_none_iff _ _).1 hnone
  have herase : s.registrations.erase handle = s.registrations := by
    refine List.filter_eq_self.2 fun p hp => ?_
    simp only [ne_eq, decide_eq_true_eq]
    rintro rfl
    exact hkey (List.mem_map_of_mem hp)
  simp [release, farewell?, hnone, herase]

end Subscriptions

/-- Whether a stream can still be registered: its consumer has it, it is not closed, and opening it
has not failed. -/
structure Stream.Live (s : Stream) : Prop where
  phase : s.phase ≠ .closed
  held : s.held = true
  confirmation : ∀ cause, s.confirmation ≠ some (.error cause)

namespace Link

/-- The stream `handle` is there and live. -/
def HasLive (l : Link) (handle : Nat) : Prop :=
  ∃ s, l.streams.get? handle = some s ∧ s.Live

/-- What holds of a link at all times. -/
structure Valid (l : Link) : Prop where
  closed : l.subscriptions.closed = true → ∀ h, l.subscriptions.isOpen h = false
  live : ∀ h, l.subscriptions.isOpen h = true → l.HasLive h

theorem Valid.registrations_eq_nil {l : Link} (hv : l.Valid) (hc : l.subscriptions.closed = true) :
    l.subscriptions.registrations = [] :=
  Table.eq_nil_of_get? fun h => by simpa [Subscriptions.isOpen, Table.has] using hv.closed hc h

/-- Nothing is registered newly, and what stays registered keeps its stream. -/
structure Narrows (l l' : Link) : Prop where
  closed : l'.subscriptions.closed = l.subscriptions.closed
  isOpen : ∀ h, l'.subscriptions.isOpen h = true → l.subscriptions.isOpen h = true
  live : ∀ h, l'.subscriptions.isOpen h = true → l.HasLive h → l'.HasLive h

theorem Narrows.refl (l : Link) : l.Narrows l := ⟨rfl, fun _ h => h, fun _ _ h => h⟩

theorem Narrows.trans {l l' l'' : Link} (h : l.Narrows l') (h' : l'.Narrows l'') : l.Narrows l'' :=
  ⟨h'.closed.trans h.closed, fun i hi => h.isOpen i (h'.isOpen i hi),
    fun i hi hl => h'.live i hi (h.live i (h'.isOpen i hi) hl)⟩

theorem narrows_of_eq {l l' : Link} (hsub : l'.subscriptions = l.subscriptions)
    (hstr : l'.streams = l.streams) : l.Narrows l' := by
  refine ⟨by rw [hsub], fun h hi => by rwa [hsub] at hi, fun h _ hl => ?_⟩
  unfold HasLive
  rw [hstr]
  exact hl

theorem Valid.narrow {l l' : Link} (hv : l.Valid) (h : l.Narrows l') : l'.Valid where
  closed hc i := by
    have hold := hv.closed (h.closed.symm.trans hc) i
    cases hi : l'.subscriptions.isOpen i with
    | false => rfl
    | true => exact absurd (h.isOpen i hi) (by simp [hold])
  live i hi := h.live i hi (hv.live i (h.isOpen i hi))

/-! ### Parts of steps -/

theorem release_narrows (l : Link) (handle : Nat) : l.Narrows (l.release handle).2 := by
  refine ⟨rfl, fun h hi => ?_, fun h _ hl => hl⟩
  have hi := (Subscriptions.isOpen_release _ _ _).symm.trans hi
  rw [Bool.and_eq_true] at hi
  exact hi.2

theorem not_isOpen_release (l : Link) (handle : Nat) :
    (l.release handle).2.subscriptions.isOpen handle = false := by
  refine (Subscriptions.isOpen_release _ _ _).trans ?_
  simp

/-- Telling the node makes a call, and nothing else. -/
theorem sayFarewell_frame (l : Link) (farewell : Option (SubscriptionId × String)) :
    l.sayFarewell farewell = { l with
      calls := (l.sayFarewell farewell).calls, roles := (l.sayFarewell farewell).roles } := by
  unfold sayFarewell
  split
  · split <;> rfl
  · rfl

theorem sayFarewell_narrows (l : Link) (farewell : Option (SubscriptionId × String)) :
    l.Narrows (l.sayFarewell farewell) := by
  rw [sayFarewell_frame]
  exact narrows_of_eq rfl rfl

/-- A stream may be replaced by a live one, and by any if its handle is not registered. -/
theorem setStream_narrows (l : Link) (handle : Nat) (s : Stream)
    (h : l.subscriptions.isOpen handle = true → s.Live) : l.Narrows (l.setStream handle s) := by
  refine ⟨rfl, fun i hi => hi, fun i hi hl => ?_⟩
  unfold HasLive setStream
  dsimp only
  rw [Table.get?_put]
  split
  · next heq => exact ⟨s, rfl, h (heq ▸ hi)⟩
  · exact hl

/-- A stream may be changed as long as it stays live, and in any way if its handle is not
registered. -/
theorem updateStream_narrows (l : Link) (handle : Nat) (f : Stream → Stream)
    (h : l.subscriptions.isOpen handle = true → ∀ s, Stream.Live s → (f s).Live) :
    l.Narrows { l with streams := l.streams.update handle f } := by
  refine ⟨rfl, fun i hi => hi, fun i hi hl => ?_⟩
  obtain ⟨s, hs, hlive⟩ := hl
  unfold HasLive
  dsimp only
  rw [Table.get?_update]
  split
  · next heq => exact ⟨f s, by rw [hs]; rfl, h (heq ▸ hi) s hlive⟩
  · exact ⟨s, hs, hlive⟩

/-! ### What callers do -/

/-- Closing an open stream releases its handle, and lets nothing be delivered to it any more. -/
theorem closeStream_frame (l : Link) (handle : Nat) (telling : Bool) {s : Stream}
    (hs : l.streams.get? handle = some s) (hp : s.phase ≠ .closed) :
    l.closeStream handle telling = { l with
      calls := (l.closeStream handle telling).calls
      roles := (l.closeStream handle telling).roles
      subscriptions := l.subscriptions.release handle
      streams := l.streams.put handle { s with phase := .closed, receiving := false } } := by
  unfold closeStream
  rw [hs]
  simp only [hp, if_false]
  split
  · exact sayFarewell_frame _ _
  · rfl

/-- Closing a stream that is not there, or closed, changes nothing. -/
theorem closeStream_of_closed (l : Link) (handle : Nat) (telling : Bool)
    (h : ∀ s, l.streams.get? handle = some s → s.phase = .closed) :
    l.closeStream handle telling = l := by
  unfold closeStream
  split
  · rfl
  · next s hs => rw [if_pos (h s hs)]

theorem closeStream_narrows (l : Link) (handle : Nat) (telling : Bool) :
    l.Narrows (l.closeStream handle telling) := by
  by_cases h : ∀ s, l.streams.get? handle = some s → s.phase = .closed
  · rw [l.closeStream_of_closed handle telling h]
    exact .refl l
  · push Not at h
    obtain ⟨s, hs, hp⟩ := h
    rw [l.closeStream_frame handle telling hs hp]
    have hset : (l.release handle).2.Narrows ((l.release handle).2.setStream handle
        { s with phase := .closed, receiving := false }) := by
      refine setStream_narrows _ handle _ fun hopen => ?_
      rw [not_isOpen_release] at hopen
      simp at hopen
    exact (l.release_narrows handle).trans (hset.trans (narrows_of_eq rfl rfl))

theorem Valid.not_isOpen_closeStream {l : Link} (hv : l.Valid) (handle : Nat) (telling : Bool) :
    (l.closeStream handle telling).subscriptions.isOpen handle = false := by
  by_cases hl : l.HasLive handle
  · obtain ⟨s, hs, hlive⟩ := hl
    rw [l.closeStream_frame handle telling hs hlive.phase]
    exact l.not_isOpen_release handle
  · cases hopen : (l.closeStream handle telling).subscriptions.isOpen handle with
    | false => rfl
    | true =>
      exact absurd (hv.live handle ((l.closeStream_narrows handle telling).isOpen _ hopen)) hl

theorem Valid.dropStream_narrows {l : Link} (hv : l.Valid) (handle : Nat) (telling : Bool) :
    l.Narrows (l.dropStream handle telling) := by
  refine (l.closeStream_narrows handle telling).trans
    (updateStream_narrows _ handle _ fun hopen => ?_)
  rw [hv.not_isOpen_closeStream] at hopen
  simp at hopen

theorem take_narrows (l : Link) (handle : Nat) {s : Stream}
    (h : l.subscriptions.isOpen handle = true → s.Live) : l.Narrows (l.take handle s).2 := by
  unfold take
  split
  · next value buffer _ =>
    exact l.setStream_narrows handle { s with buffer } fun hopen =>
      ⟨(h hopen).phase, (h hopen).held, (h hopen).confirmation⟩
  · split
    · exact l.setStream_narrows handle s h
    · next hnot =>
      refine l.setStream_narrows handle _ fun hopen => ?_
      simp [hopen] at hnot

theorem Valid.poll_narrows {l : Link} (hv : l.Valid) (handle : Nat) :
    l.Narrows (l.poll handle).2 := by
  unfold poll
  split
  · exact .refl l
  · next s hs =>
    have hlive : l.subscriptions.isOpen handle = true → s.Live := by
      intro hopen
      obtain ⟨s', hs', hlive⟩ := hv.live handle hopen
      rw [hs] at hs'
      rwa [Option.some.inj hs']
    split
    · exact .refl l
    · split
      · exact l.closeStream_narrows handle true
      · split
        · next hclosed =>
          refine l.setStream_narrows handle _ fun hopen => ?_
          rw [hv.closed hclosed] at hopen
          simp at hopen
        · split
          · exact .refl l
          · next cause _ hconf =>
            refine l.setStream_narrows handle _ fun hopen => ?_
            exact absurd hconf ((hlive hopen).confirmation cause)
          · next id _ _ =>
            exact l.take_narrows handle fun hopen =>
              ⟨by simp, (hlive hopen).held, (hlive hopen).confirmation⟩
          · exact l.take_narrows handle hlive

theorem cancelStreams_frame (handles : List Nat) (l : Link) :
    handles.foldl cancelStream l = { l with calls := (handles.foldl cancelStream l).calls } := by
  induction handles generalizing l with
  | nil => rfl
  | cons handle handles ih => exact ih (l.cancelStream handle)

/-- Cancelling a token tells the calls, and nothing else. -/
theorem cancel_frame (l : Link) (t : Token) :
    l.cancel t = { l with calls := (l.cancel t).calls } := by
  have h := cancelStreams_frame (l.below t) l
  unfold cancel cancelCalls
  rw [h]

theorem cancel_narrows (l : Link) (t : Token) : l.Narrows (l.cancel t) := by
  rw [cancel_frame]
  exact narrows_of_eq rfl rfl

/-! ### What arrives -/

theorem confirmed_narrows (l : Link) (handle : Nat) (unsubscribe : String) (outcome : Outcome) :
    l.Narrows (l.confirmed handle unsubscribe outcome).2 := by
  unfold confirmed
  split
  · exact .refl l
  · split
    · exact .refl l
    · split
      · refine ⟨Subscriptions.closed_confirm _ _ _, fun i hi => ?_, fun i _ hl => hl⟩
        exact (Subscriptions.isOpen_confirm _ _ _ _).symm.trans hi
      · next id _ _ => exact l.sayFarewell_narrows (some (id, unsubscribe))

theorem answer_narrows (l : Link) (id : Nat) (outcome : Outcome) :
    l.Narrows (l.answer id outcome) := by
  unfold answer
  split
  next outcome' l' heq =>
  have h : l.Narrows l' := by
    split at heq
    · next handle unsubscribe _ =>
      have h := l.confirmed_narrows handle unsubscribe outcome
      rw [heq] at h
      exact h
    · rw [← (Prod.mk.inj heq).2]
      exact .refl l
  exact h.trans (narrows_of_eq rfl rfl)

theorem answerAll_narrows (as : List (Nat × Outcome)) (l : Link) : l.Narrows (l.answerAll as) := by
  induction as generalizing l with
  | nil => exact .refl l
  | cons a as ih => exact (l.answer_narrows a.1 a.2).trans (ih _)

/-! ### Turns of tasks -/

theorem opened_narrows (l : Link) (handle : Nat) (outcome : Outcome) :
    l.Narrows (l.opened handle outcome) := by
  unfold opened
  dsimp only
  split
  · next id heq =>
    rw [heq]
    refine l.updateStream_narrows handle _ fun _ s hs => ⟨hs.phase, hs.held, by simp⟩
  · next cause heq =>
    refine (l.release_narrows handle).trans ((sayFarewell_narrows _ _).trans
      (updateStream_narrows _ handle _ fun hopen => ?_))
    rw [sayFarewell_frame, not_isOpen_release] at hopen
    simp at hopen

theorem runExchange_narrows (l : Link) (k : Nat) : l.Narrows (l.runExchange k) := by
  have hdeadline : l.Narrows (l.setDeadline k) := by
    unfold setDeadline
    split
    · exact narrows_of_eq rfl rfl
    · exact .refl l
  have hafter : ∀ l : Link, l.Narrows (l.afterTurn k) := by
    intro l
    unfold afterTurn
    split
    · split
      · exact l.opened_narrows _ _
      · exact .refl l
    · split
      · exact narrows_of_eq rfl rfl
      · exact .refl l
    · exact .refl l
  have hrun : (l.setDeadline k).Narrows
      { l.setDeadline k with calls := (l.setDeadline k).calls.run k } := narrows_of_eq rfl rfl
  exact hdeadline.trans (hrun.trans (hafter _))

theorem runDelivery_narrows (l : Link) (d : Nat) : l.Narrows (l.runDelivery d) := by
  have hset : ∀ stage, l.Narrows (l.setDelivery d stage) := fun _ => narrows_of_eq rfl rfl
  have hdeliver : ∀ handle ahead value, l.Narrows (l.deliver d handle ahead value) := by
    intro handle ahead value
    unfold deliver
    split
    · exact hset _
    · split
      · have henqueue : l.Narrows (l.enqueue handle value) :=
          l.updateStream_narrows handle _ fun _ s hs => ⟨hs.phase, hs.held, hs.confirmation⟩
        exact henqueue.trans (narrows_of_eq rfl rfl)
      · split <;> exact hset _
  unfold runDelivery
  split
  · exact .refl l
  · split
    · split
      · exact hdeliver _ _ _
      · exact hset _
    · exact hdeliver _ _ _
    · exact .refl l

/-! ### Whole steps -/

/-- Opening takes a handle and makes its stream, which has failed at once if the connection is
gone. -/
theorem open_eq (l : Link) (request : SubscriptionRequest) (parent : Token) :
    (l.open request parent).subscriptions = l.subscriptions.register request.names ∧
      (l.open request parent).streams = l.streams.put l.subscriptions.nextHandle
        { parent, confirmation :=
            if l.subscriptions.closed then some (.error .transportClosed) else none } := by
  unfold «open»
  dsimp only
  split <;> rw [Subscriptions.closed_register] <;> split <;>
    exact ⟨rfl, by simp_all [setStream, make]⟩

theorem Valid.open {l : Link} (hv : l.Valid) (request : SubscriptionRequest) (parent : Token) :
    (l.open request parent).Valid := by
  obtain ⟨hsub, hstr⟩ := l.open_eq request parent
  refine ⟨?_, ?_⟩
  · intro hc h
    rw [hsub, Subscriptions.closed_register] at hc
    rw [hsub, Subscriptions.isOpen_register, hv.closed hc, hc]
    rfl
  · intro h hopen
    rw [hsub, Subscriptions.isOpen_register, Bool.or_eq_true] at hopen
    unfold HasLive
    rw [hstr, Table.get?_put]
    split
    · next heq =>
      -- a handle is registered only on an open connection
      have hc : l.subscriptions.closed = false := by
        cases hc : l.subscriptions.closed with
        | false => rfl
        | true => simp [hc, hv.closed hc] at hopen
      exact ⟨_, rfl, by simp, rfl, by simp [hc]⟩
    · next hne =>
      rcases hopen with hopen | hnew
      · exact hv.live h hopen
      · simp [hne] at hnew

theorem valid_closeSubscriptions (l : Link) : l.closeSubscriptions.Valid where
  closed _ _ := rfl
  live h hopen := by
    simp [Link.closeSubscriptions, Subscriptions.close, Subscriptions.isOpen, Table.has,
      Table.get?] at hopen

theorem valid_ofOptions (buffer : Nat) (policy : Backpressure) :
    (ofOptions buffer policy).Valid where
  closed _ _ := rfl
  live h hopen := by simp [ofOptions, Subscriptions.isOpen, Table.has, Table.get?] at hopen

/-- An event keeps a link valid. -/
theorem valid_apply {l : Link} (hv : l.Valid) (e : Event) : (l.apply e).Valid := by
  have hcalls : ∀ l' : Link, l'.subscriptions = l.subscriptions → l'.streams = l.streams →
      l'.Valid := fun l' hsub hstr => hv.narrow (narrows_of_eq hsub hstr)
  cases e with
  | act a =>
    cases a with
    | «open» request token => exact hv.open request token
    | poll handle => exact hv.narrow (hv.poll_narrows handle)
    | closeStream handle telling => exact hv.narrow (l.closeStream_narrows handle telling)
    | dropStream handle telling => exact hv.narrow (hv.dropStream_narrows handle telling)
    | cancel token => exact hv.narrow (l.cancel_narrows token)
    | _ => exact hcalls _ rfl rfl
  | release handle => exact hv.narrow (l.release_narrows handle)
  | run t =>
    unfold apply run
    dsimp only
    split
    · cases t with
      | exchange k => exact hv.narrow (l.runExchange_narrows k)
      | delivery d => exact hv.narrow (l.runDelivery_narrows d)
    · exact hv
  | route r => exact hv.narrow (answerAll_narrows _ l)
  | routeBatch responses => exact hv.narrow (answerAll_narrows _ l)
  | reject error => exact hv.narrow (answerAll_narrows _ l)
  | closeSubscriptions => exact l.valid_closeSubscriptions
  | _ => exact hcalls _ rfl rfl

/-- A link is valid after any events. -/
theorem valid_after (buffer : Nat) (policy : Backpressure) (events : List Event) :
    ((ofOptions buffer policy).after events).Valid := by
  induction events using List.reverseRecOn with
  | nil => exact valid_ofOptions buffer policy
  | append_singleton events e ih =>
    rw [after_concat]
    exact valid_apply ih e

end Link

end NodeRpc
