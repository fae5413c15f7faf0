import NodeRpc.Proofs.Link.Histories
import NodeRpc.Proofs.Link.Phases

/-!
# What a consumer finds in the life of a subscription

A stream is pending, then active, then closed, and never goes back. A poll closes it exactly if it
fails or finds the end (`poll_phase`), and after that every poll finds the end; so a stream fails at
most once. Once it is closed or cancelled it neither yields nor fails, and once its connection is
gone it yields no more, whatever its buffer holds.
-/

namespace NodeRpc

/-- Whether a poll finds a failure. -/
def Polled.isFailure : Polled → Bool
  | .failed _ => true
  | _ => false

/-- Whether a poll finds a failure or the end. -/
def Polled.isLast : Polled → Bool
  | .failed _ | .ended => true
  | _ => false

/-- A stream can come from one phase to another, or stay there. -/
inductive Phase.Precedes : Phase → Phase → Prop where
  | same (p : Phase) : Precedes p p
  | activated (id : SubscriptionId) : Precedes .pending (.active id)
  | closed (p : Phase) : Precedes p .closed

theorem Phase.Precedes.trans {p q r : Phase} (h : p.Precedes q) (h' : q.Precedes r) :
    p.Precedes r := by
  cases h with
  | same => exact h'
  | activated id =>
    cases h' with
    | same => exact .activated id
    | closed => exact .closed _
  | closed =>
    cases h' with
    | same => exact .closed _
    | closed => exact .closed _

/-- If after a failure or the end there is only the end, there is at most one failure. -/
theorem countP_isFailure_le_one {polls : List Polled}
    (h : polls.Pairwise fun found later => found.isLast = true → later = .ended) :
    polls.countP Polled.isFailure ≤ 1 := by
  induction h with
  | nil => simp
  | @cons found later hlast _ ih =>
    rw [List.countP_cons]
    cases found with
    | failed cause =>
      have hnone : later.countP Polled.isFailure = 0 := by
        rw [List.countP_eq_zero]
        intro other hother
        simp [hlast other hother rfl, Polled.isFailure]
      simp [hnone, Polled.isFailure]
    | _ => simpa [Polled.isFailure] using ih

namespace Link

variable {l : Link}

/-! ### One poll -/

/-- Polling a stream that is neither pending nor closed. -/
theorem take_phase {h : Nat} {s : Stream} (hs : s.phase ≠ .closed) :
    ∃ p, (l.take h s).2.phase? h = some p ∧ s.phase.Precedes p ∧
      ((l.take h s).1.isLast = true ↔ p = .closed) := by
  have hput : ∀ t, (l.setStream h t).phase? h = some t.phase := by
    intro t
    simp [phase?, setStream, Table.get?_put]
  unfold take
  split
  · next value buffer _ => exact ⟨s.phase, hput _, .same _, by simp [Polled.isLast, hs]⟩
  · split
    · exact ⟨s.phase, hput _, .same _, by simp [Polled.isLast, hs]⟩
    · exact ⟨.closed, hput _, .closed _, by simp [Polled.isLast]⟩

/-- A poll takes a stream forward, and closes it exactly if it finds a failure or the end. -/
theorem poll_phase {h : Nat} {p : Phase} (hp : l.phase? h = some p) :
    ∃ p', (l.poll h).2.phase? h = some p' ∧ p.Precedes p' ∧
      ((l.poll h).1.isLast = true ↔ p' = .closed) := by
  obtain ⟨s, hs, rfl⟩ := Option.map_eq_some_iff.1 hp
  have hput : ∀ t, (l.setStream h t).phase? h = some t.phase := by
    intro t
    simp [phase?, setStream, Table.get?_put]
  unfold poll
  rw [hs]
  dsimp only
  split
  · next hclosed => exact ⟨s.phase, hp, .same _, by simp [Polled.isLast, hclosed]⟩
  · next hopen =>
    split
    · have hclose : (l.closeStream h true).phase? h = some .closed := by
        rw [l.closeStream_frame h true hs hopen]
        simp [phase?, Table.get?_put]
      exact ⟨.closed, hclose, .closed _, by simp [Polled.isLast]⟩
    · split
      · exact ⟨.closed, hput _, .closed _, by simp [Polled.isLast]⟩
      · split
        · exact ⟨s.phase, hp, .same _, by simp [Polled.isLast, hopen]⟩
        · exact ⟨.closed, hput _, .closed _, by simp [Polled.isLast]⟩
        · next id hpending _ =>
          obtain ⟨p, hp', hprecedes, hlast⟩ :=
            take_phase (l := l) (h := h) (s := { s with phase := .active id }) (by simp)
          exact ⟨p, hp', (hpending ▸ Phase.Precedes.activated id).trans hprecedes, hlast⟩
        · exact take_phase hopen

/-- A stream that was closed or cancelled has ended, whatever its buffer holds. -/
theorem poll_of_cancelled {h : Nat} (hc : l.calls.isCancelled (.stream h) = true) :
    (l.poll h).1 = .ended := by
  unfold poll
  split
  · rfl
  · split
    · rfl
    · simp

/-- A stream whose connection is gone yields nothing, whatever its buffer holds. -/
theorem poll_of_closed_connection {h : Nat} (hc : l.subscriptions.closed = true) (value : Json) :
    (l.poll h).1 ≠ .item value := by
  unfold poll
  split
  · simp
  · split
    · simp
    · split <;> simp

/-! ### All polls of a run -/

/-- What the polls of the stream `h` find in a run. -/
def polled (l : Link) (h : Nat) (events : List Event) : List Polled :=
  l.trace (fun l e => if e = .act (.poll h) then [(l.poll h).1] else []) events

theorem polled_cons (l : Link) (h : Nat) (e : Event) (events : List Event) :
    l.polled h (e :: events) =
      (if e = .act (.poll h) then [(l.poll h).1] else []) ++ (l.apply e).polled h events := rfl

/-- How often a stream is polled in a run. -/
abbrev pollsOf (h : Nat) (events : List Event) : Nat := events.count (.act (.poll h))

/-- What is found by every poll, in all states that a run can come to. -/
theorem polled_of_stable {h : Nat} {P : Link → Prop} (hP : ∀ l e, P l → P (l.apply e))
    {Q : Polled → Prop} (hQ : ∀ l, P l → Q (l.poll h).1) (hl : P l) (events : List Event) :
    ∀ found ∈ l.polled h events, Q found := by
  induction events generalizing l with
  | nil =>
    intro found hfound
    simp [polled, trace] at hfound
  | cons e events ih =>
    intro found hfound
    rw [polled_cons, List.mem_append] at hfound
    rcases hfound with hfound | hfound
    · split at hfound
      · rw [List.mem_singleton.1 hfound]
        exact hQ l hl
      · simp at hfound
    · exact ih (hP l e hl) found hfound

theorem length_polled (l : Link) (h : Nat) (events : List Event) :
    (l.polled h events).length = pollsOf h events := by
  induction events generalizing l with
  | nil => rfl
  | cons e events ih =>
    rw [polled_cons, List.length_append, ih, pollsOf, pollsOf, List.count_cons]
    by_cases he : e = .act (.poll h) <;> simp [he, Nat.add_comm]

/-- A run in which every poll finds the end. -/
theorem polled_eq_ended {h : Nat} {events : List Event}
    (hended : ∀ found ∈ l.polled h events, found = .ended) :
    l.polled h events = List.replicate (pollsOf h events) .ended :=
  List.eq_replicate_iff.2 ⟨l.length_polled h events, hended⟩

theorem polled_of_cancelled {h : Nat} (hc : l.calls.isCancelled (.stream h) = true)
    (events : List Event) :
    l.polled h events = List.replicate (pollsOf h events) .ended :=
  polled_eq_ended (polled_of_stable (P := fun l => l.calls.isCancelled (.stream h) = true)
    (fun _ e hl => stable_apply (Calls.cancelled_stable _) hl e) (fun _ hl => poll_of_cancelled hl)
    hc events)

theorem polled_of_closed {h : Nat} (hlt : h < l.subscriptions.nextHandle)
    (hp : l.phase? h = some .closed) (events : List Event) :
    l.polled h events = List.replicate (pollsOf h events) .ended := by
  refine polled_eq_ended (polled_of_stable
    (P := fun l => h < l.subscriptions.nextHandle ∧ l.phase? h = some .closed) ?_ ?_ ⟨hlt, hp⟩ events)
  · rintro l e ⟨hlt, hp⟩
    exact ⟨Nat.lt_of_lt_of_le hlt (onward_apply l e).next, phase_closed_apply hlt hp e⟩
  · rintro l ⟨_, hp⟩
    rw [poll_of_closed hp]

theorem polled_of_lost {h : Nat} (hc : l.subscriptions.closed = true) (events : List Event) :
    ∀ value, .item value ∉ l.polled h events := by
  intro value hfound
  exact polled_of_stable (P := fun l => l.subscriptions.closed = true)
    (Q := fun found => found ≠ .item value) (fun _ e hl => closed_apply hl e)
    (fun _ hl => poll_of_closed_connection hl value) hc events _ hfound rfl

/-- An event takes a stream forward, if it changes its phase. -/
theorem phase_forward_apply {h : Nat} {p : Phase} (hlt : h < l.subscriptions.nextHandle)
    (hp : l.phase? h = some p) (e : Event) :
    ∃ p', (l.apply e).phase? h = some p' ∧ p.Precedes p' := by
  by_cases he : e = .act (.poll h)
  · obtain ⟨p', hp', hprecedes, _⟩ := poll_phase hp
    exact ⟨p', by rw [he]; exact hp', hprecedes⟩
  · rcases phase_apply hlt he with hsame | ⟨hclosed, _⟩
    · exact ⟨p, hsame.trans hp, .same p⟩
    · exact ⟨.closed, hclosed, .closed p⟩

theorem phase_forward_after {h : Nat} {p : Phase} (hlt : h < l.subscriptions.nextHandle)
    (hp : l.phase? h = some p) (events : List Event) :
    ∃ p', (l.after events).phase? h = some p' ∧ p.Precedes p' := by
  induction events using List.reverseRecOn with
  | nil => exact ⟨p, hp, .same p⟩
  | append_singleton events e ih =>
    obtain ⟨q, hq, hpq⟩ := ih
    obtain ⟨r, hr, hqr⟩ :=
      phase_forward_apply (Nat.lt_of_lt_of_le hlt (l.nextHandle_le_after events)) hq e
    rw [after_concat]
    exact ⟨r, hr, hpq.trans hqr⟩

/-- After a poll that finds a failure or the end, every poll finds the end. -/
theorem pairwise_polled {h : Nat} {p : Phase} (hlt : h < l.subscriptions.nextHandle)
    (hp : l.phase? h = some p) (events : List Event) :
    (l.polled h events).Pairwise fun found later => found.isLast = true → later = .ended := by
  induction events generalizing l p with
  | nil => exact .nil
  | cons e events ih =>
    obtain ⟨p', hp', _⟩ := phase_forward_apply hlt hp e
    have hlt' := Nat.lt_of_lt_of_le hlt (onward_apply l e).next
    have hrest := ih hlt' hp'
    rw [polled_cons]
    split
    · next he =>
      rw [List.singleton_append, List.pairwise_cons]
      refine ⟨?_, hrest⟩
      intro later hlater hlast
      obtain ⟨q, hq, _, hiff⟩ := poll_phase hp
      have hclosed : (l.apply e).phase? h = some .closed := by
        rw [he, ← hiff.1 hlast]
        exact hq
      rw [polled_of_closed hlt' hclosed] at hlater
      exact List.eq_of_mem_replicate hlater
    · exact hrest

/-! ### The token of a stream -/

/-- The token that the stream `handle` was opened with. -/
def parent? (l : Link) (handle : Nat) : Option Token :=
  (l.streams.get? handle).map Stream.parent

/-- A stream keeps its token. -/
theorem parent_apply {h : Nat} (hlt : h < l.subscriptions.nextHandle) (e : Event) :
    (l.apply e).parent? h = l.parent? h := by
  by_cases he : ∃ k, e = .run (.exchange k)
  · obtain ⟨k, rfl⟩ := he
    unfold parent? apply run
    dsimp only
    split
    · exact map_runExchange (fun _ _ => rfl) l k h
    · rfl
  · exact map_apply (fun _ _ hparent _ => hparent) hlt fun k hk => he ⟨k, hk⟩

theorem parent_after {h : Nat} (hlt : h < l.subscriptions.nextHandle) (events : List Event) :
    (l.after events).parent? h = l.parent? h := by
  induction events using List.reverseRecOn with
  | nil => rfl
  | append_singleton events e ih =>
    rw [after_concat, parent_apply (Nat.lt_of_lt_of_le hlt (l.nextHandle_le_after events)), ih]

/-! ### The whole life -/

/-- The consumer closes or drops the stream `h`, or the token that it was opened with is
cancelled. -/
def Event.Withdraws (h : Nat) (token : Token) : Event → Prop
  | .act (.closeStream handle _) | .act (.dropStream handle _) => handle = h
  | .act (.cancel t) => t = token ∨ t = .stream h
  | _ => False

/-- What a consumer finds in the life `events` of the subscription `h`, which was opened with
`token` on `l`. -/
structure Orderly (l : Link) (h : Nat) (token : Token) (events : List Event) : Prop where
  /-- At any two moments, the phase at the first precedes the one at the second. -/
  forward : ∀ before later, events = before ++ later → ∃ p p',
    (l.after before).phase? h = some p ∧ (l.after events).phase? h = some p' ∧ p.Precedes p'
  once : (l.polled h events).countP Polled.isFailure ≤ 1
  last : (l.polled h events).Pairwise fun found later => found.isLast = true → later = .ended
  /-- From the loss of the connection on, nothing is yielded. -/
  lost : ∀ before later, events = before ++ .closeSubscriptions :: later → ∀ value,
    .item value ∉ ((l.after before).apply .closeSubscriptions).polled h later
  /-- From its withdrawal on, a stream has ended. -/
  withdrawn : ∀ before e later, events = before ++ e :: later → e.Withdraws h token →
    ((l.after before).apply e).polled h later = List.replicate (pollsOf h later) .ended

/-- A stream that is withdrawn is closed or cancelled. -/
theorem withdrawn_apply {h : Nat} {s : Stream} (hs : l.streams.get? h = some s) {e : Event}
    (he : e.Withdraws h s.parent) :
    (l.apply e).phase? h = some .closed ∨ (l.apply e).calls.isCancelled (.stream h) = true := by
  have hclose : ∀ telling, (l.closeStream h telling).phase? h = some .closed := by
    intro telling
    by_cases hp : s.phase = .closed
    · rw [closeStream_of_closed]
      · simp [phase?, hs, hp]
      · intro s' hs'
        rw [hs] at hs'
        rw [← Option.some.inj hs', hp]
    · rw [l.closeStream_frame h telling hs hp]
      simp [phase?, Table.get?_put]
  cases e with
  | act a =>
    cases a with
    | closeStream handle telling =>
      obtain rfl : handle = h := he
      exact .inl (hclose telling)
    | dropStream handle telling =>
      obtain rfl : handle = h := he
      have hdrop : (l.dropStream handle telling).phase? handle =
          (l.closeStream handle telling).phase? handle :=
        map_update (g := fun s => { s with receiving := false, held := false }) (fun _ => rfl) _
          handle handle
      exact .inl (hdrop.trans (hclose telling))
    | cancel t =>
      refine .inr ?_
      rcases he with rfl | rfl
      · exact isCancelled_cancel_parent hs
      · exact List.contains_iff_mem.2 List.mem_cons_self
    | _ => exact absurd he id
  | _ => exact absurd he id

/-- What becomes of a stream that is there. -/
theorem orderly_of_stream {h : Nat} {s : Stream} (hlt : h < l.subscriptions.nextHandle)
    (hs : l.streams.get? h = some s) (events : List Event) : l.Orderly h s.parent events := by
  have hp : l.phase? h = some s.phase := by simp [phase?, hs]
  have hlater : ∀ before, h < (l.after before).subscriptions.nextHandle :=
    fun before => Nat.lt_of_lt_of_le hlt (l.nextHandle_le_after before)
  have hpairwise := pairwise_polled hlt hp events
  refine ⟨?_, countP_isFailure_le_one hpairwise, hpairwise, ?_, ?_⟩
  · rintro before later rfl
    obtain ⟨p, hbefore, _⟩ := phase_forward_after hlt hp before
    obtain ⟨p', hafter, hprecedes⟩ := phase_forward_after (hlater before) hbefore later
    rw [after_append]
    exact ⟨p, p', hbefore, hafter, hprecedes⟩
  · intro before later _
    exact polled_of_lost rfl later
  · intro before e later _ he
    have hparent : (l.after before).parent? h = some s.parent := by
      rw [parent_after hlt, parent?, hs]
      rfl
    obtain ⟨t, ht, heq⟩ := Option.map_eq_some_iff.1 hparent
    rw [← heq] at he
    rcases withdrawn_apply ht he with hclosed | hcancelled
    · exact polled_of_closed
        (Nat.lt_of_lt_of_le (hlater before) (onward_apply _ e).next) hclosed later
    · exact polled_of_cancelled hcancelled later

/-- A subscription goes forward from its opening on, fails at most once and finds nothing but the
end after a failure or the end. It yields nothing once its connection is gone, be that before its
opening, and has ended once it was closed, dropped or cancelled, be that before its opening. -/
theorem subscription_orderly (buffer : Nat) (policy : Backpressure) (past : List Event)
    (request : SubscriptionRequest) (token : Token) (events : List Event) :
    let link := (ofOptions buffer policy).after past
    let h := link.subscriptions.nextHandle
    (link.open request token).phase? h = some .pending ∧
      (link.open request token).Orderly h token events ∧
      (link.subscriptions.closed = true →
        ∀ value, .item value ∉ (link.open request token).polled h events) ∧
      (link.calls.isCancelled token = true → (link.open request token).polled h events =
        List.replicate (pollsOf h events) .ended) := by
  intro link h
  obtain ⟨hsubs, hstreams⟩ := link.open_eq request token
  obtain ⟨s, hs, hpending, htoken⟩ : ∃ s, (link.open request token).streams.get? h = some s ∧
      s.phase = .pending ∧ s.parent = token := by
    rw [hstreams, Table.get?_put, if_pos rfl]
    exact ⟨_, rfl, rfl, rfl⟩
  have hlt : h < (link.open request token).subscriptions.nextHandle := by
    rw [hsubs, Subscriptions.nextHandle_register]
    omega
  refine ⟨by simp [phase?, hs, hpending], htoken ▸ orderly_of_stream hlt hs events, ?_, ?_⟩
  · intro hclosed
    refine polled_of_lost ?_ events
    rw [hsubs, Subscriptions.closed_register, hclosed]
  · intro hcancelled
    refine polled_of_cancelled ?_ events
    have hcancel : (link.calls.cancel (.stream h)).isCancelled (.stream h) = true := by
      simp [Calls.cancel, Calls.isCancelled]
    unfold «open»
    dsimp only
    rw [if_pos hcancelled]
    split
    · exact hcancel
    · exact hcancel

/-- A stream that holds a notification when it is closed has ended for its consumer. -/
example :
    let request : SubscriptionRequest :=
      ⟨⟨"slotSubscribe", "slotUnsubscribe", "slotNotification"⟩, .arr []⟩
    let notify (n : Int) : List Event := [.dispatch ⟨"slotNotification", .number 7, .int n⟩]
    let link := (ofOptions 2 .pauseReads).open request (.caller 0)
    link.polled 1 ([.act (.poll 1), .run (.exchange 0), .route ⟨1, .ok (.int 7)⟩,
      .run (.exchange 0)] ++ notify 5 ++ notify 6 ++ [.run (.delivery 0), .run (.delivery 1),
      .act (.poll 1), .act (.closeStream 1 true), .act (.poll 1), .act (.poll 1)]) =
    [.pending, .item (.int 5), .ended, .ended] := by
  decide

end Link

end NodeRpc
