import NodeRpc.Frame.Writer
import NodeRpc.Proofs.Calls.Settling
import NodeRpc.Proofs.Link.Waits
import NodeRpc.Proofs.Session.Ledger

/-!
# Noise changes nothing

Whatever a node sends that is for nobody, the reader skips it: items that cannot be read, responses
to calls that are not pending, notifications without a subscription, and errors without an id when
no batch is out. `Widens` is a run into which such items were inserted, anywhere, and in which the
reader has read some of them. Callers and consumers find the same in both runs, the node is written
the same, and the tables are the same at the end (`noise_changes_nothing`).

An event of the narrow run is matched by itself, and what the wide run does in addition makes no
difference: it only leaves deliveries behind that are done (`Agrees`).
-/

namespace NodeRpc.Session

variable {s t : Session} {marks : List Bool} {base wide : List Event}

/-- Whether an item would be for nobody if it were read now. -/
def ignores (s : Session) : Arrival → Bool
  | .malformed _ => true
  | .failure _ => false
  | .text text =>
    match Incoming.parse text with
    | .error _ => true
    | .ok (.response r) => !s.link.calls.pending.has r.id
    | .ok (.batch rs) => !rs.any fun r => s.link.calls.pending.has r.id
    | .ok (.rejected _) => !s.link.calls.pending.any fun p => p.2.batch.isSome
    | .ok (.notification n) =>
      match s.link.subscriptions.routes.get? n.subscription with
      | none => true
      | some h => (s.link.subscriptions.registrations.get? h).all fun r => r.notification ≠ n.method

/-! ### Runs with insertions -/

/-- Which of the items that have not been read were inserted, after an event that is none of the
insertions. -/
def marksAfter (s : Session) (marks : List Bool) (e : Event) : List Bool :=
  match e with
  | .arrive _ => if s.ended then marks else marks ++ [false]
  | _ => if s.takes e then marks.tail else marks

/-- From the session `s`, of whose unread items those were inserted that are marked, the run `wide`
is the run `base` with more insertions: they may arrive at any time, and those that the reader comes
to must be for nobody then. -/
inductive Widens : Session → List Bool → List Event → List Event → Prop where
  | nil (s : Session) (marks : List Bool) : Widens s marks [] []
  /-- An event of both runs; the reader has not come to an insertion. -/
  | own {s : Session} {marks : List Bool} {base wide : List Event} (e : Event)
      (hown : s.takes e = true → marks.head? ≠ some true)
      (h : Widens (s.apply e) (s.marksAfter marks e) base wide) :
      Widens s marks (e :: base) (e :: wide)
  | inserted {s : Session} {marks : List Bool} {base wide : List Event} (a : Arrival)
      (h : Widens (s.arrive a) (if s.ended then marks else marks ++ [true]) base wide) :
      Widens s marks base (.arrive a :: wide)
  /-- The reader takes an insertion, which is for nobody. -/
  | ignored {s : Session} {marks : List Bool} {base wide : List Event} (e : Event)
      (htakes : s.takes e = true) (hnoise : s.arrived.head?.all s.ignores = true)
      (h : Widens (s.apply e) marks base wide) : Widens s (true :: marks) base (e :: wide)

/-- What a poll finds, and for which stream. -/
def finds? (s : Session) : Event → Option (Nat × Polled)
  | .act (.poll h) => some (h, (s.link.poll h).1)
  | _ => none

/-- What the consumers find in a run, in order. -/
def found (s : Session) (events : List Event) : List (Nat × Polled) :=
  s.trace (fun s e => (s.finds? e).toList) events

/-- The unread items that were not inserted. -/
def unmarked (arrived : List Arrival) (marks : List Bool) : List Arrival :=
  ((arrived.zip marks).filter fun p => !p.2).map Prod.fst

theorem unmarked_concat {arrived : List Arrival} (hlen : marks.length = arrived.length)
    (a : Arrival) (mark : Bool) :
    unmarked (arrived ++ [a]) (marks ++ [mark]) =
      unmarked arrived marks ++ if mark then [] else [a] := by
  unfold unmarked
  rw [List.zip_append hlen.symm, List.filter_append, List.map_append]
  cases mark <;> rfl

/-! ### The two sessions -/

/-- The readers of two sessions do the same: if they wait, it is for the same delivery. -/
def ReadsAlike (s t : Session) : Prop :=
  (s.reader = t.reader ∧ ∀ d, s.reader ≠ .delivering d) ∨
    ∃ d d', s.reader = .delivering d ∧ t.reader = .delivering d' ∧
      s.link.deliveries[d]? = t.link.deliveries[d']?

/-- The session `s` is the session `t` with insertions: they differ in the unread items that are
marked, and in deliveries that do not wait. -/
structure Agrees (s : Session) (marks : List Bool) (t : Session) : Prop where
  link : s.link = t.link.withDeliveries s.link.deliveries
  blocked : ∀ h, Link.blockedOn s.link.deliveries h = Link.blockedOn t.link.deliveries h
  reader : s.ReadsAlike t
  length : marks.length = s.arrived.length
  arrived : t.arrived = unmarked s.arrived marks
  ended : s.ended = t.ended
  owned : s.owned = t.owned
  closing : s.closing = t.closing

theorem Agrees.isClosing (ha : s.Agrees marks t) : s.isClosing = t.isClosing := by
  unfold Session.isClosing hasCallers
  rw [ha.owned, ha.closing, ha.link]
  rfl

/-- An event of the link that is no step of a delivery. -/
theorem Agrees.onLink (ha : s.Agrees marks t) {e : Link.Event} (he : e.delivers = false) :
    (s.onLink (·.apply e)).Agrees marks (t.onLink (·.apply e)) := by
  have hs := s.link.deliveries_apply he
  have ht := t.link.deliveries_apply he
  have hlink : s.link.apply e = (t.link.apply e).withDeliveries (s.link.apply e).deliveries := by
    rw [hs]
    conv_lhs => rw [ha.link]
    exact t.link.apply_deliveries ha.blocked he
  refine ⟨hlink, fun h => ?_, ?_, ha.length, ha.arrived, ha.ended, ha.owned, ha.closing⟩
  · dsimp only [Session.onLink]
    rw [hs, ht]
    exact ha.blocked h
  · unfold ReadsAlike Session.onLink
    dsimp only
    rw [hs, ht]
    exact ha.reader

/-- Sessions that agree end alike. -/
theorem Agrees.stop (ha : s.Agrees marks t) : s.stop.Agrees marks t.stop := by
  have hcalls := ha.onLink (e := .closeCalls) rfl
  have hboth := hcalls.onLink (e := .closeSubscriptions) rfl
  exact ⟨hboth.link, hboth.blocked, .inl ⟨rfl, by simp [Session.stop, Session.onLink]⟩,
    hboth.length, hboth.arrived, hboth.ended, hboth.owned, hboth.closing⟩

/-- What a turn that delivers a notification makes of the link of a session, and of its reader. -/
theorem deliver_eq {d : Nat} {x : Delivery} {l : Link} (hlink : s.link.run (.delivery d) = l)
    (hx : l.deliveries[d]? = some x) :
    s.deliver d = { s with
      link := l, reader := if x.stage = .done then .reading else .delivering d } := by
  unfold deliver onLink
  dsimp only
  rw [hlink, hx]

/-- Items that are no insertions are handled alike. -/
theorem Agrees.handle (ha : s.Agrees marks t) (a : Arrival) :
    (s.handle a).Agrees marks (t.handle a) := by
  cases a with
  | malformed reason => exact ha
  | failure cause => exact ha.stop
  | text text =>
    unfold Session.handle
    dsimp only
    cases Incoming.parse text with
    | error cause => exact ha
    | ok incoming =>
      cases incoming with
      | response r => exact ha.onLink (e := .route r) rfl
      | batch rs => exact ha.onLink (e := .routeBatch rs) rfl
      | rejected error => exact ha.onLink (e := .reject error) rfl
      | notification n =>
        obtain ⟨l, stage, hto⟩ := t.link.handOver_deliveries n
        have hs : s.link.handOver n = l.withDeliveries (s.link.deliveries ++ [⟨n, stage⟩]) := by
          rw [← hto _ ha.blocked, ← ha.link]
        have ht : t.link.handOver n = l.withDeliveries (t.link.deliveries ++ [⟨n, stage⟩]) :=
          hto _ fun _ => rfl
        have hlast : ∀ ds : List Delivery,
            (l.withDeliveries (ds ++ [⟨n, stage⟩])).deliveries[ds.length]? = some ⟨n, stage⟩ :=
          fun ds => by simp [Link.withDeliveries]
        dsimp only
        rw [deliver_eq (s := s.onLink (·.dispatch n)) hs (hlast _),
          deliver_eq (s := t.onLink (·.dispatch n)) ht (hlast _)]
        refine ⟨rfl, fun h => ?_, ?_, ha.length, ha.arrived, ha.ended, ha.owned, ha.closing⟩
        · dsimp only [Link.withDeliveries]
          rw [Link.blockedOn_concat, Link.blockedOn_concat, ha.blocked]
        · unfold ReadsAlike
          dsimp only
          split
          · exact .inl ⟨rfl, by simp⟩
          · exact .inr ⟨_, _, rfl, rfl, (hlast _).trans (hlast _).symm⟩

/-- A delivery that the reader waits for is the only one that waits. -/
theorem Reads.blockedOn_setDelivery (hs : s.Reads) {d : Nat} (hd : s.reader = .delivering d)
    (h : Nat) : Link.blockedOn (s.link.setDelivery d .done).deliveries h = 0 := by
  refine blockedOn_eq_zero h fun x hx => ?_
  obtain ⟨i, hi⟩ := List.mem_iff_getElem?.1 hx
  rw [Link.deliveries_setDelivery] at hi
  split at hi
  · obtain ⟨y, _, rfl⟩ := Option.map_eq_some_iff.1 hi
    rfl
  · next hne =>
    exact hs.done i x hi fun he => hne (Reader.delivering.inj (hd.symm.trans he))

/-- Readers that wait end their waiting alike, with whatever that makes of the link. -/
theorem Agrees.arrivedAt (ha : s.Agrees marks t) (hs : s.Reads) (ht : t.Reads) {d d' : Nat}
    (hd : s.reader = .delivering d) (hd' : t.reader = .delivering d') (l : Link)
    {s' t' : Session}
    (hs' : s' = { s with
      link := (l.withDeliveries s.link.deliveries).setDelivery d .done, reader := .reading })
    (ht' : t' = { t with
      link := (l.withDeliveries t.link.deliveries).setDelivery d' .done, reader := .reading }) :
    s'.Agrees marks t' := by
  subst hs' ht'
  refine ⟨rfl, fun h => ?_, .inl ⟨rfl, by simp⟩, ha.length, ha.arrived, ha.ended, ha.owned,
    ha.closing⟩
  exact (hs.blockedOn_setDelivery hd h).trans (ht.blockedOn_setDelivery hd' h).symm

/-- Readers that wait try again alike. -/
theorem Agrees.again (ha : s.Agrees marks t) (hs : s.Reads) (ht : t.Reads) {d d' : Nat}
    (hd : s.reader = .delivering d) (hd' : t.reader = .delivering d')
    (hsame : s.link.deliveries[d]? = t.link.deliveries[d']?) :
    (s.deliver d).Agrees marks (t.deliver d') := by
  obtain ⟨_, n, h, hx, _⟩ := hs.waits d hd
  have hx' := hsame.symm.trans hx
  have hrun := Link.run_blocked hx (hs.blockedOn_take hd h)
  have hrun' := Link.run_blocked hx' (ht.blockedOn_take hd' h)
  have hreceiving : s.link.isReceiving h = t.link.isReceiving h := by
    rw [ha.link]
    rfl
  have hroom : s.link.hasRoom h 0 = t.link.hasRoom h 0 := by
    rw [ha.link]
    rfl
  rw [hreceiving, hroom] at hrun
  have hdone : ∀ (l : Link) {i : Nat}, l.deliveries[i]? = some ⟨n, .blocked h⟩ →
      (l.setDelivery i .done).deliveries[i]? = some ⟨n, .done⟩ := fun l i hl => by
    rw [Link.deliveries_setDelivery, if_pos rfl, hl]
    rfl
  by_cases hrec : t.link.isReceiving h = false
  · rw [if_pos hrec] at hrun hrun'
    rw [deliver_eq hrun (hdone _ hx), deliver_eq hrun' (hdone _ hx')]
    refine ha.arrivedAt hs ht hd hd' t.link ?_ rfl
    rw [← ha.link]
    rfl
  · rw [if_neg hrec] at hrun hrun'
    by_cases hfree : t.link.hasRoom h 0 = true
    · rw [if_pos hfree] at hrun hrun'
      rw [deliver_eq hrun (hdone _ hx), deliver_eq hrun' (hdone _ hx')]
      refine ha.arrivedAt hs ht hd hd' (t.link.enqueue h n.result) ?_ rfl
      have henqueue : (t.link.enqueue h n.result).withDeliveries s.link.deliveries =
          s.link.enqueue h n.result := by
        rw [ha.link]
        rfl
      rw [henqueue]
      rfl
    · rw [if_neg hfree] at hrun hrun'
      rw [deliver_eq hrun hx, deliver_eq hrun' hx']
      exact ⟨ha.link, ha.blocked, .inr ⟨d, d', rfl, rfl, hsame⟩, ha.length, ha.arrived, ha.ended,
        ha.owned, ha.closing⟩

/-- Sessions whose readers take the next item, and have not come to an insertion, take the same. -/
theorem Agrees.take (ha : s.Agrees marks t) {a : Arrival} {arrived : List Arrival}
    (harrived : s.arrived = a :: arrived) (hown : marks.head? ≠ some true) :
    ∃ rest, t.arrived = a :: rest ∧
      Agrees { s with arrived } marks.tail { t with arrived := rest } := by
  cases marks with
  | nil => simpa [harrived] using ha.length
  | cons mark marks =>
    have hmark : mark = false := by simpa using hown
    have hlen := ha.length
    have hrest := ha.arrived
    rw [harrived] at hlen hrest
    rw [hmark] at hrest
    exact ⟨unmarked arrived marks, hrest, ha.link, ha.blocked, ha.reader, by simpa using hlen, rfl,
      ha.ended, ha.owned, ha.closing⟩

/-- A turn of the reader that does not notice whether the session is closing, where it comes to no
insertion. -/
theorem Agrees.readOn (ha : s.Agrees marks t) (hs : s.Reads) (ht : t.Reads)
    (hown : s.reader = .reading → marks.head? ≠ some true) :
    s.readOn.Agrees (if s.reader = .reading then marks.tail else marks) t.readOn := by
  unfold Session.readOn
  rcases ha.reader with ⟨hr, hnot⟩ | ⟨d, d', hd, hd', hsame⟩
  · rw [← hr]
    cases hreader : s.reader with
    | idle => simpa using ha
    | stopped => simpa using ha
    | delivering d => exact absurd hreader (hnot d)
    | reading =>
      dsimp only
      cases harrived : s.arrived with
      | nil =>
        have hrest : t.arrived = [] := by
          rw [ha.arrived, harrived]
          rfl
        have hmarks : marks = [] := by
          rw [← List.length_eq_zero_iff, ha.length, harrived]
          rfl
        subst hmarks
        rw [hrest, ← ha.ended]
        cases s.ended with
        | true => simpa using ha.stop
        | false => simpa using ha
      | cons a arrived =>
        obtain ⟨rest, hrest, htaken⟩ := ha.take harrived (hown hreader)
        rw [hrest]
        simpa [hreader, hr.symm.trans hreader] using htaken.handle a
  · rw [hd, hd']
    simpa using ha.again hs ht hd hd' hsame

/-- Readers that notice that their sessions are closing stop alike. -/
theorem Agrees.leave (ha : s.Agrees marks t) (hs : s.Reads) (ht : t.Reads) :
    s.leave.Agrees marks t.leave := by
  unfold Session.leave
  rcases ha.reader with ⟨hr, hnot⟩ | ⟨d, d', hd, hd', hsame⟩
  · rw [← hr]
    cases hreader : s.reader with
    | idle => exact ha
    | stopped => exact ha
    | delivering d => exact absurd hreader (hnot d)
    | reading => exact ha.stop
  · rw [hd, hd']
    have hgivenUp : (s.onLink (·.drop (.delivery d))).Agrees marks
        (t.onLink (·.drop (.delivery d'))) := by
      refine ⟨?_, fun h => ?_, .inr ⟨d, d', hd, hd', ?_⟩, ha.length, ha.arrived, ha.ended,
        ha.owned, ha.closing⟩
      · dsimp only [Session.onLink, Link.drop]
        conv_lhs => rw [ha.link]
        rfl
      · exact (hs.blockedOn_setDelivery hd h).trans (ht.blockedOn_setDelivery hd' h).symm
      · dsimp only [Session.onLink, Link.drop]
        rw [Link.deliveries_setDelivery, Link.deliveries_setDelivery, if_pos rfl, if_pos rfl, hsame]
    exact hgivenUp.stop

/-- A turn of the reader, where it comes to no insertion. -/
theorem Agrees.read (ha : s.Agrees marks t) (hs : s.Reads) (ht : t.Reads)
    (hown : s.takes (.run .reader) = true → marks.head? ≠ some true) :
    s.read.Agrees (if s.takes (.run .reader) then marks.tail else marks) t.read := by
  unfold Session.read takes at *
  rw [← ha.isClosing]
  cases hc : s.isClosing with
  | true => simpa using ha.leave hs ht
  | false => simpa using ha.readOn hs ht fun hr => hown (by simp [hr, hc])

/-- An event of both runs. -/
theorem Agrees.apply (ha : s.Agrees marks t) (hs : s.Reads) (ht : t.Reads) {e : Event}
    (hown : s.takes e = true → marks.head? ≠ some true) :
    (s.apply e).Agrees (s.marksAfter marks e) (t.apply e) := by
  cases e with
  | act a =>
    unfold Session.apply
    dsimp only
    rw [ha.owned]
    split
    · exact ha
    · exact ha.onLink (e := .act a) rfl
  | arrive a =>
    unfold Session.apply marksAfter arrive
    dsimp only
    rw [← ha.ended]
    cases hended : s.ended with
    | true => exact ha
    | false =>
      simp only [Bool.false_eq_true, if_false]
      refine ⟨ha.link, ha.blocked, ha.reader, by simp [ha.length], ?_, rfl, ha.owned, ha.closing⟩
      rw [unmarked_concat ha.length, ha.arrived]
      rfl
  | disconnect =>
    exact ⟨ha.link, ha.blocked, ha.reader, ha.length, ha.arrived, rfl, ha.owned, ha.closing⟩
  | close =>
    unfold Session.apply
    dsimp only
    rw [ha.owned]
    split
    · have hsink := ha.onLink (e := .sink (.refuses .transportClosed)) rfl
      exact ⟨hsink.link, hsink.blocked, hsink.reader, hsink.length, hsink.arrived, hsink.ended,
        hsink.owned, rfl⟩
    · exact ha
  | letGo =>
    exact ⟨ha.link, ha.blocked, ha.reader, ha.length, ha.arrived, ha.ended, rfl, ha.closing⟩
  | sink sink =>
    unfold Session.apply
    dsimp only
    rw [ha.closing]
    split
    · exact ha
    · exact ha.onLink (e := .sink sink) rfl
  | resume k reply => exact ha.onLink (e := .resume k reply) rfl
  | run task =>
    cases task with
    | reader => exact ha.read hs ht hown
    | exchange k => exact ha.onLink (e := .run (.exchange k)) rfl
  | readOn =>
    have hread : (s.apply .readOn).Agrees (if s.reader = .reading then marks.tail else marks)
        (t.apply .readOn) := ha.readOn hs ht fun hr => hown (by simp [takes, hr])
    simpa [marksAfter, takes] using hread

theorem Agrees.finds? (ha : s.Agrees marks t) (e : Event) : s.finds? e = t.finds? e := by
  have hpoll : ∀ h, (s.link.poll h).1 = (t.link.poll h).1 := fun h => by
    rw [ha.link, t.link.poll_deliveries ha.blocked]
  unfold Session.finds?
  split
  · rw [hpoll]
  · rfl

/-- A turn of the reader finds nothing for a consumer. -/
theorem finds?_of_takes {e : Event} (htakes : s.takes e = true) : s.finds? e = none := by
  unfold takes at htakes
  split at htakes
  · rfl
  · rfl
  · simp at htakes

/-- An insertion that arrives. -/
theorem Agrees.insert (ha : s.Agrees marks t) (a : Arrival) :
    (s.arrive a).Agrees (if s.ended then marks else marks ++ [true]) t := by
  unfold arrive
  cases hended : s.ended with
  | true => exact ha
  | false =>
    simp only [Bool.false_eq_true, if_false]
    refine ⟨ha.link, ha.blocked, ha.reader, by simp [ha.length], ?_, hended.symm.trans ha.ended,
      ha.owned, ha.closing⟩
    rw [unmarked_concat ha.length, ha.arrived]
    simp

/-! ### Items that are for nobody -/

/-- What is dispatched for nobody leaves a delivery that is done. -/
theorem deliver_of_unrouted (hreading : s.reader = .reading) {n : Notification}
    (htarget : s.link.subscriptions.target? n = none) :
    (s.onLink (·.dispatch n)).deliver s.link.deliveries.length =
      { s with link := s.link.withDeliveries (s.link.deliveries ++ [⟨n, .done⟩]) } := by
  have hto : s.link.handOver n = s.link.withDeliveries (s.link.deliveries ++ [⟨n, .done⟩]) := by
    rw [Link.handOver_eq, htarget]
    exact s.link.setDelivery_dispatch s.link.deliveries n .done
  rw [deliver_eq (s := s.onLink (·.dispatch n)) hto (x := ⟨n, .done⟩)
    (by simp [Link.withDeliveries]), if_pos rfl, ← hreading]
  rfl

/-- What an item that is for nobody leaves behind: deliveries that are done. -/
theorem handle_of_ignores (hreading : s.reader = .reading) {a : Arrival}
    (hnoise : s.ignores a = true) :
    ∃ more : List Delivery, (∀ x ∈ more, x.stage = .done) ∧
      s.handle a = { s with link := s.link.withDeliveries (s.link.deliveries ++ more) } := by
  have hnothing : ∀ s' : Session, s' = s → ∃ more : List Delivery,
      (∀ x ∈ more, x.stage = .done) ∧
        s' = { s with link := s.link.withDeliveries (s.link.deliveries ++ more) } := by
    rintro s' rfl
    exact ⟨[], by simp, by rw [List.append_nil]; rfl⟩
  have hanswers : ∀ as : List (Nat × Outcome), as = [] → s.onLink (·.answerAll as) = s := by
    rintro as rfl
    rfl
  cases a with
  | malformed reason => exact hnothing _ rfl
  | failure cause => simp [ignores] at hnoise
  | text text =>
    unfold ignores at hnoise
    unfold handle
    dsimp only at hnoise ⊢
    cases hparse : Incoming.parse text with
    | error cause => exact hnothing _ rfl
    | ok incoming =>
      rw [hparse] at hnoise
      cases incoming with
      | response r =>
        refine hnothing _ (hanswers _ ?_)
        have hp : s.link.calls.pending.has r.id = false := by simpa using hnoise
        simp [Calls.answerOf, hp]
      | batch rs =>
        refine hnothing _ (hanswers _ (Calls.batchAnswers_eq_nil ?_))
        rintro ⟨r, hr, hp⟩
        simp only [Bool.not_eq_true', List.any_eq_false] at hnoise
        exact hnoise r hr hp
      | rejected error =>
        refine hnothing _ (hanswers _ (Calls.rejectionAnswers_eq_nil (fun p hp => ?_) error))
        simp only [Bool.not_eq_true', List.any_eq_false] at hnoise
        simpa using hnoise p hp
      | notification n =>
        have htarget : s.link.subscriptions.target? n = none := by
          cases htarget : s.link.subscriptions.target? n with
          | none => rfl
          | some h =>
            obtain ⟨hroute, r, hr, htag⟩ := Subscriptions.target?_eq_some_iff.1 htarget
            simp [hroute, hr, htag] at hnoise
        exact ⟨[⟨n, .done⟩], by simp, deliver_of_unrouted hreading htarget⟩

/-- The reader takes an insertion that is for nobody. -/
theorem Agrees.ignore (ha : s.Agrees (true :: marks) t) {e : Event} (htakes : s.takes e = true)
    (hnoise : s.arrived.head?.all s.ignores = true) : (s.apply e).Agrees marks t := by
  have hlen := ha.length
  have hown := ha.arrived
  cases harrived : s.arrived with
  | nil => simp [harrived] at hlen
  | cons a arrived =>
    rw [harrived] at hnoise hown hlen
    obtain ⟨hreading, hread⟩ := apply_of_takes htakes harrived
    have hignored : Session.ignores { s with arrived } a = true := hnoise
    obtain ⟨more, hdone, hleft⟩ := handle_of_ignores (s := { s with arrived }) hreading hignored
    have hblocked : ∀ h, Link.blockedOn (s.link.deliveries ++ more) h =
        Link.blockedOn s.link.deliveries h := by
      intro h
      have hmore := blockedOn_eq_zero h hdone
      unfold Link.blockedOn at hmore ⊢
      rw [List.countP_append, hmore, Nat.add_zero]
    have hreader : s.reader = t.reader ∧ ∀ d, s.reader ≠ .delivering d := by
      rcases ha.reader with hsame | ⟨d, _, hd, _⟩
      · exact hsame
      · simp [hreading] at hd
    rw [hread, hleft]
    refine ⟨?_, fun h => (hblocked h).trans (ha.blocked h), .inl hreader, by simpa using hlen, hown,
      ha.ended, ha.owned, ha.closing⟩
    conv_lhs => rw [ha.link]
    rfl

theorem Widens.agrees (h : s.Widens marks base wide) (ha : s.Agrees marks t) (hs : s.Reads)
    (ht : t.Reads) :
    (∃ marks', (s.after wide).Agrees marks' (t.after base)) ∧ s.found wide = t.found base := by
  induction h generalizing t with
  | nil s marks => exact ⟨⟨marks, ha⟩, rfl⟩
  | @own s marks base wide e hown _ ih =>
    obtain ⟨hagrees, hfound⟩ :=
      ih (ha.apply hs ht hown) ((turn_apply s e).reads hs) ((turn_apply t e).reads ht)
    refine ⟨hagrees, ?_⟩
    unfold found trace
    rw [ha.finds?]
    exact congrArg _ hfound
  | @inserted s marks base wide a _ ih =>
    exact ih (ha.insert a) ((turn_apply s (.arrive a)).reads hs) ht
  | @ignored s marks base wide e htakes hnoise _ ih =>
    have hfound : s.found (e :: wide) = (s.apply e).found wide := by
      rw [found, trace, finds?_of_takes htakes]
      rfl
    rw [hfound]
    exact ih (ha.ignore htakes hnoise) ((turn_apply s e).reads hs) ht

theorem agrees_start (buffer : Nat) (policy : Backpressure) :
    (start buffer policy).Agrees [] (start buffer policy) :=
  ⟨rfl, fun _ => rfl, .inl ⟨rfl, by simp [start]⟩, rfl, rfl, rfl, rfl, rfl⟩

/-- Whatever is inserted that is for nobody when the reader comes to it, in however many places, the
calls come to the same results, the same frames are written, the tables and streams are the same,
the consumers have found the same, and the reader goes on or has stopped as it would have. -/
theorem noise_changes_nothing (buffer : Nat) (policy : Backpressure) {base wide : List Event}
    (h : (start buffer policy).Widens [] base wide) :
    let s := (start buffer policy).after wide
    let t := (start buffer policy).after base
    s.link.calls = t.link.calls ∧ s.link.subscriptions = t.link.subscriptions ∧
      s.link.streams = t.link.streams ∧
      (start buffer policy).found wide = (start buffer policy).found base ∧
      ∃ marks, s.Agrees marks t := by
  intro s t
  obtain ⟨⟨marks, ha⟩, hfound⟩ :=
    h.agrees (agrees_start buffer policy) (reads_start buffer policy) (reads_start buffer policy)
  have hlink : s.link = t.link.withDeliveries s.link.deliveries := ha.link
  refine ⟨?_, ?_, ?_, hfound, marks, ha⟩
  · rw [hlink]
    rfl
  · rw [hlink]
    rfl
  · rw [hlink]
    rfl

/-- The frame of a notification with the payload 5. -/
def slotFrame (tag : String) (id : Nat) : Arrival :=
  .text (Notification.toJson ⟨tag, .number id, .int 5⟩).compact

/-- A subscription is confirmed under the id 7, a call is out, and a notification comes. -/
def undisturbed : List Event :=
  [.act (.open ⟨⟨"slotSubscribe", "slotUnsubscribe", "slotNotification"⟩, .arr []⟩ (.caller 0)),
    .run (.exchange 0), .arrive (.text (Response.toJson ⟨1, .ok (.int 7)⟩).compact), .run .reader,
    .run (.exchange 0), .act (.call ⟨"getSlot", .arr []⟩ (.caller 1)), .run (.exchange 1),
    .arrive (slotFrame "slotNotification" 7), .run .reader, .act (.poll 1)]

/-- One item of each kind that is for nobody there. -/
def noise : List Arrival :=
  [.malformed "no text", .text "[", .text (Response.toJson ⟨9, .ok .null⟩).compact,
    .text (Json.arr [Response.toJson ⟨9, .ok .null⟩]).compact, slotFrame "slotNotification" 8,
    slotFrame "rootNotification" 7,
    .text (Json.obj [("error", ErrorObject.toJson ⟨-32600, "Invalid request", none⟩)]).compact]

/-- The run `undisturbed` with noise before the notification. -/
def disturbed : List Event :=
  undisturbed.take 7 ++ noise.map .arrive ++ [.arrive (slotFrame "slotNotification" 7)] ++
    List.replicate 7 (.run .reader) ++ undisturbed.drop 8

theorem noise_changes_nothing_beside_notification :
    (start 1 .pauseReads).Widens [] undisturbed disturbed ∧
      (start 1 .pauseReads).found disturbed = [(1, .item (.int 5))] := by
  have hwidens : (start 1 .pauseReads).Widens [] undisturbed disturbed := by
    refine .own _ nofun (.own _ nofun (.own _ nofun (.own _ (fun _ => by decide +kernel)
      (.own _ nofun (.own _ nofun (.own _ nofun ?_))))))
    refine .inserted _ (.inserted _ (.inserted _ (.inserted _ (.inserted _ (.inserted _
      (.inserted _ (.own _ nofun ?_)))))))
    iterate 7 refine .ignored _ (by decide +kernel) (by decide +kernel) ?_
    exact .own _ (fun _ => by decide +kernel) (.own _ nofun (.nil _ _))
  obtain ⟨_, _, _, hfound, _⟩ := noise_changes_nothing 1 .pauseReads hwidens
  exact ⟨hwidens, hfound.trans (by decide +kernel)⟩

end NodeRpc.Session
