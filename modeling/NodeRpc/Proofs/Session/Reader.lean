import NodeRpc.Proofs.Link.Deliveries
import NodeRpc.Session.Run

/-!
# What the reader waits for

An event of a session is an event of its link, a turn in which the reader dispatches a notification
or tries again to deliver one, or the end of the session (`Turn`). So a delivery is waited for by
the reader or done, at all times: `Reads` says this, and that the reader never waits where
notifications are dropped.
-/

namespace NodeRpc

/-- What an item is, if it can be read. -/
def Arrival.incoming? : Arrival → Option Incoming
  | .text t => (Incoming.parse t).toOption
  | _ => none

/-- The notification that an item is. -/
def Incoming.notification? : Incoming → Option Notification
  | .notification n => some n
  | _ => none

/-- What an event of a link handles. -/
def Link.Event.item? : Link.Event → Option Incoming
  | .route r => some (.response r)
  | .routeBatch rs => some (.batch rs)
  | .reject error => some (.rejected error)
  | .dispatch n => some (.notification n)
  | _ => none

/-- Whether an event of a link takes nothing out of a buffer, delivers nothing, releases a handle
only as its subscription ends, and lets the connection go on. -/
def Link.Event.isPlain : Link.Event → Bool
  | .act (.poll _) | .dispatch _ | .run (.delivery _) | .dropDelivery _ => false
  | .release _ | .closeSubscriptions => false
  | _ => true

theorem Link.Event.plain_iff {e : Link.Event} : e.isPlain = true ↔
    e.sparesBuffers = true ∧ (∀ h, e ≠ .release h) ∧ e ≠ .closeSubscriptions := by
  unfold isPlain sparesBuffers
  split <;> simp_all

namespace Session

variable {s : Session}

/-- A session at its start. -/
def start (buffer : Nat) (policy : Backpressure) : Session :=
  { link := Link.ofOptions buffer policy }

/-- Whether an event is a turn of the reader. -/
def Event.isRead : Event → Bool
  | .run .reader | .readOn => true
  | _ => false

theorem Event.ne_of_isRead {e : Event} (he : e.isRead = true) (a : Link.Action) : e ≠ .act a := by
  rintro rfl
  simp [isRead] at he

/-- Whether an event is a turn of the reader in which it takes the next item, if one is there. -/
def takes (s : Session) : Event → Bool
  | .run .reader => s.reader = .reading && !s.isClosing
  | .readOn => s.reader = .reading
  | _ => false

/-- What an event reads, if it takes an item that can be read. -/
def reads? (s : Session) (e : Event) : Option Incoming :=
  if s.takes e then s.arrived.head?.bind Arrival.incoming? else none

/-- The notification that an event dispatches, if it does. -/
def takenUp? (s : Session) (e : Event) : Option Notification :=
  (s.reads? e).bind Incoming.notification?

/-- What an event makes of a session. -/
inductive Turn (s : Session) (e : Event) (s' : Session) : Prop where
  | idle (hi : s.reads? e = none) (he : ∀ h, e ≠ .act (.poll h)) (hlink : s'.link = s.link)
      (hreader : s'.reader = s.reader)
  | event (e' : Link.Event) (hplain : e'.isPlain = true) (hi : s.reads? e = e'.item?)
      (he : ∀ h, e ≠ .act (.poll h)) (hlink : s'.link = s.link.apply e')
      (hreader : s'.reader = s.reader)
  | poll (h : Nat) (he : e = .act (.poll h)) (hlink : s'.link = (s.link.poll h).2)
      (hreader : s'.reader = s.reader)
  | handOver (n : Notification) (he : e.isRead = true) (hi : s.reads? e = some (.notification n))
      (hreading : s.reader = .reading) (hlink : s'.link = s.link.handOver n)
      (hreader : s'.reader = ((s.onLink (·.dispatch n)).deliver s.link.deliveries.length).reader)
  | again (d : Nat) (he : e.isRead = true) (hwaits : s.reader = .delivering d)
      (hlink : s'.link = s.link.run (.delivery d)) (hreader : s'.reader = (s.deliver d).reader)
  | stop (he : e.isRead = true) (hi : s.reads? e = none) (hreading : s.reader = .reading)
      (hlink : s'.link = s.link.closeCalls.closeSubscriptions) (hreader : s'.reader = .stopped)
  | giveUp (d : Nat) (he : e.isRead = true) (hwaits : s.reader = .delivering d)
      (hlink : s'.link = (s.link.drop (.delivery d)).closeCalls.closeSubscriptions)
      (hreader : s'.reader = .stopped)

theorem link_deliver (s : Session) (d : Nat) : (s.deliver d).link = s.link.run (.delivery d) := by
  unfold deliver
  dsimp only
  split <;> rfl

theorem reader_deliver {d : Nat} {x : Delivery}
    (h : (s.link.run (.delivery d)).deliveries[d]? = some x) :
    (s.deliver d).reader = if x.stage = .done then .reading else .delivering d := by
  unfold deliver
  dsimp only [onLink]
  rw [h]

theorem turn_handle {e : Event} (he : e.isRead = true) {a : Arrival} {arrived : List Arrival}
    (hreading : s.reader = .reading) (hi : s.reads? e = a.incoming?) :
    Turn s e (({ s with arrived } : Session).handle a) := by
  have hpoll : ∀ h, e ≠ .act (.poll h) := fun h => Event.ne_of_isRead he _
  cases a with
  | malformed reason => exact .idle hi hpoll rfl rfl
  | failure cause => exact .stop he hi hreading rfl rfl
  | text text =>
    have hi : s.reads? e = (Incoming.parse text).toOption := hi
    unfold handle
    dsimp only
    split
    · next r heq => exact .event (.route r) rfl (by rw [hi, heq]; rfl) hpoll rfl rfl
    · next rs heq => exact .event (.routeBatch rs) rfl (by rw [hi, heq]; rfl) hpoll rfl rfl
    · next e heq => exact .event (.reject e) rfl (by rw [hi, heq]; rfl) hpoll rfl rfl
    · next n heq =>
      refine .handOver n he (by rw [hi, heq]; rfl) hreading (link_deliver _ _) ?_
      unfold deliver
      dsimp only [onLink]
      split <;> rfl
    · next heq => exact .idle (by rw [hi, heq]; rfl) hpoll rfl rfl

theorem takes_of_reader {e : Event} (hr : s.reader ≠ .reading) : s.takes e = false := by
  unfold takes
  split <;> simp [hr]

/-- A reader that waits or has stopped reads nothing. -/
theorem reads?_of_reader {e : Event} (hr : s.reader ≠ .reading) : s.reads? e = none := by
  simp [reads?, takes_of_reader hr]

/-- A turn in which the reader takes an item. -/
theorem apply_of_takes {e : Event} (htakes : s.takes e = true) {a : Arrival}
    {arrived : List Arrival} (harrived : s.arrived = a :: arrived) :
    s.reader = .reading ∧ s.apply e = ({ s with arrived } : Session).handle a := by
  have hreadOn : s.reader = .reading → s.readOn = ({ s with arrived } : Session).handle a := by
    intro hreading
    unfold Session.readOn
    rw [hreading, harrived]
  unfold takes at htakes
  split at htakes
  · obtain ⟨hreading, hopen⟩ : s.reader = .reading ∧ s.isClosing = false := by simpa using htakes
    refine ⟨hreading, ?_⟩
    have hread : s.read = s.readOn := by simp [Session.read, hopen]
    exact hread.trans (hreadOn hreading)
  · have hreading : s.reader = .reading := by simpa using htakes
    exact ⟨hreading, hreadOn hreading⟩
  · simp at htakes

/-- A turn in which the reader would take an item. -/
theorem turn_readOn {e : Event} (he : e.isRead = true)
    (htakes : s.reader = .reading → s.takes e = true) : Turn s e s.readOn := by
  have hpoll : ∀ h, e ≠ .act (.poll h) := fun h => Event.ne_of_isRead he _
  unfold readOn
  split
  · next hr => exact .idle (reads?_of_reader (by simp [hr])) hpoll rfl rfl
  · next hr => exact .idle (reads?_of_reader (by simp [hr])) hpoll rfl rfl
  · next hr =>
    have hi : s.reads? e = s.arrived.head?.bind Arrival.incoming? := if_pos (htakes hr)
    split
    · next a arrived ha => exact turn_handle he hr (by rw [hi, ha]; rfl)
    · next ha =>
      rw [ha] at hi
      split
      · exact .stop he hi hr rfl rfl
      · exact .idle hi hpoll rfl rfl
  · next d hr => exact .again d he hr (link_deliver s d) rfl

theorem turn_leave (hclosing : s.isClosing = true) : Turn s (.run .reader) s.leave := by
  have hi : s.reads? (.run .reader) = none := by simp [reads?, takes, hclosing]
  unfold leave
  split
  · exact .idle hi (by simp) rfl rfl
  · exact .idle hi (by simp) rfl rfl
  · next hr => exact .stop rfl hi hr rfl rfl
  · next d hr => exact .giveUp d rfl hr rfl rfl

theorem turn_read (s : Session) : Turn s (.run .reader) s.read := by
  unfold read
  split
  · next hc => exact turn_leave hc
  · next hc => exact turn_readOn rfl fun hr => by simp [takes, hr, hc]

theorem turn_apply (s : Session) (e : Event) : Turn s e (s.apply e) := by
  cases e with
  | act a =>
    unfold apply
    dsimp only
    split
    · next ho =>
      refine .idle rfl (fun h he => ?_) rfl rfl
      obtain rfl := Event.act.inj he
      simp [needsOwner] at ho
    · by_cases hp : ∃ h, a = .poll h
      · obtain ⟨h, rfl⟩ := hp
        exact .poll h rfl rfl rfl
      · have hplain : (Link.Event.act a).isPlain = true := by
          cases a with
          | poll h => exact absurd ⟨h, rfl⟩ hp
          | _ => rfl
        exact .event (.act a) hplain rfl (fun h he => hp ⟨h, Event.act.inj he⟩) rfl rfl
  | arrive a =>
    refine .idle rfl (by simp) ?_ ?_ <;>
    · unfold apply arrive
      dsimp only
      split <;> rfl
  | disconnect => exact .idle rfl (by simp) rfl rfl
  | close =>
    unfold apply
    dsimp only
    split
    · exact .event (.sink (.refuses .transportClosed)) rfl rfl (by simp) rfl rfl
    · exact .idle rfl (by simp) rfl rfl
  | letGo => exact .idle rfl (by simp) rfl rfl
  | sink sink =>
    unfold apply
    dsimp only
    split
    · exact .idle rfl (by simp) rfl rfl
    · exact .event (.sink sink) rfl rfl (by simp) rfl rfl
  | resume k reply => exact .event (.resume k reply) rfl rfl (by simp) rfl rfl
  | run t =>
    cases t with
    | reader => exact s.turn_read
    | exchange k => exact .event (.run (.exchange k)) rfl rfl (by simp) rfl rfl
  | readOn => exact turn_readOn rfl fun hr => by simp [takes, hr]

/-! ### What holds at all times -/

/-- What holds of a session at all times: its link is in order, only the delivery that the reader
waits for, if it waits for one, is not done, and the reader ends the subscriptions as it stops. -/
structure Reads (s : Session) : Prop where
  sound : s.link.Sound
  done : ∀ (d : Nat) (x : Delivery), s.link.deliveries[d]? = some x → s.reader ≠ .delivering d →
    x.stage = .done
  waits : ∀ d, s.reader = .delivering d → s.link.policy = .pauseReads ∧
    ∃ (n : Notification) (h : Nat), s.link.deliveries[d]? = some ⟨n, .blocked h⟩ ∧
      h < s.link.subscriptions.nextHandle
  closed : s.link.subscriptions.closed = true ↔ s.reader = .stopped

theorem blockedOn_eq_zero {deliveries : List Delivery} (h : Nat)
    (hdone : ∀ x ∈ deliveries, x.stage = .done) : Link.blockedOn deliveries h = 0 := by
  unfold Link.blockedOn
  refine List.countP_eq_zero.2 fun x hx => ?_
  simp [hdone x hx]

/-- While the reader does not wait, nothing does. -/
theorem Reads.blockedOn_of_reader (hs : s.Reads) (hreader : ∀ d, s.reader ≠ .delivering d)
    (h : Nat) : Link.blockedOn s.link.deliveries h = 0 := by
  refine blockedOn_eq_zero h fun x hx => ?_
  obtain ⟨d, hd⟩ := List.mem_iff_getElem?.1 hx
  exact hs.done d x hd (hreader d)

theorem Reads.blockedOn (hs : s.Reads) (hreading : s.reader = .reading) (h : Nat) :
    Link.blockedOn s.link.deliveries h = 0 :=
  hs.blockedOn_of_reader (by simp [hreading]) h

/-- Nothing waits before what the reader waits for. -/
theorem Reads.blockedOn_take (hs : s.Reads) {d : Nat} (hwaits : s.reader = .delivering d)
    (h : Nat) : Link.blockedOn (s.link.deliveries.take d) h = 0 := by
  refine blockedOn_eq_zero h fun x hx => ?_
  obtain ⟨i, hi⟩ := List.mem_iff_getElem?.1 hx
  have hlt : i < d := by
    have hlen := (List.getElem?_eq_some_iff.1 hi).1
    simp only [List.length_take] at hlen
    omega
  rw [List.getElem?_take_of_lt hlt] at hi
  refine hs.done i x hi ?_
  rw [hwaits]
  exact fun he => absurd (Reader.delivering.inj he) (Nat.ne_of_gt hlt)

/-- A handle that is not given out has no stream. -/
theorem Reads.unopened (hs : s.Reads) {h : Nat} (hlt : s.link.subscriptions.nextHandle ≤ h) :
    s.link.streams.get? h = none := by
  cases hget : s.link.streams.get? h with
  | none => rfl
  | some x => exact absurd (hs.sound.streamed.lt h x hget) (Nat.not_lt.2 hlt)

theorem reads_start (buffer : Nat) (policy : Backpressure) : (start buffer policy).Reads where
  sound := Link.sound_ofOptions buffer policy
  done d x hd := by simp [start, Link.ofOptions] at hd
  waits d hd := by simp [start] at hd
  closed := by simp [start, Link.ofOptions]

/-- Where the reader and the deliveries stay as they are, nothing else matters. -/
theorem Reads.keep (hs : s.Reads) {s' : Session} (hsound : s'.link.Sound)
    (hreader : s'.reader = s.reader) (hdeliveries : s'.link.deliveries = s.link.deliveries)
    (hpolicy : s'.link.policy = s.link.policy)
    (hnext : s.link.subscriptions.nextHandle ≤ s'.link.subscriptions.nextHandle)
    (hclosed : s'.link.subscriptions.closed = s.link.subscriptions.closed) : s'.Reads where
  sound := hsound
  done d x hd hne := by
    rw [hdeliveries] at hd
    rw [hreader] at hne
    exact hs.done d x hd hne
  waits d hd := by
    rw [hreader] at hd
    obtain ⟨hp, n, h, hx, hlt⟩ := hs.waits d hd
    rw [hpolicy, hdeliveries]
    exact ⟨hp, n, h, hx, Nat.lt_of_lt_of_le hlt hnext⟩
  closed := by rw [hclosed, hreader, hs.closed]

/-- A turn that dispatches a notification puts it where it belongs; the reader waits with it if that
is nowhere yet. -/
theorem Reads.handOver (hs : s.Reads) (hreading : s.reader = .reading) (n : Notification)
    {s' : Session} (hlink : s'.link = s.link.handOver n)
    (hreader : s'.reader = ((s.onLink (·.dispatch n)).deliver s.link.deliveries.length).reader) :
    ∃ (streams : Table Nat Stream) (stage : DeliveryStage), s.link.Handed n streams stage ∧
      s'.link = { s.link with streams, deliveries := s.link.deliveries ++ [⟨n, stage⟩] } ∧
      s'.reader = if stage = .done then .reading else .delivering s.link.deliveries.length := by
  obtain ⟨streams, stage, hhanded, heq⟩ :=
    Link.handOver_handed hs.sound.streamed (hs.blockedOn hreading) n
  have hlast : (s.link.handOver n).deliveries[s.link.deliveries.length]? = some ⟨n, stage⟩ := by
    rw [heq]
    simp
  rw [reader_deliver hlast] at hreader
  exact ⟨streams, stage, hhanded, hlink.trans heq, hreader⟩

/-- A turn of a reader that waits ends the delivery, if the stream has room or receives no more, and
does nothing otherwise. -/
theorem Reads.again (hs : s.Reads) {d : Nat} (hwaits : s.reader = .delivering d) {s' : Session}
    (hlink : s'.link = s.link.run (.delivery d)) (hreader : s'.reader = (s.deliver d).reader) :
    ∃ (n : Notification) (h : Nat), s.link.deliveries[d]? = some ⟨n, .blocked h⟩ ∧
      h < s.link.subscriptions.nextHandle ∧
      (s'.link = s.link ∧ s'.reader = s.reader ∨
        s'.reader = .reading ∧
          (s.link.isReceiving h = false ∧ s'.link = s.link.setDelivery d .done ∨
            s.link.isReceiving h = true ∧
              s'.link = (s.link.enqueue h n.result).setDelivery d .done)) := by
  obtain ⟨_, n, h, hd, hlt⟩ := hs.waits d hwaits
  have hrun := Link.run_blocked hd (hs.blockedOn_take hwaits h)
  have hdone : ∀ l : Link, l.deliveries = s.link.deliveries →
      s.link.run (.delivery d) = l.setDelivery d .done → s'.reader = .reading := by
    intro l hl heq
    have hx : (s.link.run (.delivery d)).deliveries[d]? = some ⟨n, .done⟩ := by
      rw [heq, Link.deliveries_setDelivery, hl, hd, if_pos rfl, Option.map_some]
    rw [hreader, reader_deliver hx, if_pos rfl]
  refine ⟨n, h, hd, hlt, ?_⟩
  split at hrun
  · next hrec => exact .inr ⟨hdone s.link rfl hrun, .inl ⟨hrec, hlink.trans hrun⟩⟩
  · next hrec =>
    split at hrun
    · exact .inr ⟨hdone (s.link.enqueue h n.result) rfl hrun,
        .inr ⟨by simpa using hrec, hlink.trans hrun⟩⟩
    · have hx : (s.link.run (.delivery d)).deliveries[d]? = some ⟨n, .blocked h⟩ := by
        rw [hrun, hd]
      refine .inl ⟨hlink.trans hrun, ?_⟩
      rw [hreader, reader_deliver hx, if_neg (by simp), hwaits]

/-- The reader waits for nothing but what it could not deliver. -/
theorem reads_handOver (hs : s.Reads) (hreading : s.reader = .reading) (n : Notification)
    {s' : Session} (hlink : s'.link = s.link.handOver n)
    (hreader : s'.reader = ((s.onLink (·.dispatch n)).deliver s.link.deliveries.length).reader) :
    s'.Reads := by
  have hsound : s'.link.Sound := by
    rw [hlink]
    exact (hs.sound.apply (e := .dispatch n) (by simp)).apply
      (e := .run (.delivery s.link.deliveries.length)) (by simp)
  obtain ⟨streams, stage, hhanded, heq, hstage⟩ := hs.handOver hreading n hlink hreader
  refine ⟨hsound, fun d x hd hne => ?_, fun d hd => ?_, ?_⟩
  · rw [heq, getElem?_concat] at hd
    split at hd
    · next he =>
      obtain rfl := Option.some.inj hd
      by_contra hnot
      rw [hstage, if_neg hnot, he] at hne
      exact hne rfl
    · exact hs.done d x hd (by simp [hreading])
  · rw [hstage] at hd
    split at hd
    · simp at hd
    · next hnot =>
      obtain rfl := Reader.delivering.inj hd
      cases hhanded with
      | waits ht _ hp _ =>
        rw [heq]
        exact ⟨hp, n, _, by simp, hs.sound.tied.openLt _ (Subscriptions.target?_isOpen ht)⟩
      | _ => exact absurd rfl hnot
  · have hopen := hs.closed
    rw [heq, hstage]
    split <;> simpa [hreading] using hopen

/-- A delivery that the reader waits for is done afterwards, or the reader still waits. -/
theorem reads_again (hs : s.Reads) {d : Nat} (hwaits : s.reader = .delivering d) {s' : Session}
    (hlink : s'.link = s.link.run (.delivery d)) (hreader : s'.reader = (s.deliver d).reader) :
    s'.Reads := by
  have hsound : s'.link.Sound := by
    rw [hlink]
    exact hs.sound.apply (e := .run (.delivery d)) (by simp)
  have hdone : ∀ l : Link, l.deliveries = s.link.deliveries →
      l.subscriptions = s.link.subscriptions → s'.link = l.setDelivery d .done →
      s'.reader = .reading → s'.Reads := by
    intro l hl hsubs heq hr
    refine ⟨hsound, fun i x hi _ => ?_, fun i hi => by simp [hr] at hi, ?_⟩
    · rw [heq, Link.deliveries_setDelivery, hl] at hi
      split at hi
      · obtain ⟨y, _, rfl⟩ := Option.map_eq_some_iff.1 hi
        rfl
      · next hne =>
        exact hs.done i x hi fun he => hne (Reader.delivering.inj (hwaits.symm.trans he))
    · have hopen := hs.closed
      have hsubs' : s'.link.subscriptions = s.link.subscriptions := heq ▸ hsubs
      rw [hsubs', hr]
      simpa [hwaits] using hopen
  obtain ⟨n, h, _, _, ⟨heq, hr⟩ | ⟨hr, ⟨_, heq⟩ | ⟨_, heq⟩⟩⟩ := hs.again hwaits hlink hreader
  · exact hs.keep hsound hr (by rw [heq]) (by rw [heq]) (Nat.le_of_eq (by rw [heq])) (by rw [heq])
  · exact hdone s.link rfl rfl heq hr
  · exact hdone (s.link.enqueue h n.result) rfl rfl heq hr

theorem Turn.reads {e : Event} {s' : Session} (ht : Turn s e s') (hs : s.Reads) : s'.Reads := by
  cases ht with
  | idle _ _ hlink hreader =>
    exact hs.keep (hlink ▸ hs.sound) hreader (by rw [hlink]) (by rw [hlink])
      (Nat.le_of_eq (by rw [hlink])) (by rw [hlink])
  | event e' hplain _ _ hlink hreader =>
    obtain ⟨hspares, hkeeps, hgoesOn⟩ := Link.Event.plain_iff.1 hplain
    have h := Link.retains_apply (fun _ => hs.unopened (Nat.le_refl _)) hspares
    refine hs.keep (hlink ▸ hs.sound.apply hkeeps) hreader ?_ ?_ ?_ ?_ <;> rw [hlink]
    · exact h.deliveries
    · exact h.policy
    · exact (s.link.onward_apply e').next
    · exact s.link.closed_apply_of_ne hgoesOn
  | poll h _ hlink hreader =>
    have hsound := hs.sound.apply (e := .act (.poll h)) (by simp)
    have hkeep : (s.link.poll h).2.deliveries = s.link.deliveries ∧
        (s.link.poll h).2.policy = s.link.policy := by
      rcases s.link.poll_cases h with ⟨_, hr⟩ | ⟨_, _, _, _, heq⟩
      · exact ⟨hr.deliveries, hr.policy⟩
      · rw [heq]
        exact ⟨rfl, rfl⟩
    refine hs.keep (hlink ▸ hsound) hreader ?_ ?_ ?_ ?_ <;> rw [hlink]
    · exact hkeep.1
    · exact hkeep.2
    · exact (s.link.poll_moved h).onward.next
    · exact (s.link.poll_moved h).closed_eq
  | handOver n _ _ hreading hlink hreader => exact reads_handOver hs hreading n hlink hreader
  | again d _ hwaits hlink hreader => exact reads_again hs hwaits hlink hreader
  | stop _ _ hreading hlink hreader =>
    refine ⟨?_, fun d x hd _ => ?_, fun d hd => by simp [hreader] at hd,
      by rw [hlink]; exact iff_of_true rfl hreader⟩
    · rw [hlink]
      exact (hs.sound.apply (e := .closeCalls) (by simp)).apply (e := .closeSubscriptions) (by simp)
    · rw [hlink] at hd
      exact hs.done d x hd (by simp [hreading])
  | giveUp d _ hwaits hlink hreader =>
    refine ⟨?_, fun i x hi _ => ?_, fun i hi => by simp [hreader] at hi,
      by rw [hlink]; exact iff_of_true rfl hreader⟩
    · rw [hlink]
      exact ((hs.sound.apply (e := .dropDelivery d) (by simp)).apply (e := .closeCalls)
        (by simp)).apply (e := .closeSubscriptions) (by simp)
    · rw [hlink] at hi
      have hi' : (s.link.setDelivery d .done).deliveries[i]? = some x := hi
      rw [Link.deliveries_setDelivery] at hi'
      split at hi'
      · obtain ⟨y, _, rfl⟩ := Option.map_eq_some_iff.1 hi'
        rfl
      · next hne =>
        exact hs.done i x hi' fun he => hne (Reader.delivering.inj (hwaits.symm.trans he))

theorem Reads.after (hs : s.Reads) (events : List Event) : (s.after events).Reads := by
  induction events using List.reverseRecOn with
  | nil => exact hs
  | append_singleton events e ih =>
    rw [after_concat]
    exact (turn_apply _ e).reads ih

/-- Whatever happens to a session, its reader waits for what is not delivered. -/
theorem reads_after (buffer : Nat) (policy : Backpressure) (events : List Event) :
    ((start buffer policy).after events).Reads :=
  (reads_start buffer policy).after events

end Session

end NodeRpc
