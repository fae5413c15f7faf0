import NodeRpc.Frame.Writer
import NodeRpc.Proofs.Link.Phases
import NodeRpc.Proofs.Session.Ledger

/-!
# When the reader has stopped

The reader closes calls and subscriptions as it stops, and nothing opens them again. So all that
comes later finds empty tables: calls fail as they start and write nothing, what arrives makes no
difference, and a stream that has not ended fails at its next poll and is over then.
-/

namespace NodeRpc

/-- The first turn of a call fails once calls are closed, and that of an empty batch answers it. -/
theorem Calls.run_of_closed {c : Calls} (hc : c.closed = true) {k : Nat} {x : Exchange}
    (hx : c.exchanges[k]? = some x) (hf : x.stage = .fresh) :
    ∃ y : Exchange, (c.run k).exchanges[k]? = some y ∧
      y.stage = .finished (if x.calls = [] then .ok [] else .error .transportClosed) := by
  have hlt := (List.getElem?_eq_some_iff.1 hx).1
  have hrun : c.run k = c.start k x := by simp [run, hx, hf]
  rw [hrun]
  by_cases hne : x.calls = []
  · exact ⟨{ x with stage := .finished (.ok []) },
      by simp [start, hne, setExchange, hlt], by simp [hne]⟩
  · rw [start_eq _ _ _ hne, if_pos hc, if_neg hne]
    exact ⟨_, by simp [finish, setExchange, forget, enter, hlt]; rfl, rfl⟩

namespace Link

variable {l : Link}

/-- Calls and subscriptions of a link are closed. -/
structure Shut (l : Link) : Prop where
  calls : l.calls.closed = true
  subscriptions : l.subscriptions.closed = true

theorem Shut.apply (h : l.Shut) (e : Event) : (l.apply e).Shut :=
  ⟨stable_apply Calls.closed_stable h.calls e, closed_apply h.subscriptions e⟩

theorem Shut.after (h : l.Shut) (events : List Event) : (l.after events).Shut :=
  ⟨stable_after Calls.closed_stable h.calls events, closed_after h.subscriptions events⟩

/-! ### What arrives -/

theorem answers_of_shut (h : l.Shut) (hp : l.calls.pending = []) :
    (∀ r, l.route r = l) ∧ (∀ responses, l.routeBatch responses = l) ∧
      ∀ error, l.reject error = l := by
  have hfirst : ∀ (c : Calls) (responses : List Response), c.closed = true →
      c.firstAnswers responses = [] := by
    intro c responses
    induction responses generalizing c with
    | nil => exact fun _ => rfl
    | cons r responses ih =>
      intro hc
      have hanswer : c.answerOf r = [] := by simp [Calls.answerOf, hc]
      rw [Calls.firstAnswers, hanswer, List.nil_append]
      exact ih _ hc
  refine ⟨fun r => ?_, fun responses => ?_, fun error => ?_⟩
  · simp [route, answerAll, Calls.answerOf, h.calls]
  · simp [routeBatch, answerAll, Calls.batchAnswers, hfirst _ _ h.calls, hp]
  · simp [reject, answerAll, Calls.rejectionAnswers, Calls.oldestBatch?, hp]

theorem handOver_of_shut (hroutes : l.subscriptions.routes = []) (n : Notification) :
    l.handOver n = { l with deliveries := l.deliveries ++ [⟨n, .done⟩] } := by
  have htarget : l.subscriptions.target? n = none := by
    simp [Subscriptions.target?, hroutes, Table.get?]
  rw [handOver_eq, htarget]
  simp [setDelivery, dispatch, List.modify_eq_take_drop]

/-! ### What is started -/

theorem sayFarewell_of_closed (hc : l.subscriptions.closed = true)
    (farewell : Option (SubscriptionId × String)) : l.sayFarewell farewell = l := by
  unfold sayFarewell
  split
  · rw [if_pos hc]
  · rfl

/-- What follows the turn of an exchange that is over tells the node nothing. -/
theorem afterTurn_of_shut (h : l.Shut) {k : Nat} {y : Exchange}
    (hy : l.calls.exchanges[k]? = some y) (hover : y.isLive = false) :
    (l.afterTurn k).calls = l.calls := by
  unfold afterTurn
  rw [hy]
  split
  · split
    · unfold opened
      dsimp only
      split
      · rfl
      · rw [sayFarewell_of_closed]
        · rfl
        · exact h.subscriptions
    · rfl
  · next _ z _ hz =>
    obtain rfl := Option.some.inj hz
    rw [hover]
    rfl
  · rfl

/-- A call that starts on a closed connection fails, and an empty batch is answered. -/
theorem run_of_shut (h : l.Shut) {k : Nat} {x : Exchange} (hx : l.calls.exchanges[k]? = some x)
    (hf : x.stage = .fresh) :
    ∃ y : Exchange, (l.run (.exchange k)).calls.exchanges[k]? = some y ∧
      y.result? = some (if x.calls = [] then .ok [] else .error .transportClosed) := by
  obtain ⟨y, hy, hstage⟩ := Calls.run_of_closed h.calls hx hf
  have hover : y.isLive = false := by simp [Exchange.isLive, hstage]
  have hcan : l.canRun (.exchange k) = true := by simp [canRun, Calls.canRun, hx, hf]
  have hframe : l.setDeadline k = { l with roles := (l.setDeadline k).roles } := by
    unfold setDeadline
    split <;> rfl
  have hrun : l.run (.exchange k) = afterTurn { l with
      roles := (l.setDeadline k).roles, calls := l.calls.run k } k := by
    rw [run, if_pos hcan]
    unfold runExchange
    rw [hframe]
  have hshut : Shut { l with roles := (l.setDeadline k).roles, calls := l.calls.run k } :=
    ⟨Calls.closed_stable.apply l.calls (.run k) h.calls, h.subscriptions⟩
  have hcalls : (l.run (.exchange k)).calls = l.calls.run k := by
    rw [hrun]
    exact afterTurn_of_shut hshut hy hover
  refine ⟨y, ?_, by simp [Exchange.result?, hstage]⟩
  rw [hcalls, hy]

end Link

namespace Session

variable {s : Session}

/-! ### What a stopped reader has closed -/

theorem reader_deliver_ne (s : Session) (d : Nat) : (s.deliver d).reader ≠ .stopped := by
  unfold deliver
  dsimp only
  split
  · dsimp only
    split <;> simp
  · simp

/-- Wherever the reader stops, it closes calls and subscriptions. -/
theorem Turn.shut {e : Event} {s' : Session} (ht : Turn s e s')
    (hs : s.reader = .stopped → s.link.Shut) (hstopped : s'.reader = .stopped) : s'.link.Shut := by
  cases ht with
  | idle _ _ hlink hreader =>
    rw [hlink]
    exact hs (hreader.symm.trans hstopped)
  | event e' _ _ _ hlink hreader =>
    rw [hlink]
    exact (hs (hreader.symm.trans hstopped)).apply e'
  | poll h _ hlink hreader =>
    rw [hlink]
    exact (hs (hreader.symm.trans hstopped)).apply (.act (.poll h))
  | handOver n _ _ _ _ hreader => exact absurd (hreader.symm.trans hstopped) (reader_deliver_ne _ _)
  | again d _ _ _ hreader => exact absurd (hreader.symm.trans hstopped) (reader_deliver_ne _ _)
  | stop _ _ _ hlink _ =>
    rw [hlink]
    exact ⟨rfl, rfl⟩
  | giveUp d _ _ hlink _ =>
    rw [hlink]
    exact ⟨rfl, rfl⟩

theorem shut_of_stopped (buffer : Nat) (policy : Backpressure) (events : List Event)
    (hstopped : ((start buffer policy).after events).reader = .stopped) :
    ((start buffer policy).after events).link.Shut := by
  induction events using List.reverseRecOn with
  | nil => simp [after, start] at hstopped
  | append_singleton events e ih =>
    rw [after_concat] at hstopped ⊢
    exact (turn_apply _ e).shut ih hstopped

theorem stopped_apply (h : s.reader = .stopped) (e : Event) : (s.apply e).reader = .stopped := by
  cases turn_apply s e with
  | idle _ _ _ hreader => rw [hreader, h]
  | event _ _ _ _ _ hreader => rw [hreader, h]
  | poll _ _ _ hreader => rw [hreader, h]
  | handOver _ _ _ hreading => simp [h] at hreading
  | again _ _ hwaits => simp [h] at hwaits
  | stop _ _ _ _ hreader => exact hreader
  | giveUp _ _ _ _ hreader => exact hreader

theorem stopped_after (h : s.reader = .stopped) (events : List Event) :
    (s.after events).reader = .stopped := by
  induction events using List.reverseRecOn with
  | nil => exact h
  | append_singleton events e ih =>
    rw [after_concat]
    exact stopped_apply ih e

/-! ### What arrives -/

/-- Whether an event is something that arrives, or a turn of the reader. -/
def Event.isArrival : Event → Bool
  | .arrive _ | .disconnect | .run .reader | .readOn => true
  | _ => false

/-- Two sessions without a reader that differ at most in what has arrived. -/
structure Alike (s s' : Session) : Prop where
  link : s.link = s'.link
  owned : s.owned = s'.owned
  closing : s.closing = s'.closing
  stopped : s.reader = .stopped
  stopped' : s'.reader = .stopped

theorem read_of_stopped (h : s.reader = .stopped) : s.read = s ∧ s.readOn = s := by
  unfold read leave readOn
  rw [h]
  simp

/-- What arrives is not read. -/
theorem Alike.arrival {s' : Session} (h : Alike s s') {e : Event} (he : e.isArrival = true) :
    Alike (s.apply e) s' := by
  cases e with
  | arrive a =>
    unfold apply arrive
    dsimp only
    split
    · exact h
    · exact ⟨h.link, h.owned, h.closing, h.stopped, h.stopped'⟩
  | disconnect => exact ⟨h.link, h.owned, h.closing, h.stopped, h.stopped'⟩
  | run t =>
    cases t with
    | reader =>
      have hread : s.apply (.run .reader) = s := (read_of_stopped h.stopped).1
      rwa [hread]
    | exchange k => simp [Event.isArrival] at he
  | readOn =>
    have hread : s.apply .readOn = s := (read_of_stopped h.stopped).2
    rwa [hread]
  | _ => simp [Event.isArrival] at he

theorem Alike.apply {s' : Session} (h : Alike s s') (e : Event) (he : e.isArrival = false) :
    Alike (s.apply e) (s'.apply e) := by
  have honLink : ∀ f : Link → Link, Alike (s.onLink f) (s'.onLink f) := fun f =>
    ⟨congrArg f h.link, h.owned, h.closing, h.stopped, h.stopped'⟩
  cases e with
  | act a =>
    unfold Session.apply
    dsimp only
    rw [h.owned]
    split
    · exact h
    · exact honLink _
  | close =>
    unfold Session.apply
    dsimp only
    rw [h.owned]
    split
    · have hrefuses := congrArg (fun l : Link =>
        { l with calls := { l.calls with sink := .refuses .transportClosed } }) h.link
      exact ⟨hrefuses, h.owned, rfl, h.stopped, h.stopped'⟩
    · exact h
  | letGo => exact ⟨h.link, rfl, h.closing, h.stopped, h.stopped'⟩
  | sink sink =>
    unfold Session.apply
    dsimp only
    rw [h.closing]
    split
    · exact h
    · exact honLink _
  | resume k reply => exact honLink (·.apply (.resume k reply))
  | run t =>
    cases t with
    | reader => simp [Event.isArrival] at he
    | exchange k => exact honLink (·.run (.exchange k))
  | _ => simp [Event.isArrival] at he

/-- Once the reader has stopped, a run is the same without what arrives. -/
theorem link_after_arrivals (h : s.reader = .stopped) (events : List Event) :
    (s.after events).link = (s.after (events.filter fun e => !e.isArrival)).link := by
  suffices halike : ∀ s', Alike s s' →
      Alike (s.after events) (s'.after (events.filter fun e => !e.isArrival)) from
    (halike s ⟨rfl, rfl, rfl, h, h⟩).link
  clear h
  induction events generalizing s with
  | nil => exact fun _ h => h
  | cons e events ih =>
    intro s' h
    rw [List.filter_cons]
    cases he : e.isArrival with
    | true => exact ih s' (h.arrival he)
    | false => exact ih (s'.apply e) (h.apply e he)

/-! ### What streams yield -/

/-- What the polls of the stream `h` find in a run. -/
def polled (s : Session) (h : Nat) (events : List Event) : List Polled :=
  s.trace (fun s e => if e = .act (.poll h) then [(s.link.poll h).1] else []) events

theorem polled_cons (s : Session) (h : Nat) (e : Event) (events : List Event) :
    s.polled h (e :: events) =
      (if e = .act (.poll h) then [(s.link.poll h).1] else []) ++ (s.apply e).polled h events :=
  rfl

theorem polled_of_not_mem {h : Nat} {events : List Event} (hpolls : .act (.poll h) ∉ events) :
    s.polled h events = [] := by
  induction events generalizing s with
  | nil => rfl
  | cons e events ih =>
    rw [List.mem_cons, not_or] at hpolls
    rw [polled_cons, if_neg (Ne.symm hpolls.1), ih hpolls.2, List.append_nil]

theorem closed_polled {h : Nat} (hlt : h < s.link.subscriptions.nextHandle)
    (hp : s.link.phase? h = some .closed) (events : List Event) :
    s.polled h events = List.replicate (events.count (.act (.poll h))) .ended := by
  induction events generalizing s with
  | nil => rfl
  | cons e events ih =>
    obtain ⟨es, h'⟩ := amounts_apply s e
    have hlink : (s.apply e).link = s.link.after es := h'.link
    have hrest := ih (s := s.apply e)
      (by rw [hlink]; exact Nat.lt_of_lt_of_le hlt (Link.nextHandle_le_after _ _))
      (by rw [hlink]; exact Link.phase_closed_after hlt hp es)
    rw [polled_cons, hrest, List.count_cons]
    by_cases he : e = .act (.poll h)
    · rw [if_pos he, Link.poll_of_closed hp, he]
      simp [List.replicate_succ]
    · simp [he]

/-- After the end of a session a stream that has not ended fails once, however much it holds, and
then it has ended. -/
theorem lost_polled {h : Nat} {x : Stream} (hs : s.Reads) (hshut : s.link.Shut)
    (hget : s.link.streams.get? h = some x) (hopen : x.phase ≠ .closed) {before : List Event}
    (hpolls : .act (.poll h) ∉ before)
    (hfree : (s.after before).link.calls.isCancelled (.stream h) = false) (later : List Event) :
    s.polled h (before ++ .act (.poll h) :: later) =
      .failed .transportClosed :: List.replicate (later.count (.act (.poll h))) .ended := by
  have hlt := hs.sound.streamed.lt h x hget
  obtain ⟨es, hlink, honly, _⟩ := amounts_after s before
  have hphase : (s.after before).link.phase? h = some x.phase := by
    rw [hlink] at hfree ⊢
    rw [Link.phase_after hlt (fun hmem => hpolls (honly h hmem)) hfree, Link.phase?, hget]
    rfl
  have hlost : (s.after before).link.Shut := by
    rw [hlink]
    exact hshut.after es
  obtain ⟨hfailed, hclosed⟩ := Link.poll_of_lost hphase hopen hfree hlost.subscriptions
  have hnext : h < ((s.after before).apply (.act (.poll h))).link.subscriptions.nextHandle := by
    rw [← after_concat]
    exact Nat.lt_of_lt_of_le hlt (subscriptions_onward s _).next
  rw [polled, trace_append, ← polled, ← polled, polled_of_not_mem hpolls, List.nil_append,
    polled_cons, if_pos rfl, hfailed]
  exact congrArg _ (closed_polled hnext hclosed later)

/-! ### The end of a session -/

/-- What holds of a session from the end of its reader on. -/
structure Over (s : Session) : Prop where
  reader : s.reader = .stopped
  calls : s.link.calls.closed = true ∧ s.link.calls.pending = []
  subscriptions : s.link.subscriptions.closed = true ∧
    s.link.subscriptions.registrations = [] ∧ s.link.subscriptions.routes = []
  /-- A call or batch that starts now fails; an empty batch is answered. -/
  starts : ∀ (k : Nat) (x : Exchange), s.link.calls.exchanges[k]? = some x → x.stage = .fresh →
    ∃ y : Exchange, (s.apply (.run (.exchange k))).link.calls.exchanges[k]? = some y ∧
      y.result? = some (if x.calls = [] then .ok [] else .error .transportClosed)
  /-- No response finds a call, -/
  answers : (∀ r, s.link.route r = s.link) ∧ (∀ responses, s.link.routeBatch responses = s.link) ∧
    ∀ error, s.link.reject error = s.link
  /-- and no notification a subscription. -/
  notifications : ∀ n,
    s.link.handOver n = { s.link with deliveries := s.link.deliveries ++ [⟨n, .done⟩] }
  /-- A stream that has not ended fails at its next poll, if it is not cancelled until then, and has
  ended afterwards. -/
  streams : ∀ (h : Nat) (x : Stream) (before later : List Event),
    s.link.streams.get? h = some x → x.phase ≠ .closed → .act (.poll h) ∉ before →
    (s.after before).link.calls.isCancelled (.stream h) = false →
    s.polled h (before ++ .act (.poll h) :: later) =
      .failed .transportClosed :: List.replicate (later.count (.act (.poll h))) .ended

theorem over_of_stopped (buffer : Nat) (policy : Backpressure) (events : List Event)
    (hstopped : ((start buffer policy).after events).reader = .stopped) :
    ((start buffer policy).after events).Over := by
  have hshut := shut_of_stopped buffer policy events hstopped
  have hreads := reads_after buffer policy events
  have hpending : ((start buffer policy).after events).link.calls.pending = [] := by
    obtain ⟨es, hlink, _, _⟩ := amounts_after (start buffer policy) events
    have hkept := Link.stable_after (l := (start buffer policy).link) Calls.kept_stable
      Calls.kept_empty es
    rw [← hlink] at hkept
    exact hkept.accurate.closed hshut.calls
  have hroutes := hreads.sound.tied.routes_eq_nil
    (hreads.sound.valid.closed hshut.subscriptions)
  exact {
    reader := hstopped
    calls := ⟨hshut.calls, hpending⟩
    subscriptions := ⟨hshut.subscriptions,
      hreads.sound.valid.registrations_eq_nil hshut.subscriptions, hroutes⟩
    starts := fun k x hx hf => Link.run_of_shut hshut hx hf
    answers := Link.answers_of_shut hshut hpending
    notifications := Link.handOver_of_shut hroutes
    streams := fun h x before later hget hopen hpolls hfree =>
      lost_polled hreads hshut hget hopen hpolls hfree later }

/-- A session whose reader has stopped is over for good, whatever happens later: nothing is written
any more, and what arrives makes no difference. -/
theorem over_for_good (buffer : Nat) (policy : Backpressure) (events more : List Event)
    (hstopped : ((start buffer policy).after events).reader = .stopped) :
    let session := (start buffer policy).after events
    (session.after more).Over ∧
      (session.after more).link.calls.written = session.link.calls.written ∧
      (session.after more).link = (session.after (more.filter fun e => !e.isArrival)).link := by
  intro session
  have hshut := shut_of_stopped buffer policy events hstopped
  refine ⟨?_, ?_, link_after_arrivals hstopped more⟩
  · have happend : session.after more = (start buffer policy).after (events ++ more) := by
      simp [session, after]
    rw [happend]
    refine over_of_stopped buffer policy (events ++ more) ?_
    rw [← happend]
    exact stopped_after hstopped more
  · obtain ⟨es, hlink, _, _⟩ := amounts_after session more
    rw [hlink]
    exact (Link.stable_after (Calls.silent_stable session.link.calls.written)
      ⟨hshut.calls, rfl⟩ es).2

/-- A connection that is lost right behind the first notification of a subscription. -/
def lostBehindFirst : List Event :=
  let request : SubscriptionRequest :=
    ⟨⟨"slotSubscribe", "slotUnsubscribe", "slotNotification"⟩, .arr []⟩
  let push (frame : Json) : Event := .arrive (.text frame.compact)
  [.act (.open request (.caller 0)), .run (.exchange 0), push (Response.toJson ⟨1, .ok (.int 7)⟩),
    push (Notification.toJson ⟨"slotNotification", .number 7, .int 1⟩),
    .arrive (.failure .transportClosed), .run .reader, .run .reader, .run .reader]

/-- The notification is still held, and nobody gets it. -/
theorem over_for_good_holding_one :
    let session := (start 1 .pauseReads).after lostBehindFirst
    session.reader = .stopped ∧ session.link.bufferOf 1 = [.int 1] ∧
      session.polled 1 [.act (.poll 1), .act (.poll 1)] = [.failed .transportClosed, .ended] := by
  dsimp only
  have hstopped : ((start 1 .pauseReads).after lostBehindFirst).reader = .stopped := by
    decide +kernel
  have hover := (over_for_good 1 .pauseReads lostBehindFirst [] hstopped).1
  have hget : ((start 1 .pauseReads).after lostBehindFirst).link.streams.get? 1 =
      some { parent := .caller 0, buffer := [.int 1] } := by decide +kernel
  have hfree : ((start 1 .pauseReads).after lostBehindFirst).link.calls.isCancelled (.stream 1) =
      false := by decide +kernel
  generalize (start 1 .pauseReads).after lostBehindFirst = session at *
  refine ⟨hstopped, by simp [Link.bufferOf, hget], ?_⟩
  exact hover.streams 1 _ [] [.act (.poll 1)] hget (by simp) (by simp) hfree

end Session

end NodeRpc
