import NodeRpc.Proofs.Link.Lifetimes
import NodeRpc.Proofs.Link.Settling

/-!
# What a cancelled subscription leaves behind

A subscription that is cancelled while its subscribe call is out gives everything up by itself: the
call ends, and its end releases the handle. One that was confirmed waits to be polled: cancelling it
wakes nobody but its stream. So once everything has settled, a cancelled subscription holds on to
its entry and its route exactly if it was confirmed and its stream has not ended since, and a
delivery waits for it only while its stream receives (`holds_iff_of_cancelled`).

`Subscribing` ties what a stream knows of its opening to its one subscribe call, through all events.
-/

namespace NodeRpc

/-- Exchange `k` is a call with the token `t` that can still come to a result. -/
def Calls.Running (k : Nat) (t : Token) (c : Calls) : Prop :=
  c.Valid ∧ ∃ x, c.exchanges[k]? = some x ∧ x.isLive = true ∧ x.token = t

namespace Calls

theorem running_steady (k : Nat) (t : Token) : Steady (some k) (Running k t) where
  apply c e he hr := by
    obtain ⟨hv, x, hx, hlive, htoken⟩ := hr
    have hlt : k < (c.apply e).exchanges.length := by
      have hold := (List.getElem?_eq_some_iff.1 hx).1
      rw [length_apply]
      split <;> omega
    have hx' := List.getElem?_eq_getElem hlt
    have hb := became hv hx'
    rw [hx] at hb
    refine ⟨valid_apply hv e, _, hx', ?_⟩
    generalize (c.apply e).exchanges[k] = x' at hb
    cases hb with
    | same => exact ⟨hlive, htoken⟩
    | turned _ hrun _ => exact absurd hrun (he k rfl).1
    | dropped hdrop => exact absurd hdrop (he k rfl).2
    | resumed _ _ => exact ⟨rfl, htoken⟩
    | answered hsame _ _ =>
      rw [hsame]
      exact ⟨hlive, htoken⟩
  answer c i o hr := by
    obtain ⟨hv, x, hx, hlive, htoken⟩ := hr
    refine ⟨hv.answer i o, ?_⟩
    rw [exchanges_answer, hx]
    refine ⟨_, rfl, ?_⟩
    split <;> exact ⟨hlive, htoken⟩

/-- A call that is cancelled can always go on. -/
theorem Running.canRun {c : Calls} {k : Nat} {t : Token} (hr : c.Running k t)
    (hc : c.isCancelled t = true) : c.canRun k = true := by
  obtain ⟨_, x, hx, hlive, rfl⟩ := hr
  unfold Calls.canRun
  rw [hx]
  unfold Exchange.isLive at hlive
  cases hs : x.stage <;> simp_all

end Calls

namespace Link

variable {l : Link} {h k : Nat} {token : Token}

/-! ### What calls are for -/

theorem concat_eq_opening_iff {roles : List Role} {role : Role} {u : String}
    (hrole : role ≠ .opening h u) :
    (roles ++ [role])[k]? = some (.opening h u) ↔ roles[k]? = some (.opening h u) := by
  rw [getElem?_concat]
  split
  · next hk => simp [hk, hrole]
  · exact .rfl

theorem Aged.opening_iff {c : Calls} {roles : List Role} (ha : l.Aged c roles) (u : String) :
    roles[k]? = some (.opening h u) ↔ l.roles[k]? = some (.opening h u) := by
  rcases ha.roles k with heq | ⟨d, d', hd, hd'⟩
  · rw [heq]
  · simp [hd, hd']

/-- No event makes a subscribe call for a handle that was given out before, and none is turned into
something else. -/
theorem opening_apply_iff (ht : l.Tied) (hlt : h < l.subscriptions.nextHandle) (e : Event)
    (u : String) :
    (l.apply e).roles[k]? = some (.opening h u) ↔ l.roles[k]? = some (.opening h u) := by
  cases he : e.answers? l with
  | some as =>
    rw [apply_of_answers he]
    exact (answerAll_unmoved as l).opening k h u
  | none =>
    cases passed_apply ht he with
    | aged _ _ ha _ => exact ha.opening_iff u
    | made _ _ _ role hrole _ _ _ hroles _ =>
      rw [hroles]
      exact concat_eq_opening_iff (hrole h u)
    | refused _ _ _ _ ha _ => exact ha.opening_iff u
    | opened names _ _ _ _ _ _ _ hroles _ =>
      rw [hroles]
      refine concat_eq_opening_iff fun heq => ?_
      exact absurd (Role.opening.inj heq).1 (Nat.ne_of_gt hlt)
    | ended _ _ roles _ _ ha _ htold =>
      rcases htold with ⟨_, _, hroles⟩ | ⟨_, _, _, _, _, hroles⟩
      · rw [hroles]
        exact ha.opening_iff u
      · rw [hroles]
        exact (concat_eq_opening_iff (by simp)).trans (ha.opening_iff u)
    | closed _ _ _ hroles _ => rw [hroles]

/-! ### Turns of calls -/

theorem roleAt_eq_opening_iff {u : String} :
    l.roleAt k = .opening h u ↔ l.roles[k]? = some (.opening h u) := by
  unfold roleAt
  rw [List.getD_eq_getElem?_getD]
  cases l.roles[k]? <;> simp

theorem afterTurn_of_opening {u : String} (hrole : l.roles[k]? = some (.opening h u)) :
    l.afterTurn k =
      match (l.calls.exchanges[k]?).bind Exchange.outcome? with
      | some o => l.opened h o
      | none => l := by
  unfold afterTurn
  rw [roleAt_eq_opening_iff.2 hrole]
  cases l.calls.exchanges[k]? <;> rfl

/-- What a turn of exchange `k` makes of a link: the opening of a subscription comes to its end, or
nothing happens to streams and handles. -/
inductive Took (l : Link) (k : Nat) (l' : Link) : Prop where
  | opened (h : Nat) (u : String) (o : Outcome) (hrole : l.roles[k]? = some (.opening h u))
      (ho : ((l.calls.run k).exchanges[k]?).bind Exchange.outcome? = some o)
      (heq : l' = { l with calls := l.calls.run k }.opened h o)
  | quiet (hstreams : l'.streams = l.streams) (hsubs : l'.subscriptions = l.subscriptions)
      (hopening : ∀ h u, l.roles[k]? = some (.opening h u) → l'.calls = l.calls.run k ∧
        ((l.calls.run k).exchanges[k]?).bind Exchange.outcome? = none)

theorem took_runExchange (l : Link) (k : Nat) : l.Took k (l.runExchange k) := by
  by_cases hopening : ∃ h u, l.roles[k]? = some (.opening h u)
  · obtain ⟨h, u, hrole⟩ := hopening
    have hdeadline : l.setDeadline k = l := by
      unfold setDeadline
      rw [roleAt_eq_opening_iff.2 hrole]
    have hturn := afterTurn_of_opening (l := { l with calls := l.calls.run k }) hrole
    have hrun : l.runExchange k = { l with calls := l.calls.run k }.afterTurn k := by
      unfold runExchange
      rw [hdeadline]
    cases ho : ((l.calls.run k).exchanges[k]?).bind Exchange.outcome? with
    | some o =>
      rw [ho] at hturn
      exact .opened h u o hrole ho (hrun.trans hturn)
    | none =>
      rw [ho] at hturn
      rw [hrun, hturn]
      exact .quiet rfl rfl fun _ _ _ => ⟨rfl, ho⟩
  · have hsame : (l.setDeadline k).streams = l.streams ∧
        (l.setDeadline k).subscriptions = l.subscriptions ∧
        ∀ h u, (l.setDeadline k).roleAt k ≠ .opening h u := by
      unfold setDeadline
      split
      · refine ⟨rfl, rfl, fun h u hat => ?_⟩
        rw [roleAt_eq_opening_iff, List.getElem?_set] at hat
        simp at hat
      · exact ⟨rfl, rfl, fun h u hat => hopening ⟨h, u, roleAt_eq_opening_iff.1 hat⟩⟩
    obtain ⟨hstreams, hsubs, hnot⟩ := hsame
    have hafter : ∀ l' : Link, (∀ h u, l'.roleAt k ≠ .opening h u) →
        (l'.afterTurn k).streams = l'.streams ∧
          (l'.afterTurn k).subscriptions = l'.subscriptions := by
      intro l' hnot
      unfold afterTurn
      split
      · next h u _ hat _ => exact absurd hat (hnot h u)
      · split <;> exact ⟨rfl, rfl⟩
      · exact ⟨rfl, rfl⟩
    obtain ⟨hstreams', hsubs'⟩ :=
      hafter { l.setDeadline k with calls := (l.setDeadline k).calls.run k } hnot
    exact .quiet (hstreams'.trans hstreams) (hsubs'.trans hsubs)
      fun h u hrole => absurd ⟨h, u, hrole⟩ hopening

/-! ### What a stream learns of its opening -/

/-- What opening the subscription `handle` came to, as far as its stream has learned. -/
def learned? (l : Link) (handle : Nat) : Option (Except CallError SubscriptionId) :=
  (l.streams.get? handle).bind Stream.confirmation

/-- The end of the subscribe call of one handle is nothing to the streams of others. -/
theorem learned?_opened (l : Link) (handle : Nat) (o : Outcome) :
    (l.opened handle o).learned? h =
      if handle = h then (l.streams.get? h).map fun _ => o.bind (decodeAs SubscriptionId.ofJson?)
      else l.learned? h := by
  have hstreams : (l.opened handle o).streams = l.streams.update handle fun s =>
      { s with confirmation := some (o.bind (decodeAs SubscriptionId.ofJson?)) } := by
    unfold opened
    dsimp only
    split
    · rfl
    · rw [sayFarewell_frame]
      rfl
  unfold learned?
  rw [hstreams, Table.get?_update]
  split
  · cases l.streams.get? h <;> rfl
  · rfl

/-- What a stream knows of its opening changes only by a turn of its subscribe call. -/
theorem learned?_apply (hlt : h < l.subscriptions.nextHandle) {e : Event}
    (he : ∀ k u, e = .run (.exchange k) → l.roles[k]? ≠ some (.opening h u)) :
    (l.apply e).learned? h = l.learned? h := by
  by_cases hrun : ∃ k, e = .run (.exchange k)
  · obtain ⟨k, rfl⟩ := hrun
    unfold apply run
    dsimp only
    split
    · cases l.took_runExchange k with
      | opened handle u o hrole _ heq =>
        have hne : handle ≠ h := by
          rintro rfl
          exact he k u rfl hrole
        rw [heq, learned?_opened, if_neg hne]
        rfl
      | quiet hstreams _ _ =>
        unfold learned?
        rw [hstreams]
    · rfl
  · have hmap := map_apply (f := Stream.confirmation) (fun _ _ _ hconf => hconf) hlt
      fun k hk => hrun ⟨k, hk⟩
    have hbind := congrArg (Option.bind · id) hmap
    simpa only [learned?, Option.bind_map, Function.id_comp] using hbind

/-! ### The subscribe call of a stream -/

/-- The stream `h`, opened with `token`, has no subscribe call but exchange `k`, and learns what
opening came to as soon as that is over. -/
structure Subscribing (l : Link) (h k : Nat) (token : Token) : Prop where
  tied : l.Tied
  lt : h < l.subscriptions.nextHandle
  parent : l.parent? h = some token
  only : ∀ (j : Nat) (u : String), l.roles[j]? = some (.opening h u) → j = k
  running : l.learned? h = none →
    (∃ u, l.roles[k]? = some (.opening h u)) ∧ l.calls.Running k (.stream h)
  finished : l.learned? h ≠ none → ∀ (u : String) (x : Exchange),
    l.roles[k]? = some (.opening h u) → l.calls.exchanges[k]? = some x → x.isLive = false

theorem Subscribing.exists_stream (hs : l.Subscribing h k token) :
    ∃ s, l.streams.get? h = some s := by
  obtain ⟨s, hget, _⟩ := Option.map_eq_some_iff.1 hs.parent
  exact ⟨s, hget⟩

/-- A turn of a subscribe call leaves it running, or gives it an outcome. -/
theorem running_or_outcome (ht : l.Tied) {u : String}
    (hrole : l.roles[k]? = some (.opening h u)) (hr : l.calls.Running k token) :
    ∃ x, (l.calls.run k).exchanges[k]? = some x ∧
      ((l.calls.run k).Running k token ∧ x.outcome? = none ∨
        x.isLive = false ∧ ∃ o, x.outcome? = some o) := by
  obtain ⟨hv, x, hx, hlive, rfl⟩ := hr
  obtain ⟨ids, stage, hnext, hset⟩ := Calls.run_next hx
  have hv' : (l.calls.run k).Valid := Calls.valid_apply hv (.run k)
  have hx' : (l.calls.run k).exchanges[k]? = some { x with ids, stage } := by
    have hget := Calls.getElem?_setExchange hx { x with ids, stage } k
    rw [if_pos rfl] at hget
    rw [hset]
    exact hget
  have hrunning : ∀ (hl : Exchange.isLive { x with ids, stage } = true),
      (l.calls.run k).Running k x.token ∧ Exchange.outcome? { x with ids, stage } = none := by
    intro hl
    refine ⟨⟨hv', _, hx', hl, rfl⟩, ?_⟩
    cases stage <;> simp_all [Exchange.isLive, Exchange.outcome?]
  refine ⟨_, hx', ?_⟩
  cases hnext with
  | idle => exact .inl (hrunning hlive)
  | writing _ => exact .inl (hrunning rfl)
  | waiting => exact .inl (hrunning rfl)
  | done outcomes =>
    -- a subscribe call is one call, so it has one answer
    have hsingle := ht.single k h u x hrole hx
    have hvalid := hv'.exchange k _ hx'
    obtain ⟨i, rfl⟩ := List.length_eq_one_iff.1
      ((hvalid.idsLength (by simp) (by simp)).trans hsingle)
    have hcollected := hvalid.collected outcomes rfl
    obtain ⟨o, _, rfl⟩ : ∃ o, x.answers.get? i = some o ∧ [o] = outcomes := by
      simpa [Exchange.collected?, Option.bind_eq_some_iff] using hcollected
    exact .inr ⟨rfl, o, rfl⟩
  | cancelled _ => exact .inr ⟨rfl, _, rfl⟩
  | closed _ _ => exact .inr ⟨rfl, _, rfl⟩
  | refused _ _ => exact .inr ⟨rfl, _, rfl⟩
  | broken _ => exact .inr ⟨rfl, _, rfl⟩

/-- A turn of a subscribe call tells its stream what it has come to, if it has come to anything. -/
theorem Subscribing.turn (hs : l.Subscribing h k token) (hnone : l.learned? h = none) :
    (l.run (.exchange k)).learned? h = none ∧ (l.run (.exchange k)).calls.Running k (.stream h) ∨
      (l.run (.exchange k)).learned? h ≠ none ∧
        ∃ x, (l.run (.exchange k)).calls.exchanges[k]? = some x ∧ x.isLive = false := by
  obtain ⟨⟨u, hrole⟩, hr⟩ := hs.running hnone
  unfold run
  split
  · obtain ⟨x, hx, hturn⟩ := running_or_outcome hs.tied hrole hr
    dsimp only
    cases l.took_runExchange k with
    | opened handle u' o hrole' ho heq =>
      rw [hrole] at hrole'
      obtain ⟨rfl, rfl⟩ := Role.opening.inj (Option.some.inj hrole')
      rw [hx, Option.bind_some] at ho
      obtain ⟨s, hget⟩ := hs.exists_stream
      rcases hturn with ⟨_, hnot⟩ | ⟨hover, _⟩
      · simp [hnot] at ho
      · refine .inr ⟨?_, x, ?_, hover⟩
        · rw [heq, learned?_opened, if_pos rfl, hget]
          simp
        · rw [heq]
          exact (steady_opened (Calls.over_stable k hover).steady
            (l := { l with calls := l.calls.run k })
            ⟨Calls.valid_apply hr.1 (.run k), hx⟩ h o).2
    | quiet hstreams _ hopening =>
      obtain ⟨hcalls, hnot⟩ := hopening h u hrole
      rw [hx, Option.bind_some] at hnot
      rcases hturn with ⟨hrunning, _⟩ | ⟨_, o, ho⟩
      · refine .inl ⟨?_, hcalls ▸ hrunning⟩
        unfold learned?
        rw [hstreams]
        exact hnone
      · simp [hnot] at ho
  · exact .inl ⟨hnone, hr⟩

/-- What a stream has learned of its opening, it never learns anew. -/
theorem Subscribing.learned?_apply (hs : l.Subscribing h k token) {e : Event}
    (he : e = .run (.exchange k) → l.learned? h ≠ none) :
    (l.apply e).learned? h = l.learned? h := by
  by_cases hturn : e = .run (.exchange k) ∧ ∃ u, l.roles[k]? = some (.opening h u)
  · obtain ⟨rfl, u, hrole⟩ := hturn
    -- the call is over, so it has no turn
    unfold apply run
    dsimp only
    split
    · next hcan =>
      obtain ⟨x, hx, hlive⟩ := live_of_canRun hcan hrole
      simp [hs.finished (he rfl) u x hrole hx] at hlive
    · rfl
  · refine Link.learned?_apply hs.lt fun j u hj hrole => hturn ?_
    obtain rfl := hs.only j u hrole
    exact ⟨hj, u, hrole⟩

theorem Subscribing.apply (hs : l.Subscribing h k token) {e : Event} (he : e ≠ .act (.drop k)) :
    (l.apply e).Subscribing h k token := by
  have ht := hs.tied
  have hroles := fun j u => opening_apply_iff (k := j) ht hs.lt e u
  have hbase := fun hrunning hover => (⟨tied_apply ht e,
    Nat.lt_of_lt_of_le hs.lt (onward_apply l e).next, (parent_apply hs.lt e).trans hs.parent,
    fun j u hj => hs.only j u ((hroles j u).1 hj), hrunning, hover⟩ :
    (l.apply e).Subscribing h k token)
  by_cases hturn : e = .run (.exchange k) ∧ l.learned? h = none
  · obtain ⟨rfl, hnone⟩ := hturn
    obtain ⟨⟨u, hrole⟩, _⟩ := hs.running hnone
    rcases hs.turn hnone with ⟨hnone', hr⟩ | ⟨hsome, x, hx, hover⟩
    · exact hbase (fun _ => ⟨⟨u, (hroles k u).2 hrole⟩, hr⟩) fun hsome => absurd hnone' hsome
    · refine hbase (fun hnone' => absurd hnone' hsome) fun _ _ x' _ hx' => ?_
      have hsame := hx.symm.trans hx'
      rwa [← Option.some.inj hsame]
  · have hsame := hs.learned?_apply fun hrun hnone => hturn ⟨hrun, hnone⟩
    refine hbase (fun hnone => ?_) fun hsome u x hrole hx => ?_
    · rw [hsame] at hnone
      obtain ⟨⟨u, hrole⟩, hr⟩ := hs.running hnone
      refine ⟨⟨u, (hroles k u).2 hrole⟩, steady_apply (Calls.running_steady k _) hr ?_⟩
      rintro j hj
      obtain rfl := Option.some.inj hj
      exact ⟨fun hrun => hturn ⟨hrun, hnone⟩, he⟩
    · rw [hsame] at hsome
      have hrole := (hroles k u).1 hrole
      have hlt : k < l.calls.exchanges.length :=
        ht.length ▸ (List.getElem?_eq_some_iff.1 hrole).1
      have hold := List.getElem?_eq_getElem hlt
      have hover := hs.finished hsome u _ hrole hold
      have hstays := (stable_apply (Calls.over_stable k hover) ⟨ht.calls, hold⟩ e).2
      rw [hx] at hstays
      rw [Option.some.inj hstays, hover]

theorem Subscribing.after (hs : l.Subscribing h k token) {events : List Event}
    (hkept : .act (.drop k) ∉ events) : (l.after events).Subscribing h k token := by
  induction events using List.reverseRecOn with
  | nil => exact hs
  | append_singleton events e ih =>
    rw [List.mem_append, List.mem_singleton, not_or] at hkept
    rw [after_concat]
    exact (ih hkept.1).apply (Ne.symm hkept.2)

/-! ### The end of a subscription on this side -/

/-- The subscription `h` has ended on this side, for one of the reasons that its stream can see. -/
inductive Over (l : Link) (h : Nat) : Prop where
  | lost (hc : l.subscriptions.closed = true)
  | closed (hp : l.phase? h = some .closed)
  | failed {cause : CallError} (hl : l.learned? h = some (.error cause))

theorem Valid.not_isOpen_of_over (hv : l.Valid) (ho : l.Over h) :
    l.subscriptions.isOpen h = false := by
  cases hopen : l.subscriptions.isOpen h with
  | false => rfl
  | true =>
    obtain ⟨s, hs, hlive⟩ := hv.live h hopen
    cases ho with
    | lost hc => exact absurd hopen (by simp [hv.closed hc h])
    | closed hp => exact absurd (by simpa [phase?, hs] using hp) hlive.phase
    | failed hl => exact absurd (by simpa [learned?, hs] using hl) (hlive.confirmation _)

theorem Subscribing.over_apply (hs : l.Subscribing h k token) (ho : l.Over h) (e : Event) :
    (l.apply e).Over h := by
  cases ho with
  | lost hc => exact .lost (closed_apply hc e)
  | closed hp => exact .closed (phase_closed_apply hs.lt hp e)
  | failed hl =>
    refine .failed ((hs.learned?_apply fun _ hnone => ?_).trans hl)
    rw [hl] at hnone
    simp at hnone

theorem closeStream_over (hv : l.Valid) (ho : l.subscriptions.isOpen h = true) (telling : Bool) :
    (l.closeStream h telling).phase? h = some .closed := by
  obtain ⟨s, hs, hlive⟩ := hv.live h ho
  rw [l.closeStream_frame h telling hs hlive.phase]
  simp [phase?, Table.get?_put]

/-- A poll leaves the handles alone, or closes the stream. -/
theorem poll_subscriptions (l : Link) (handle : Nat) :
    (l.poll handle).2.subscriptions = l.subscriptions ∨
      (l.poll handle).2 = l.closeStream handle true := by
  have htake : ∀ s, (l.take handle s).2.subscriptions = l.subscriptions := fun s => by
    rw [take_frame]
  unfold poll
  split
  · exact .inl rfl
  · split
    · exact .inl rfl
    · split
      · exact .inr rfl
      · split
        · exact .inl rfl
        · split
          · exact .inl rfl
          · exact .inl rfl
          · exact .inl (htake _)
          · exact .inl (htake _)

/-- The end of a subscribe call leaves a handle open, or tells its stream that opening failed. -/
theorem opened_over (ho : l.subscriptions.isOpen h = true)
    (hthere : ∃ s, l.streams.get? h = some s) (handle : Nat) (o : Outcome) :
    (l.opened handle o).subscriptions.isOpen h = true ∨ (l.opened handle o).Over h := by
  have hlearned := l.learned?_opened (h := h) handle o
  cases hresult : o.bind (decodeAs SubscriptionId.ofJson?) with
  | ok id =>
    have hsubs : (l.opened handle o).subscriptions = l.subscriptions := by
      unfold opened
      rw [hresult]
    exact .inl (hsubs ▸ ho)
  | error cause =>
    have hsubs : (l.opened handle o).subscriptions = l.subscriptions.release handle := by
      unfold opened
      rw [hresult]
      dsimp only
      rw [sayFarewell_frame]
      rfl
    by_cases hh : handle = h
    · obtain ⟨s, hs⟩ := hthere
      rw [if_pos hh, hs, hresult] at hlearned
      exact .inr (.failed hlearned)
    · rw [hsubs, Subscriptions.isOpen_release]
      exact .inl (by simp [hh, ho])

/-- A subscription that is open stays so until it is over, unless its handle is released behind its
back. -/
theorem isOpen_or_over_apply (hv : l.Valid) (ho : l.subscriptions.isOpen h = true) {e : Event}
    (he : e ≠ .release h) : (l.apply e).subscriptions.isOpen h = true ∨ (l.apply e).Over h := by
  have hstays : ∀ l' : Link, l'.subscriptions = l.subscriptions →
      l'.subscriptions.isOpen h = true ∨ l'.Over h := fun l' hsubs => .inl (hsubs ▸ ho)
  have hclose : ∀ handle telling, (l.closeStream handle telling).subscriptions.isOpen h = true ∨
      (l.closeStream handle telling).phase? h = some .closed := by
    intro handle telling
    by_cases hh : handle = h
    · subst hh
      exact .inr (closeStream_over hv ho telling)
    · rw [hv.subscriptions_closeStream, Subscriptions.isOpen_release]
      exact .inl (by simp [hh, ho])
  have hanswer : ∀ as, (l.answerAll as).subscriptions.isOpen h = true ∨ (l.answerAll as).Over h :=
    fun as => .inl (((answerAll_unmoved as l).isOpen h).trans ho)
  have hthere : ∃ s, l.streams.get? h = some s := (hv.live h ho).imp fun _ => And.left
  cases e with
  | act a =>
    cases a with
    | «open» request token =>
      refine .inl ?_
      have hsubs := (l.open_eq request token).1
      unfold apply act
      dsimp only
      rw [hsubs, Subscriptions.isOpen_register, ho, Bool.true_or]
    | poll handle =>
      unfold apply act
      dsimp only
      rcases l.poll_subscriptions handle with hsubs | heq
      · exact hstays _ hsubs
      · rw [heq]
        exact (hclose handle true).imp_right .closed
    | closeStream handle telling => exact (hclose handle telling).imp_right .closed
    | dropStream handle telling =>
      have hdrop : (l.dropStream handle telling).phase? h =
          (l.closeStream handle telling).phase? h :=
        map_update (g := fun s => { s with receiving := false, held := false }) (fun _ => rfl) _
          handle h
      exact (hclose handle telling).imp_right fun hp => .closed (hdrop.trans hp)
    | cancel token =>
      refine hstays _ ?_
      unfold apply act
      dsimp only
      rw [cancel_frame]
    | _ => exact .inl ho
  | release handle =>
    have hne : handle ≠ h := fun heq => he (heq ▸ rfl)
    have hopen := Subscriptions.isOpen_release l.subscriptions handle h
    exact .inl (hopen.trans (by simp [hne, ho]))
  | run t =>
    unfold apply run
    dsimp only
    split
    · cases t with
      | exchange k =>
        dsimp only
        cases l.took_runExchange k with
        | opened handle u o _ _ heq =>
          rw [heq]
          exact opened_over (l := { l with calls := l.calls.run k }) ho hthere handle o
        | quiet _ hsubs _ => exact hstays _ hsubs
      | delivery d =>
        dsimp only
        refine hstays _ ?_
        rw [runDelivery_frame]
    · exact .inl ho
  | route r => exact hanswer _
  | routeBatch responses => exact hanswer _
  | reject error => exact hanswer _
  | closeSubscriptions => exact .inr (.lost rfl)
  | _ => exact .inl ho

/-- In the life `events` of a subscription, what registers its handle lasts until it is over or its
handle is released. -/
theorem Subscribing.isOpen_iff (hs : l.Subscribing h k token) (hv : l.Valid)
    (hstart : l.subscriptions.isOpen h = true ∨ l.Over h) {events : List Event}
    (hkept : .act (.drop k) ∉ events) :
    (l.after events).subscriptions.isOpen h = true ↔
      ¬(l.after events).Over h ∧ .release h ∉ events := by
  have hall : (l.after events).Valid ∧
      (.release h ∈ events → (l.after events).subscriptions.isOpen h = false) ∧
      ((l.after events).subscriptions.isOpen h = true ∨ (l.after events).Over h ∨
        .release h ∈ events) := by
    induction events using List.reverseRecOn with
    | nil => exact ⟨hv, by simp, hstart.imp_right .inl⟩
    | append_singleton events e ih =>
      rw [List.mem_append, List.mem_singleton, not_or] at hkept
      obtain ⟨hv', hreleased, hcase⟩ := ih hkept.1
      have hs' := hs.after hkept.1
      have hgone : (l.after events).subscriptions.isOpen h = false →
          ((l.after events).apply e).subscriptions.isOpen h = false := by
        intro hno
        by_contra hopen
        have hold := (onward_apply _ e).isOpen hs'.lt (by simpa using hopen)
        simp [hno] at hold
      simp only [after_concat, List.mem_append, List.mem_singleton]
      refine ⟨valid_apply hv' e, ?_, ?_⟩
      · rintro (hmem | rfl)
        · exact hgone (hreleased hmem)
        · exact (Subscriptions.isOpen_release _ _ _).trans (by simp)
      · by_cases he : .release h = e
        · exact .inr (.inr (.inr he))
        · rcases hcase with hopen | hover | hmem
          · exact (isOpen_or_over_apply hv' hopen (Ne.symm he)).imp_right .inl
          · exact .inr (.inl (hs'.over_apply hover e))
          · exact .inr (.inr (.inl hmem))
  obtain ⟨hv', hreleased, hcase⟩ := hall
  constructor
  · intro hopen
    refine ⟨fun hover => ?_, fun hmem => ?_⟩
    · simp [hv'.not_isOpen_of_over hover] at hopen
    · simp [hreleased hmem] at hopen
  · rintro ⟨hover, hmem⟩
    exact hcase.resolve_right (not_or.2 ⟨hover, hmem⟩)

/-! ### Settled links -/

theorem canRun_eq_false (hsettled : l.isSettled = true) {t : Task} (ht : t ∈ l.tasks) :
    l.canRun t = false := by
  have hnil : l.enabled = [] := by simpa [isSettled] using hsettled
  simpa using List.filter_eq_nil_iff.1 hnil t ht

/-- Once everything has settled, the stream of a cancelled subscription has learned what its opening
came to. -/
theorem Subscribing.learned (hs : l.Subscribing h k token) (hsettled : l.isSettled = true)
    (hc : l.calls.isCancelled (.stream h) = true) : l.learned? h ≠ none := by
  intro hnone
  obtain ⟨_, hr⟩ := hs.running hnone
  have hcan := hr.canRun hc
  obtain ⟨_, x, hx, _⟩ := hr
  have hmem : .exchange k ∈ l.tasks := by
    simp [tasks, (List.getElem?_eq_some_iff.1 hx).1]
  simpa [canRun, hcan] using canRun_eq_false hsettled hmem

/-- Once everything has settled, deliveries wait only for streams that receive. -/
theorem isReceiving_of_blocked (hsettled : l.isSettled = true)
    (hwaits : 0 < blockedOn l.deliveries h) : l.isReceiving h = true := by
  obtain ⟨x, hmem, hx⟩ := List.countP_pos_iff.1 hwaits
  obtain ⟨d, hd, hget⟩ := List.getElem_of_mem hmem
  have htask : .delivery d ∈ l.tasks := by simp [tasks, hd]
  have hcan := canRun_eq_false hsettled htask
  unfold canRun at hcan
  dsimp only at hcan
  rw [List.getElem?_eq_getElem hd, hget] at hcan
  have hstage : x.stage = .blocked h := by simpa using hx
  simp only [hstage, Bool.or_eq_false_iff] at hcan
  simpa using hcan.1

/-! ### The life of a subscription that is cancelled -/

theorem open_subscribing (ht : l.Tied) (request : SubscriptionRequest) (token : Token) :
    (l.open request token).Subscribing l.subscriptions.nextHandle l.calls.exchanges.length
      token := by
  have htied := ht.open request token
  obtain ⟨hsubs, hstreams⟩ := l.open_eq request token
  obtain ⟨c, hage, hcalls⟩ := open_calls ht request token
  have hget : (l.open request token).streams.get? l.subscriptions.nextHandle = some {
      parent := token
      confirmation := if l.subscriptions.closed then some (.error .transportClosed) else none } := by
    rw [hstreams, Table.get?_put, if_pos rfl]
  have hold : ∀ (j : Nat) (u : String),
      l.roles[j]? ≠ some (.opening l.subscriptions.nextHandle u) := fun j u hj =>
    Nat.lt_irrefl _ (ht.subscribeLt j _ u hj)
  refine ⟨htied, ?_, by rw [parent?, hget]; rfl, ?_, ?_, ?_⟩
  · rw [hsubs, Subscriptions.nextHandle_register]
    exact Nat.lt_succ_self _
  · intro j u hj
    rcases hcalls with ⟨_, _, hroles⟩ | ⟨_, _, hroles⟩
    · exact absurd (hroles ▸ hj) (hold j u)
    · rw [hroles, getElem?_concat, ht.length] at hj
      split at hj
      · next hk => exact hk
      · exact absurd hj (hold j u)
  · intro hnone
    rcases hcalls with ⟨hclosed, _, _⟩ | ⟨_, hc, hroles⟩
    · simp [learned?, hget, hclosed] at hnone
    · refine ⟨⟨request.names.unsubscribe, ?_⟩, htied.calls, ?_⟩
      · simp [hroles, ht.length]
      · rw [hc, Calls.make, getElem?_concat, if_pos hage.length.symm]
        exact ⟨_, rfl, rfl, rfl⟩
  · intro hsome u x hrole _
    rcases hcalls with ⟨_, _, hroles⟩ | ⟨hopen, _, _⟩
    · exact absurd (hroles ▸ hrole) (hold _ u)
    · simp [learned?, hget, hopen] at hsome

theorem isOpen_or_over_open (l : Link) (request : SubscriptionRequest) (token : Token) :
    (l.open request token).subscriptions.isOpen l.subscriptions.nextHandle = true ∨
      (l.open request token).Over l.subscriptions.nextHandle := by
  have hsubs := (l.open_eq request token).1
  cases hc : l.subscriptions.closed with
  | true =>
    refine .inr (.lost ?_)
    rw [hsubs, Subscriptions.closed_register, hc]
  | false =>
    refine .inl ?_
    rw [hsubs, Subscriptions.isOpen_register]
    simp [hc]

/-- A subscription that is opened with a cancelled token is cancelled. -/
theorem isCancelled_open {request : SubscriptionRequest} {token : Token}
    (hc : l.calls.isCancelled token = true) :
    (l.open request token).calls.isCancelled (.stream l.subscriptions.nextHandle) = true := by
  have hcancel : (l.calls.cancel (.stream l.subscriptions.nextHandle)).isCancelled
      (.stream l.subscriptions.nextHandle) = true := by
    simp [Calls.cancel, Calls.isCancelled]
  unfold «open»
  dsimp only
  rw [if_pos hc]
  split <;> exact hcancel

/-- A stream whose token is cancelled at any time of its life is cancelled from then on. -/
theorem Subscribing.isCancelled_after (hs : l.Subscribing h k token) {events : List Event}
    (hc : .act (.cancel token) ∈ events) :
    (l.after events).calls.isCancelled (.stream h) = true := by
  obtain ⟨before, later, rfl⟩ := List.append_of_mem hc
  have hparent := (parent_after hs.lt before).trans hs.parent
  obtain ⟨s, hget, rfl⟩ := Option.map_eq_some_iff.1 hparent
  rw [← List.singleton_append, ← List.append_assoc, after_append, after_concat]
  exact stable_after (Calls.cancelled_stable _) (isCancelled_cancel_parent hget) later

/-- The subscription `h` takes up room: it is registered, something is routed to it, or a delivery
waits for it. -/
def Holds (l : Link) (h : Nat) : Prop :=
  l.subscriptions.isOpen h = true ∨ (∃ id, l.subscriptions.routes.get? id = some h) ∨
    0 < blockedOn l.deliveries h

/-- Once the token of a subscription is cancelled and everything has settled, the subscription takes
up room exactly if it was confirmed, has not ended on this side since and was not released, or a
delivery waits for it that its stream could still receive. Its subscribe call runs by itself, so no
caller gives that up. -/
theorem holds_iff_of_cancelled (buffer : Nat) (policy : Backpressure) (past : List Event)
    (request : SubscriptionRequest) (token : Token) (later : List Event) :
    let link := (ofOptions buffer policy).after past
    let h := link.subscriptions.nextHandle
    let l := (link.open request token).after later
    (link.calls.isCancelled token = true ∨ .act (.cancel token) ∈ later) →
    .act (.drop link.calls.exchanges.length) ∉ later → l.isSettled = true →
    (l.Holds h ↔
      (l.subscriptions.closed = false ∧ l.phase? h ≠ some .closed ∧
        (∃ id, l.learned? h = some (.ok id)) ∧ .release h ∉ later) ∨
      (l.isReceiving h = true ∧ 0 < blockedOn l.deliveries h)) := by
  intro link h l hcancelled hkept hsettled
  have hs := open_subscribing (tied_after buffer policy past) request token
  have hs' : l.Subscribing h link.calls.exchanges.length token := hs.after hkept
  have hopen : l.subscriptions.isOpen h = true ↔ ¬l.Over h ∧ .release h ∉ later :=
    hs.isOpen_iff ((valid_after buffer policy past).open request token)
      (link.isOpen_or_over_open request token) hkept
  have hc : l.calls.isCancelled (.stream h) = true := by
    rcases hcancelled with hbefore | hmem
    · exact stable_after (Calls.cancelled_stable _) (isCancelled_open hbefore) later
    · exact hs.isCancelled_after hmem
  have hover : ¬l.Over h ↔ l.subscriptions.closed = false ∧ l.phase? h ≠ some .closed ∧
      ∃ id, l.learned? h = some (.ok id) := by
    constructor
    · intro hnot
      refine ⟨?_, fun hp => hnot (.closed hp), ?_⟩
      · simpa using fun hlost => hnot (.lost hlost)
      · obtain ⟨result, hlearned⟩ := Option.ne_none_iff_exists'.1 (hs'.learned hsettled hc)
        cases result with
        | ok id => exact ⟨id, hlearned⟩
        | error cause => exact absurd (.failed hlearned) hnot
    · rintro ⟨hopen, hphase, id, hok⟩ hover
      cases hover with
      | lost hlost => simp [hopen] at hlost
      | closed hp => exact hphase hp
      | failed hfailed => simp [hok] at hfailed
  have hroute : (∃ id, l.subscriptions.routes.get? id = some h) →
      l.subscriptions.isOpen h = true := by
    rintro ⟨id, hroute⟩
    exact Subscriptions.isOpen_of_serverId? (hs'.tied.routed id h hroute)
  unfold Holds
  rw [hover, and_assoc, and_assoc] at hopen
  constructor
  · rintro (ho | hr | hw)
    · exact .inl (hopen.1 ho)
    · exact .inl (hopen.1 (hroute hr))
    · exact .inr ⟨isReceiving_of_blocked hsettled hw, hw⟩
  · rintro (ho | ⟨_, hw⟩)
    · exact .inl (hopen.2 ho)
    · exact .inr (.inr hw)

/-- What is opened in these examples. -/
def slots : SubscriptionRequest :=
  ⟨⟨"slotSubscribe", "slotUnsubscribe", "slotNotification"⟩, .arr []⟩

/-- A subscription is confirmed, of two notifications the second finds its buffer full, and then its
token is cancelled. -/
def cancelledInFlow : List Event :=
  [.run (.exchange 0), .route ⟨1, .ok (.int 7)⟩, .run (.exchange 0),
    .dispatch ⟨"slotNotification", .number 7, .int 5⟩, .run (.delivery 0),
    .dispatch ⟨"slotNotification", .number 7, .int 6⟩, .run (.delivery 1),
    .act (.cancel (.caller 0))]

/-- Polled once more, it lets go of everything: the delivery ends, and the node is told. -/
theorem holds_nothing_once_polled :
    let link := (ofOptions 1 .pauseReads).open slots (.caller 0)
    let later := cancelledInFlow ++ [.act (.poll 1), .run (.exchange 1), .run (.delivery 1)]
    (.act (.cancel (.caller 0)) ∈ later ∧ .act (.drop 0) ∉ later ∧
      (link.after later).isSettled = true) ∧ ¬(link.after later).Holds 1 := by
  intro link later
  have h := holds_iff_of_cancelled 1 .pauseReads [] slots (.caller 0) later
  have hcancelled : .act (.cancel (.caller 0)) ∈ later := by decide
  have hkept : .act (.drop 0) ∉ later := by decide
  have hsettled : (link.after later).isSettled = true := by decide
  refine ⟨⟨hcancelled, hkept, hsettled⟩, fun hholds => ?_⟩
  rcases (h (.inr hcancelled) hkept hsettled).1 hholds with ⟨_, hphase, _⟩ | ⟨hreceiving, _⟩
  · exact hphase (by decide)
  · exact absurd hreceiving (by decide)

/-- Not polled, it keeps its entry, its route and the delivery that waits for it. -/
theorem held_after_cancellation :
    ¬ ∀ (buffer : Nat) (policy : Backpressure) (past : List Event) (request : SubscriptionRequest)
      (token : Token) (later : List Event),
      let link := (ofOptions buffer policy).after past
      let h := link.subscriptions.nextHandle
      let l := (link.open request token).after later
      (link.calls.isCancelled token = true ∨ .act (.cancel token) ∈ later) →
      .act (.drop link.calls.exchanges.length) ∉ later → l.isSettled = true → ¬l.Holds h := by
  intro h
  exact h 1 .pauseReads [] slots (.caller 0) cancelledInFlow (.inr (by decide)) (by decide)
    (by decide) (.inl (by decide))

end Link

end NodeRpc
