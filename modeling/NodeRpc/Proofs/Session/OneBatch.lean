import NodeRpc.Proofs.Calls.OneBatch
import NodeRpc.Proofs.Calls.Withdrawal
import NodeRpc.Proofs.Session.Settling

/-!
# A session for one batch

A session is made, one batch is asked on it, and one array arrives. If the frame of the batch is
written well and the array has a response to one of the calls, then what the batch returns is told
by the array alone, whenever its frame has been written, the array is read and the turns are taken.
-/

namespace NodeRpc

theorem Link.run_exchange_of_plain {l : Link} (h : l.roles = [.plain]) (k : Nat) :
    l.run (.exchange k) = { l with calls := l.calls.run k } := by
  have hrole : ∀ l' : Link, l'.roles = [.plain] → l'.roleAt k = .plain := by
    intro l' h'
    unfold roleAt
    rw [h']
    cases k <;> simp
  have hcan : l.canRun (.exchange k) = l.calls.canRun k := by
    simp [canRun, isOverdue, hrole l h]
  unfold run
  rw [hcan]
  split
  · have hset : l.setDeadline k = l := by
      unfold setDeadline
      rw [hrole l h]
    unfold runExchange
    dsimp only
    rw [hset]
    unfold afterTurn
    rw [hrole { l with calls := l.calls.run k } h]
  · next hrun => rw [Calls.run_of_not_canRun (by simpa using hrun)]

namespace Calls

/-- The batch has been asked, and nothing has answered it. -/
def Asked (calls : List Call) (token : Token) (c : Calls) : Prop :=
  Unsent calls token c ∨ ∃ x, Sent calls none c x

theorem Asked.quiet {calls : List Call} {token : Token} (hne : calls ≠ []) {c : Calls} {e : Event}
    (h : Asked calls token c) (he : e.isQuiet = true) : Asked calls token (c.apply e) := by
  rcases h with h | ⟨x, h⟩
  · by_cases hrun : e = .run 0
    · rw [hrun]
      exact .inr (h.run hne)
    · exact .inl (h.quiet he hrun)
  · exact .inr (h.quiet hne he)

theorem Asked.run {calls : List Call} {token : Token} (hne : calls ≠ []) {c : Calls}
    (h : Asked calls token c) : ∃ x, Sent calls none (c.run 0) x := by
  rcases h with h | ⟨x, h⟩
  · exact h.run hne
  · exact h.quiet (e := .run 0) hne rfl

end Calls

namespace Session

variable {calls : List Call} {token : Token} {s : Session} {P : Calls → Prop}
  {arrived : List Arrival}

/-- Events by which nothing is asked, nothing arrives, no write fails, and nothing ends or is given
up. -/
def Event.isQuiet : Event → Bool
  | .run _ | .readOn | .act (.advance _) | .resume _ (.ok _) | .sink .accepts | .sink .stalls => true
  | _ => false

/-- A session that lives and was asked for one thing by its owner; it has still to read `arrived`,
and `P` holds of its calls. -/
structure Hosts (P : Calls → Prop) (arrived : List Arrival) (s : Session) : Prop where
  reader : s.reader = .reading
  owned : s.owned = true
  closing : s.closing = false
  ended : s.ended = false
  roles : s.link.roles = [.plain]
  arrived : s.arrived = arrived
  calls : P s.link.calls

theorem Hosts.isClosing (h : Hosts P arrived s) : s.isClosing = false := by
  simp [Session.isClosing, h.closing, h.owned]

/-- The reader takes what has arrived in each of its turns. -/
theorem Hosts.takes (h : Hosts P arrived s) {e : Event} (he : e.isRead = true) :
    s.takes e = true := by
  unfold Event.isRead at he
  split at he
  · simp [Session.takes, h.reader, h.isClosing]
  · simp [Session.takes, h.reader]
  · simp at he

/-- A reader that finds nothing does nothing. -/
theorem Hosts.readOn (h : Hosts P [] s) : s.readOn = s := by
  unfold Session.readOn
  rw [h.reader, h.arrived, h.ended]
  rfl

theorem Hosts.run {Q : Calls → Prop} (h : Hosts P arrived s) {k : Nat}
    (hQ : Q (s.link.calls.run k)) : Hosts Q arrived (s.apply (.run (.exchange k))) := by
  have hrun : s.apply (.run (.exchange k)) =
      s.onLink fun l => { l with calls := l.calls.run k } :=
    congrArg (fun link => { s with link }) (Link.run_exchange_of_plain h.roles k)
  rw [hrun]
  exact { h with calls := hQ }

/-- What quiet events of the calls keep is kept by quiet events of the session, as long as the
reader finds nothing. -/
theorem Hosts.quiet (hP : ∀ c e, P c → Calls.Event.isQuiet e = true → P (c.apply e))
    (h : Hosts P arrived s) {e : Event} (he : e.isQuiet = true)
    (hread : e.isRead = true → arrived = []) : Hosts P arrived (s.apply e) := by
  cases e with
  | act a =>
    cases a with
    | advance ms => exact { h with }
    | _ => simp [Event.isQuiet] at he
  | sink sink =>
    have hsink : s.apply (.sink sink) = s.onLink (·.apply (.sink sink)) := by
      simp [apply, h.closing]
    rw [hsink]
    cases sink with
    | refuses cause => simp [Event.isQuiet] at he
    | accepts => exact { h with calls := hP _ (.sink .accepts) h.calls rfl }
    | stalls => exact { h with calls := hP _ (.sink .stalls) h.calls rfl }
  | resume k reply =>
    cases reply with
    | error cause => simp [Event.isQuiet] at he
    | ok u => exact { h with calls := hP _ (.resume k (.ok u)) h.calls rfl }
  | run t =>
    cases t with
    | exchange k => exact h.run (hP _ (.run k) h.calls rfl)
    | reader =>
      obtain rfl := hread rfl
      have hidle : s.apply (.run .reader) = s := by
        unfold apply Session.run read
        simp [h.isClosing, h.readOn]
      rw [hidle]
      exact h
  | readOn =>
    obtain rfl := hread rfl
    have hidle : s.apply .readOn = s := h.readOn
    rw [hidle]
    exact h
  | _ => simp [Event.isQuiet] at he

theorem Hosts.quiet_after (hP : ∀ c e, P c → Calls.Event.isQuiet e = true → P (c.apply e))
    (h : Hosts P [] s) (events : List Event) (hquiet : ∀ e ∈ events, e.isQuiet = true) :
    Hosts P [] (s.after events) := by
  induction events using List.reverseRecOn with
  | nil => exact h
  | append_singleton events e ih =>
    rw [after_concat]
    exact (ih fun e' he' => hquiet e' (by simp [he'])).quiet hP (hquiet e (by simp)) fun _ => rfl

/-- Once the batch has had a turn it is sent, and nothing has answered it. -/
theorem hosts_sent (buffer : Nat) (policy : Backpressure) (token : Token) (hne : calls ≠ [])
    {sending : List Event} (hquiet : ∀ e ∈ sending, e.isQuiet = true)
    (hsent : .run (.exchange 0) ∈ sending) :
    Hosts (fun c => ∃ x, Calls.Sent calls none c x) []
      ((start buffer policy).after (.act (.batch calls token) :: sending)) := by
  obtain ⟨pre, post, rfl⟩ := List.append_of_mem hsent
  have hmade : Hosts (Calls.Asked calls token) []
      ((start buffer policy).apply (.act (.batch calls token))) :=
    ⟨rfl, rfl, rfl, rfl, rfl, rfl, .inl ⟨.accepts, by simp, rfl⟩⟩
  have hpre := hmade.quiet_after (fun _ _ h he => h.quiet hne he) pre
    fun e he => hquiet e (by simp [he])
  have hturn : Hosts (fun c => ∃ x, Calls.Sent calls none c x) [] _ :=
    hpre.run (k := 0) (hpre.calls.run hne)
  have hpost := hturn.quiet_after (fun _ _ h he => h.choose_spec.quiet hne he) post
    fun e he => hquiet e (by simp [he])
  simpa [after] using hpost

/-- The array waits to be read, or it has been read and has answered the batch. -/
def Heard (calls : List Call) (text : String) (responses : List Response) (s : Session) : Prop :=
  Hosts (fun c => ∃ x, Calls.Sent calls none c x) [.text text] s ∨
    Hosts (fun c => ∃ x, Calls.Sent calls (some (Calls.entryOutcome responses)) c x) [] s

variable {text : String} {entries : List Json}

/-- The reader hands the array to the batch that waits for it. -/
theorem Hosts.hears (h : Hosts (fun c => ∃ x, Calls.Sent calls none c x) [.text text] s)
    (hparse : Json.parse text = some (.arr entries))
    (hany : ∃ r ∈ entries.filterMap Incoming.response?, r.id ∈ List.range' 1 calls.length)
    {e : Event} (he : e.isRead = true) :
    Hosts (fun c => ∃ x, Calls.Sent calls
      (some (Calls.entryOutcome (entries.filterMap Incoming.response?))) c x) []
      (s.apply e) := by
  obtain ⟨x, hsent⟩ := h.calls
  obtain ⟨r, hr, hid⟩ := hany
  have hplain : ∀ p ∈ s.link.calls.pending, s.link.roles[p.2.exchange]? = some .plain := by
    intro p hp
    rw [hsent.pending] at hp
    obtain ⟨i, _, rfl⟩ := List.mem_map.1 hp
    rw [h.roles]
    rfl
  have hread : s.apply e = ({ s with arrived := [] } : Session).onLink fun l =>
      { l with calls := l.calls.routeBatch (entries.filterMap Incoming.response?) } := by
    rw [apply_reads_array (h.takes he) h.arrived hparse]
    exact congrArg (fun link => { s with arrived := [], link }) (Link.answerAll_of_plain _ hplain)
  rw [hread]
  exact { h with
    arrived := rfl
    calls := hsent.answered ⟨r, hr, (hsent.has_iff r.id).2 hid⟩ }

theorem Heard.quiet (hne : calls ≠ []) (hparse : Json.parse text = some (.arr entries))
    (hany : ∃ r ∈ entries.filterMap Incoming.response?, r.id ∈ List.range' 1 calls.length)
    (h : Heard calls text (entries.filterMap Incoming.response?) s) {e : Event}
    (he : e.isQuiet = true) :
    Heard calls text (entries.filterMap Incoming.response?) (s.apply e) := by
  rcases h with h | h
  · by_cases hread : e.isRead = true
    · exact .inr (h.hears hparse hany hread)
    · exact .inl (h.quiet (fun _ _ h he => h.choose_spec.quiet hne he) he fun hr => absurd hr hread)
  · exact .inr (h.quiet (fun _ _ h he => h.choose_spec.quiet hne he) he fun _ => rfl)

/-- What the batch returns is what the array says; and it returns, if no task can go on and its
frame is written. -/
theorem Heard.returns (hne : calls ≠ []) {responses : List Response}
    (h : Heard calls text responses s) :
    ∃ x, s.link.calls.exchanges = [x] ∧
      (∀ answer, x.result? = some answer →
        answer = .ok ((List.range' 1 calls.length).map (Calls.entryOutcome responses))) ∧
      (s.isSettled = true → x.stage ≠ .writing none → x.result?.isSome = true) := by
  rcases h with h | h
  · obtain ⟨x, hsent⟩ := h.calls
    refine ⟨x, hsent.exchanges, fun answer hresult => ?_, fun hsettled => ?_⟩
    · obtain ⟨f, hf, _⟩ := hsent.of_result? hresult
      simp at hf
    · have hread : s.canRead = true := by simp [canRead, h.reader, h.arrived]
      simp [isSettled, enabled, hread] at hsettled
  · obtain ⟨x, hsent⟩ := h.calls
    refine ⟨x, hsent.exchanges, fun answer hresult => ?_, fun hsettled hwritten => ?_⟩
    · obtain ⟨f, hf, hanswer⟩ := hsent.of_result? hresult
      rw [hanswer, Option.some.inj hf]
    · have hrest : s.link.calls.canRun 0 = false := by
        simp [isSettled, enabled, hsent.exchanges, Link.canRun] at hsettled
        exact hsettled.2.1
      rw [Exchange.result?, hsent.finished hne hrest hwritten]
      rfl

/-- In a session that is asked for one batch and gets one array, the array waits to be read or has
answered the batch. -/
theorem heard_after (buffer : Nat) (policy : Backpressure) (token : Token) (hne : calls ≠ [])
    {sending later : List Event} (hquiet : ∀ e ∈ sending ++ later, e.isQuiet = true)
    (hsent : .run (.exchange 0) ∈ sending) (hparse : Json.parse text = some (.arr entries))
    (hany : ∃ r ∈ entries.filterMap Incoming.response?, r.id ∈ List.range' 1 calls.length) :
    Heard calls text (entries.filterMap Incoming.response?) ((start buffer policy).after
      (.act (.batch calls token) :: sending ++ .arrive (.text text) :: later)) := by
  have hwaits := hosts_sent buffer policy token hne (fun e he => hquiet e (by simp [he])) hsent
  have hsplit : (start buffer policy).after
      (.act (.batch calls token) :: sending ++ .arrive (.text text) :: later) =
      (((start buffer policy).after (.act (.batch calls token) :: sending)).apply
        (.arrive (.text text))).after later := by
    simp [after]
  have hlater : ∀ e ∈ later, e.isQuiet = true := fun e he => hquiet e (by simp [he])
  rw [hsplit]
  clear hsplit hquiet
  generalize (start buffer policy).after (.act (.batch calls token) :: sending) = s at hwaits
  induction later using List.reverseRecOn with
  | nil =>
    have harrive : s.apply (.arrive (.text text)) = { s with arrived := [.text text] } := by
      simp [apply, arrive, hwaits.ended, hwaits.arrived]
    refine .inl ?_
    rw [after, List.foldl_nil, harrive]
    exact { hwaits with arrived := rfl }
  | append_singleton later e ih =>
    rw [after_concat]
    exact (ih fun e' he' => hlater e' (by simp [he'])).quiet hne hparse hany (hlater e (by simp))

end Session

end NodeRpc
