import NodeRpc.Json.Printer
import NodeRpc.Proofs.Calls.Settling
import NodeRpc.Proofs.Session.Stopped

/-!
# What an array does to the batch that waits for it

Entries of an array that are no responses are left out as the array is read, and only what is left
can tell which batch the array is for. So where a batch is all that a session waits for, an array
settles it if one of its entries is a response to one of the calls, however bad the other ones are;
and an array without such an entry is lost, although its entries may carry the ids of the batch.
-/

namespace NodeRpc

/-- Of an array, the entries that are responses are read. -/
theorem Incoming.parse_of_arr {text : String} {entries : List Json}
    (h : Json.parse text = some (.arr entries)) :
    parse text = .ok (.batch (entries.filterMap response?)) := by
  unfold parse
  rw [h]
  rfl

namespace Link

variable {l : Link}

theorem roleOf_of_plain (h : ∀ p ∈ l.calls.pending, l.roles[p.2.exchange]? = some .plain) (i : Nat) :
    l.roleOf i = .plain := by
  unfold roleOf
  cases hp : l.calls.pending.get? i with
  | none => rfl
  | some entry => simp [h (i, entry) (Table.mem_of_get? hp)]

/-- Where no call opens a subscription, answers concern the calls alone. -/
theorem answerAll_of_plain (as : List (Nat × Outcome))
    (h : ∀ p ∈ l.calls.pending, l.roles[p.2.exchange]? = some .plain) :
    l.answerAll as = { l with calls := l.calls.answerAll as } := by
  induction as generalizing l with
  | nil => rfl
  | cons a as ih =>
    have hanswer : l.answer a.1 a.2 = { l with calls := l.calls.answer a.1 a.2 } := by
      unfold answer
      rw [roleOf_of_plain h]
    have hpending : ∀ p ∈ (l.calls.answer a.1 a.2).pending, p ∈ l.calls.pending := by
      unfold Calls.answer
      cases l.calls.pending.get? a.1 with
      | none => exact fun p hp => hp
      | some entry => exact fun p hp => (List.mem_filter.1 hp).1
    have hstep : l.answerAll (a :: as) = (l.answer a.1 a.2).answerAll as := rfl
    have htail := ih (l := { l with calls := l.calls.answer a.1 a.2 })
      fun p hp => h p (hpending p hp)
    rw [hstep, hanswer, htail]
    rfl

end Link

theorem Calls.batches_stable : Stable fun c => c.Valid ∧ c.Batches where
  apply _ e h := ⟨valid_apply h.1 e, h.2.apply h.1 e⟩
  answer _ i o h := ⟨h.1.answer i o, h.2.answer i o⟩

namespace Session

variable {s : Session}

/-- A reader that takes an array hands on the responses that are in it. -/
theorem apply_reads_array {e : Event} (htakes : s.takes e = true) {text : String}
    {rest : List Arrival} (harrived : s.arrived = .text text :: rest) {entries : List Json}
    (hparse : Json.parse text = some (.arr entries)) :
    s.apply e = ({ s with arrived := rest } : Session).onLink
      (·.routeBatch (entries.filterMap Incoming.response?)) := by
  rw [(apply_of_takes htakes harrived).2]
  unfold handle
  dsimp only
  rw [Incoming.parse_of_arr hparse]

/-- A session waits for exchange `k` alone, which is a batch of a caller. -/
structure Awaits (s : Session) (k : Nat) (x : Exchange) : Prop where
  exchange : s.link.calls.exchanges[k]? = some x
  batched : x.batched = true
  plain : s.link.roles[k]? = some .plain
  alone : ∀ p ∈ s.link.calls.pending, p.2.exchange = k

/-- The calls of a session after an array has been read are those after its responses have been
routed. -/
theorem Awaits.calls_read {k : Nat} {x : Exchange} (hw : s.Awaits k x) (hreads : s.reader = .reading)
    (hopen : s.isClosing = false) {text : String} {rest : List Arrival}
    (harrived : s.arrived = .text text :: rest) {entries : List Json}
    (hparse : Json.parse text = some (.arr entries)) :
    (s.apply (.run .reader)).link.calls =
      s.link.calls.routeBatch (entries.filterMap Incoming.response?) := by
  have hplain : ∀ p ∈ s.link.calls.pending, s.link.roles[p.2.exchange]? = some .plain :=
    fun p hp => by rw [hw.alone p hp, hw.plain]
  rw [apply_reads_array (by simp [takes, hreads, hopen]) harrived hparse]
  exact congrArg Link.calls (Link.answerAll_of_plain _ hplain)

/-- An array settles a batch that a session waits for alone if and only if one of its entries is a
response to one of the pending calls. Then every pending call has the first response to it, or an
error that there is none; otherwise nothing happens to the calls. -/
theorem settles_iff (buffer : Nat) (policy : Backpressure) (events : List Event) {k : Nat}
    {x : Exchange} {text : String} {rest : List Arrival} {entries : List Json}
    (hw : ((start buffer policy).after events).Awaits k x)
    (hreads : ((start buffer policy).after events).reader = .reading)
    (hopen : ((start buffer policy).after events).isClosing = false)
    (harrived : ((start buffer policy).after events).arrived = .text text :: rest)
    (hparse : Json.parse text = some (.arr entries)) :
    let before := ((start buffer policy).after events).link.calls
    let after := ((start buffer policy).after (events ++ [.run .reader])).link.calls
    let responses := entries.filterMap Incoming.response?
    (after.pending = [] ↔ before.pending = [] ∨ ∃ r ∈ responses, before.pending.has r.id = true) ∧
      ((∃ r ∈ responses, before.pending.has r.id = true) →
        ∃ x', after.exchanges[k]? = some x' ∧ x.Answered x' ∧ ∀ i, x'.answers.get? i =
          if before.pending.has i = true then some (Calls.entryOutcome responses i)
          else x.answers.get? i) ∧
      ((¬∃ r ∈ responses, before.pending.has r.id = true) → after = before) := by
  dsimp only
  rw [after_concat, hw.calls_read hreads hopen harrived hparse]
  obtain ⟨es, hlink, _, _⟩ := amounts_after (start buffer policy) events
  obtain ⟨hv, hb⟩ := Link.stable_after (l := (start buffer policy).link) Calls.batches_stable
    ⟨Calls.valid_empty, Calls.batches_empty⟩ es
  have hkept := Link.stable_after (l := (start buffer policy).link) Calls.kept_stable
    Calls.kept_empty es
  rw [← hlink] at hv hb hkept
  obtain ⟨b, hsole⟩ := hb.sole hv hw.exchange hw.batched hw.alone
  generalize (start buffer policy).after events = s at *
  generalize entries.filterMap Incoming.response? = responses
  have hlive : s.link.calls.Answered responses → s.link.calls.closed = false := by
    rintro ⟨r, _, hr⟩
    by_contra hclosed
    simp [Table.has, hkept.shut (by simpa using hclosed)] at hr
  have hdone : ¬s.link.calls.Answered responses →
      s.link.calls.routeBatch responses = s.link.calls := Calls.routeBatch_of_not_answered
  refine ⟨⟨fun hnil => ?_, ?_⟩, fun ha => ?_, hdone⟩
  · by_contra hnot
    rw [not_or] at hnot
    exact hnot.1 (by rw [← hnil, hdone hnot.2])
  · rintro (hnil | ha)
    · have hnot : ¬s.link.calls.Answered responses := by
        rintro ⟨r, _, hr⟩
        simp [hnil, Table.has, Table.get?] at hr
      rw [hdone hnot, hnil]
    · exact hsole.pending_routeBatch hv.keysNodup (hlive ha) ha
  · obtain ⟨x', hx', hsame, hans⟩ := hsole.answers_routeBatch hv.keysNodup (hlive ha) ha hw.exchange
    refine ⟨x', hx', hsame, fun i => ?_⟩
    rw [hans i]
    cases hp : s.link.calls.pending.get? i with
    | none => simp [Table.has, hp]
    | some entry =>
      have hk : entry.exchange = k := hw.alone (i, entry) (Table.mem_of_get? hp)
      simp [Table.has, hp, hk]

/-- A batch of two calls has been sent, and an array arrives. -/
def twoAsked (array : Json) : List Event :=
  let slot : Call := ⟨"getSlot", .arr []⟩
  [.act (.batch [slot, slot] (.caller 0)), .run (.exchange 0), .arrive (.text array.compact)]

/-- The batch of `twoAsked`. -/
def twoCalls : Exchange where
  calls := [⟨"getSlot", .arr []⟩, ⟨"getSlot", .arr []⟩]
  batched := true
  token := .caller 0
  ids := [1, 2]
  stage := .waiting

/-- A response to the second call, and an entry that has the id of the first one but is no
response. -/
def oneGood : List Json :=
  [.obj [("id", .int 1), ("error", .str "busy")], .obj [("id", .int 2), ("result", .int 7)]]

/-- The second call gets its response, and the first one an error that there is none. -/
theorem settles_iff_beside_bad_entry :
    let after := ((start 1 .pauseReads).after (twoAsked (.arr oneGood) ++ [.run .reader])).link.calls
    after.pending = [] ∧ ∃ x', after.exchanges[0]? = some x' ∧
      x'.answers.get? 1 = some (.error (.malformed (.missingFromBatch 1))) ∧
      x'.answers.get? 2 = some (.ok (.int 7)) := by
  have hw : ((start 1 .pauseReads).after (twoAsked (.arr oneGood))).Awaits 0 twoCalls :=
    ⟨by decide +kernel, rfl, by decide +kernel, by decide +kernel⟩
  have hany : ∃ r ∈ oneGood.filterMap Incoming.response?,
      ((start 1 .pauseReads).after (twoAsked (.arr oneGood))).link.calls.pending.has r.id = true :=
    ⟨⟨2, .ok (.int 7)⟩, by decide +kernel, by decide +kernel⟩
  have harrived : ((start 1 .pauseReads).after (twoAsked (.arr oneGood))).arrived =
      [.text (Json.arr oneGood).compact] := by decide +kernel
  have hparse : Json.parse (Json.arr oneGood).compact = some (.arr oneGood) := by decide +kernel
  obtain ⟨hiff, hans, _⟩ := settles_iff 1 .pauseReads (twoAsked (.arr oneGood)) hw
    (by decide +kernel) (by decide +kernel) harrived hparse
  obtain ⟨x', hx', _, hget⟩ := hans hany
  refine ⟨hiff.2 (.inr hany), x', hx', ?_, ?_⟩
  · rw [hget 1]
    decide +kernel
  · rw [hget 2]
    decide +kernel

/-- The ids of the batch, and no response. -/
def noneGood : List Json :=
  [.obj [("id", .int 1), ("error", .str "busy")], .obj [("id", .int 2)]]

/-- An array whose entries all have ids of the batch, but are no responses, leaves the batch
waiting. -/
theorem batch_left_waiting :
    ¬ ∀ (buffer : Nat) (policy : Backpressure) (events : List Event) (k : Nat) (x : Exchange)
      (text : String) (rest : List Arrival) (entries : List Json),
      ((start buffer policy).after events).Awaits k x →
      ((start buffer policy).after events).reader = .reading →
      ((start buffer policy).after events).isClosing = false →
      ((start buffer policy).after events).arrived = .text text :: rest →
      Json.parse text = some (.arr entries) → entries ≠ [] →
      (∀ e ∈ entries, ∀ n, (e.get? "id").bind Json.nat? = some n → n ∈ x.ids) →
      ((start buffer policy).after (events ++ [.run .reader])).link.calls.pending = [] := by
  intro h
  have hnil := h 1 .pauseReads (twoAsked (.arr noneGood)) 0 twoCalls (Json.arr noneGood).compact []
    noneGood ⟨by decide +kernel, rfl, by decide +kernel, by decide +kernel⟩ (by decide +kernel)
    (by decide +kernel) (by decide +kernel) (by decide +kernel) (by simp [noneGood]) ?_
  · have hkeys : ((start 1 .pauseReads).after
        (twoAsked (.arr noneGood) ++ [.run .reader])).link.calls.pending.keys = [1, 2] := by
      decide +kernel
    simp [hnil] at hkeys
  · intro e he n hn
    simp only [noneGood, List.mem_cons, List.not_mem_nil, or_false] at he
    rcases he with rfl | rfl
    · obtain rfl : 1 = n := by simpa [Json.get?, Json.fields, Table.get?, Json.nat?] using hn
      simp [twoCalls]
    · obtain rfl : 2 = n := by simpa [Json.get?, Json.fields, Table.get?, Json.nat?] using hn
      simp [twoCalls]

end Session

end NodeRpc
