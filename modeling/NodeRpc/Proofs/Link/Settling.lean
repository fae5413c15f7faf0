import NodeRpc.Proofs.Calls.Settling
import NodeRpc.Proofs.Link.Exchanges

/-!
# What a batch of responses does at a link

One frame may carry responses to calls of several batches, to single calls, to calls that nobody
made, and several to one call. Which pending calls it takes out of the table is said by
`Calls.settles`, and what each of them comes to by `Calls.entryOutcome`, without going through the
responses one by one: the first response to a call counts, and a call whose batch is answered
without it gets an error. A subscribe call may be among them; its caller is told what becomes of the
response when the subscription has been confirmed, or has been found closed.
-/

namespace NodeRpc

namespace Calls

theorem responseTo?_eq_some_iff {responses : List Response}
    (hd : (responses.map Response.id).Nodup) (i : Nat) (r : Response) :
    responseTo? responses i = some r ↔ r ∈ responses ∧ r.id = i := by
  have hsound : ∀ r', responseTo? responses i = some r' → r' ∈ responses ∧ r'.id = i :=
    fun r' h => ⟨List.mem_of_find?_eq_some h, by simpa using List.find?_some h⟩
  refine ⟨hsound r, ?_⟩
  rintro ⟨hr, rfl⟩
  cases hfound : responseTo? responses r.id with
  | none => simpa using List.find?_eq_none.1 hfound r hr
  | some r' =>
    obtain ⟨hr', hid⟩ := hsound r' hfound
    rw [List.inj_on_of_nodup_map hd hr' hr hid]

/-- Where no id comes twice, the order of responses does not matter. -/
theorem responseTo?_of_perm {responses others : List Response}
    (hd : (responses.map Response.id).Nodup) (hperm : responses.Perm others) :
    responseTo? others = responseTo? responses := by
  have hd' : (others.map Response.id).Nodup := (hperm.map _).nodup_iff.1 hd
  funext i
  refine Option.ext fun r => ?_
  rw [responseTo?_eq_some_iff hd', responseTo?_eq_some_iff hd, hperm.mem_iff]

end Calls

namespace Link

variable {l : Link}

/-- What the caller of a pending call is told when an outcome is routed to it. For a subscribe call
that is what `confirmed` makes of the outcome. -/
def told (l : Link) (id : Nat) (outcome : Outcome) : Outcome :=
  match l.roleOf id with
  | .opening handle unsubscribe => (l.confirmed handle unsubscribe outcome).1
  | _ => outcome

/-! ### What is decided by the calls and the open handles -/

/-- What answers leave alone: of the calls all but the table and the exchanges, which of them
subscribe, and which handles are open. -/
structure Unmoved (l l' : Link) : Prop where
  rest : l'.calls =
    { l.calls with pending := l'.calls.pending, exchanges := l'.calls.exchanges }
  opening : ∀ (k h : Nat) (u : String),
    l'.roles[k]? = some (.opening h u) ↔ l.roles[k]? = some (.opening h u)
  isOpen : ∀ h, l'.subscriptions.isOpen h = l.subscriptions.isOpen h

theorem Unmoved.refl (l : Link) : l.Unmoved l := ⟨rfl, fun _ _ _ => .rfl, fun _ => rfl⟩

theorem Unmoved.trans {l l' l'' : Link} (h : l.Unmoved l') (h' : l'.Unmoved l'') :
    l.Unmoved l'' where
  rest := by rw [h'.rest, h.rest]
  opening k handle u := (h'.opening k handle u).trans (h.opening k handle u)
  isOpen handle := (h'.isOpen handle).trans (h.isOpen handle)

theorem told_of_opening {i h : Nat} {u : String} (hrole : l.roleOf i = .opening h u) (o : Outcome) :
    l.told i o = (l.confirmed h u o).1 := by
  unfold told
  rw [hrole]

theorem told_of_not_opening {i : Nat} (hrole : ∀ h u, l.roleOf i ≠ .opening h u) (o : Outcome) :
    l.told i o = o := by
  unfold told
  split
  · next h u heq => exact absurd heq (hrole h u)
  · rfl

theorem roleOf_eq_opening_iff (i h : Nat) (u : String) :
    l.roleOf i = .opening h u ↔
      ∃ entry, l.calls.pending.get? i = some entry ∧
        l.roles[entry.exchange]? = some (.opening h u) := by
  unfold roleOf
  cases l.calls.pending.get? i with
  | none => simp
  | some entry => cases hrole : l.roles[entry.exchange]? <;> simp [hrole]

/-- What a pending call is told does not change by answers to other calls. -/
theorem Unmoved.told {l' : Link} (hs : l.Unmoved l') {i : Nat}
    (hp : l'.calls.pending.get? i = l.calls.pending.get? i) (o : Outcome) :
    l'.told i o = l.told i o := by
  have hrole : ∀ h u, l'.roleOf i = .opening h u ↔ l.roleOf i = .opening h u := fun h u => by
    simp only [roleOf_eq_opening_iff, hp, hs.opening]
  by_cases hopening : ∃ h u, l.roleOf i = .opening h u
  · obtain ⟨h, u, hl⟩ := hopening
    rw [told_of_opening hl, told_of_opening ((hrole h u).2 hl)]
    unfold confirmed
    rw [hs.isOpen]
    cases o with
    | error cause => rfl
    | ok value =>
      dsimp only
      cases SubscriptionId.ofJson? value with
      | none => rfl
      | some id => cases l.subscriptions.isOpen h <;> rfl
  · have hnot : ∀ h u, l.roleOf i ≠ .opening h u := fun h u hl => hopening ⟨h, u, hl⟩
    rw [told_of_not_opening hnot, told_of_not_opening fun h u hl => hnot h u ((hrole h u).1 hl)]

/-! ### One answer -/

/-- Where a response comes too late for its subscription, the node is told in a new exchange. -/
theorem confirmed_unmoved (l : Link) (handle : Nat) (unsubscribe : String) (outcome : Outcome) :
    l.Unmoved (l.confirmed handle unsubscribe outcome).2 ∧
      (l.confirmed handle unsubscribe outcome).2.calls.pending = l.calls.pending ∧
      l.calls.exchanges <+: (l.confirmed handle unsubscribe outcome).2.calls.exchanges := by
  have hsame : l.Unmoved l ∧ l.calls.pending = l.calls.pending ∧
      l.calls.exchanges <+: l.calls.exchanges := ⟨.refl l, rfl, List.prefix_rfl⟩
  unfold confirmed
  split
  · exact hsame
  · split
    · exact hsame
    · split
      · exact ⟨⟨rfl, fun _ _ _ => .rfl, fun _ => Subscriptions.isOpen_confirm ..⟩, rfl,
          List.prefix_rfl⟩
      · dsimp only [sayFarewell]
        split
        · exact hsame
        · refine ⟨⟨rfl, fun k h u => ?_, fun _ => rfl⟩, rfl, List.prefix_append _ _⟩
          simp only [Link.unsubscribe, make, getElem?_concat]
          split
          · next hk => simp [hk]
          · exact .rfl

theorem answer_eq (l : Link) (i : Nat) (o : Outcome) :
    ∃ l', l.Unmoved l' ∧ l'.calls.pending = l.calls.pending ∧
      l.calls.exchanges <+: l'.calls.exchanges ∧
      l.answer i o = { l' with calls := l'.calls.answer i (l.told i o) } := by
  unfold answer told
  cases l.roleOf i with
  | opening h u =>
    obtain ⟨hs, hp, hx⟩ := l.confirmed_unmoved h u o
    exact ⟨_, hs, hp, hx, rfl⟩
  | _ => exact ⟨l, .refl l, rfl, List.prefix_rfl, rfl⟩

theorem table_answer (l : Link) (i : Nat) (o : Outcome) :
    (l.answer i o).calls.pending = l.calls.pending.erase i := by
  obtain ⟨l', _, hp, _, heq⟩ := l.answer_eq i o
  rw [heq, ← hp]
  exact Calls.table_answer ..

theorem answer_unmoved (l : Link) (i : Nat) (o : Outcome) : l.Unmoved (l.answer i o) := by
  obtain ⟨l', hs, _, _, heq⟩ := l.answer_eq i o
  rw [heq]
  refine ⟨?_, hs.opening, hs.isOpen⟩
  dsimp only
  rw [Calls.answer_frame, hs.rest]

theorem exchanges_answer {k : Nat} {x : Exchange} (hx : l.calls.exchanges[k]? = some x) (i : Nat)
    (o : Outcome) : (l.answer i o).calls.exchanges[k]? = some
      (if (l.calls.pending.get? i).map Entry.exchange = some k
      then { x with answers := x.answers.put i (l.told i o) } else x) := by
  obtain ⟨l', _, hp, ⟨more, hmore⟩, heq⟩ := l.answer_eq i o
  have hx' : l'.calls.exchanges[k]? = some x := by
    rw [← hmore]
    exact getElem?_append_of_some hx more
  rw [heq, ← hp]
  exact (Calls.exchanges_answer ..).trans (by rw [hx', Option.map_some])

/-! ### Many answers -/

theorem answerAll_cons (l : Link) (a : Nat × Outcome) (as : Table Nat Outcome) :
    l.answerAll (a :: as) = (l.answer a.1 a.2).answerAll as := rfl

theorem table_answerAll (as : Table Nat Outcome) (l : Link) :
    (l.answerAll as).calls.pending = l.calls.pending.filter fun p => !as.keys.contains p.1 := by
  induction as generalizing l with
  | nil => exact (List.filter_eq_self.2 fun _ _ => rfl).symm
  | cons a as ih =>
    rw [answerAll_cons, ih, table_answer, Table.erase, List.filter_filter]
    refine List.filter_congr fun p _ => ?_
    by_cases h : p.1 = a.1 <;> simp [h]

theorem answerAll_unmoved (as : Table Nat Outcome) (l : Link) : l.Unmoved (l.answerAll as) := by
  induction as generalizing l with
  | nil => exact .refl l
  | cons a as ih => exact (l.answer_unmoved a.1 a.2).trans (ih _)

/-- The answers of exchange `k` after many: what was given first to a call of its own that was
pending, as the caller is told it, and what it had for every other. -/
theorem exchanges_answerAll (as : Table Nat Outcome) {l : Link} {k : Nat} {x : Exchange}
    (hx : l.calls.exchanges[k]? = some x) :
    ∃ x', (l.answerAll as).calls.exchanges[k]? = some x' ∧ x.Answered x' ∧ ∀ i, x'.answers.get? i =
      if (l.calls.pending.get? i).map Entry.exchange = some k
      then ((as.get? i).map (l.told i)).or (x.answers.get? i) else x.answers.get? i := by
  induction as generalizing l x with
  | nil => exact ⟨x, hx, rfl, fun i => by simp [Table.get?]⟩
  | cons a as ih =>
    obtain ⟨x', hx', hsame, hans⟩ := ih (exchanges_answer hx a.1 a.2)
    refine ⟨x', hx', ?_, fun i => ?_⟩
    · unfold Exchange.Answered at hsame ⊢
      split at hsame <;> exact hsame
    · rw [hans i, table_answer, Table.get?_erase]
      by_cases hi : a.1 = i
      · -- the first answer to `i`: later ones find nothing pending
        subst hi
        by_cases hk : (l.calls.pending.get? a.1).map Entry.exchange = some k
        · simp [hk, Table.get?, Table.get?_put]
        · simp [hk]
      · have htold : (l.answer a.1 a.2).told i = l.told i := funext fun o =>
          (l.answer_unmoved a.1 a.2).told (by rw [table_answer, Table.get?_erase, if_neg hi]) o
        by_cases hk : (l.calls.pending.get? a.1).map Entry.exchange = some k
        · simp [hi, hk, htold, Table.get?, Table.get?_put]
        · simp [hi, hk, htold, Table.get?]

/-! ### A frame of responses -/

/-- What a link becomes by a frame with these responses: the calls that the frame answers leave the
table, and each of them comes to what it is told. -/
structure SettledBy (l : Link) (responses : List Response) (l' : Link) : Prop where
  pending : l'.calls.pending = l.calls.pending.filter fun p => !l.calls.settles responses p
  exchange : ∀ (k : Nat) (x : Exchange), l.calls.exchanges[k]? = some x →
    ∃ x', l'.calls.exchanges[k]? = some x' ∧ x.Answered x' ∧ ∀ i, x'.answers.get? i =
      if (l.calls.pending.get? i).any fun entry =>
        entry.exchange = k && l.calls.settles responses (i, entry)
      then some (l.told i (Calls.entryOutcome responses i)) else x.answers.get? i
  unmoved : l.Unmoved l'

theorem settledBy_routeBatch (hd : l.calls.pending.keys.Nodup) (hopen : l.calls.closed = false)
    (responses : List Response) : l.SettledBy responses (l.routeBatch responses) where
  pending := by
    rw [routeBatch, table_answerAll]
    refine List.filter_congr fun p hp => ?_
    have hkey : p.1 ∈ Table.keys (l.calls.batchAnswers responses) ↔
        l.calls.settles responses p = true := by
      rw [← Table.has_iff_mem_keys, Table.has, Calls.batchAnswers_get?_eq l.calls hd,
        Table.get?_of_mem hd hp]
      simp [hopen]
    cases hsettled : l.calls.settles responses p <;> simp [hkey, hsettled]
  exchange k x hx := by
    obtain ⟨x', hx', hsame, hans⟩ := exchanges_answerAll (l.calls.batchAnswers responses) hx
    refine ⟨x', hx', hsame, fun i => ?_⟩
    rw [hans i, Calls.batchAnswers_get?_eq l.calls hd]
    cases l.calls.pending.get? i with
    | none => simp
    | some entry =>
      by_cases hk : entry.exchange = k <;>
        cases hsettled : l.calls.settles responses (i, entry) <;> simp [hopen, hk, hsettled]
  unmoved := answerAll_unmoved _ l

theorem SettledBy.of_perm {responses others : List Response} {l' : Link}
    (h : l.SettledBy others l') (hd : (responses.map Response.id).Nodup)
    (hperm : responses.Perm others) : l.SettledBy responses l' := by
  have hsame := Calls.responseTo?_of_perm hd hperm
  have hsettles : l.calls.settles others = l.calls.settles responses := by
    unfold Calls.settles
    rw [hsame]
  have houtcome : Calls.entryOutcome others = Calls.entryOutcome responses := by
    unfold Calls.entryOutcome
    rw [hsame]
  exact ⟨by rw [h.pending, hsettles], by rw [← hsettles, ← houtcome]; exact h.exchange, h.unmoved⟩

/-- On an open connection, a frame of responses takes out of the table the calls that it answers and
what is left of their batches, and nothing else; each of them comes to the first response to it, or
to an error that names it if there is none. Where no id comes twice, the order of the responses does
not matter. On a closed connection nothing happens. -/
theorem routeBatch_settles (buffer : Nat) (policy : Backpressure) (events : List Event)
    (responses : List Response) :
    let l := (ofOptions buffer policy).after events
    (l.calls.closed = false → l.SettledBy responses (l.routeBatch responses) ∧
      ((responses.map Response.id).Nodup → ∀ others, responses.Perm others →
        l.SettledBy responses (l.routeBatch others))) ∧
    (l.calls.closed = true → l.routeBatch responses = l) := by
  intro l
  have hkept : l.calls.Kept := stable_after Calls.kept_stable Calls.kept_empty events
  have hsettled := settledBy_routeBatch (l := l) hkept.valid.keysNodup
  refine ⟨fun hopen => ⟨hsettled hopen responses, fun hd others hperm =>
    (hsettled hopen others).of_perm hd hperm⟩, fun hclosed => ?_⟩
  have hnot : ¬l.calls.Answered responses := by
    rintro ⟨r, _, hr⟩
    simp [Table.has, hkept.shut hclosed] at hr
  rw [routeBatch, Calls.batchAnswers_eq_nil hnot]
  rfl

/-- Two batches and a call are out. One frame answers an entry of the first batch, the call, and a
call that nobody made, in any order; the second batch goes on waiting. -/
theorem routeBatch_settles_mixed :
    let ping : Call := ⟨"ping", .arr []⟩
    let sent : List Event := [.act (.batch [ping, ping] (.caller 0)),
      .act (.batch [ping] (.caller 1)), .act (.call ping (.caller 2)),
      .run (.exchange 0), .run (.exchange 1), .run (.exchange 2)]
    let responses : List Response := [⟨2, .ok (.int 2)⟩, ⟨9, .ok .null⟩, ⟨4, .ok (.int 4)⟩]
    let others : List Response := [⟨4, .ok (.int 4)⟩, ⟨9, .ok .null⟩, ⟨2, .ok (.int 2)⟩]
    (((ofOptions 1 .pauseReads).after sent).calls.closed = false ∧
      (responses.map Response.id).Nodup ∧ responses.Perm others ∧
      ((ofOptions 1 .pauseReads).after (sent ++ [.closeCalls])).calls.closed = true) ∧
    (((ofOptions 1 .pauseReads).after sent).routeBatch others).calls.pending.keys = [3] ∧
      (∃ x', (((ofOptions 1 .pauseReads).after sent).routeBatch others).calls.exchanges[0]? =
          some x' ∧ x'.answers.get? 1 = some (.error (.malformed (.missingFromBatch 1))) ∧
        x'.answers.get? 2 = some (.ok (.int 2))) ∧
      ((ofOptions 1 .pauseReads).after (sent ++ [.closeCalls])).routeBatch responses =
        (ofOptions 1 .pauseReads).after (sent ++ [.closeCalls]) := by
  intro ping sent responses others
  have hopen : ((ofOptions 1 .pauseReads).after sent).calls.closed = false := by decide
  have hshut : ((ofOptions 1 .pauseReads).after (sent ++ [.closeCalls])).calls.closed = true := by
    decide
  have hd : (responses.map Response.id).Nodup := by decide
  have hperm : responses.Perm others := by decide
  have h := routeBatch_settles 1 .pauseReads sent responses
  have h' := routeBatch_settles 1 .pauseReads (sent ++ [.closeCalls]) responses
  dsimp only at h h'
  have hsettled := (h.1 hopen).2 hd others hperm
  refine ⟨⟨hopen, hd, hperm, hshut⟩, ?_, ?_, h'.2 hshut⟩
  · rw [hsettled.pending]
    decide
  · let x : Exchange := {
      calls := [ping, ping], batched := true, token := .caller 0, ids := [1, 2], stage := .waiting }
    have hx : ((ofOptions 1 .pauseReads).after sent).calls.exchanges[0]? = some x := by decide
    obtain ⟨x', hx', _, hans⟩ := hsettled.exchange 0 x hx
    exact ⟨x', hx', (hans 1).trans (by decide), (hans 2).trans (by decide)⟩

end Link

end NodeRpc
