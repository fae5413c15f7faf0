import NodeRpc.Proofs.Lookup.Statuses

/-!
# When an exchange for transactions goes wrong

An exchange may fail as a whole, and a reply may have fewer or more entries than calls were made.
`Loads` says what becomes of the keys in every case. Only a first reply that is too short is told to
the keys that it was for: what is too much is cut off unseen, and where the second reply is too
short, transactions are returned without the status that they were to get. When the second exchange
fails, so does every key, also those that nothing was asked for in it.
-/

namespace NodeRpc

/-! ### All that can happen -/

/-- What is asked at first. -/
def firstAsk (c : Client) (keys : List TransactionKey) : Ask :=
  .batch (c.batchCalls (firstCalls keys))

/-- The entries of the first reply, as the client reads them. -/
def firstRead (c : Client) (keys : List TransactionKey) (reply : List Outcome) : List Outcome :=
  c.batchResults (firstCalls keys) reply

/-- What is asked after the entries `first`. -/
def secondAsk (c : Client) (keys : List TransactionKey) (first : List Outcome) : Ask :=
  .batch (c.batchCalls (secondCalls keys first))

/-- The entries of the reply to that, as the client reads them. -/
def secondRead (c : Client) (keys : List TransactionKey) (first reply : List Outcome) :
    List Outcome :=
  c.batchResults (secondCalls keys first) reply

/-- What is asked and answered when transactions are loaded, and what that comes to. -/
inductive Loads (c : Client) (keys : List TransactionKey) :
    List (Ask × Answer) → BatchOutcome → Prop where
  | failed (cause : CallError) :
      Loads c keys [(firstAsk c keys, .error cause)] (.error (.call cause))
  | tooFew {reply : List Outcome} (h : reply.length < keys.length) :
      Loads c keys [(firstAsk c keys, .ok reply)]
        (.error (.batchMismatch keys.length reply.length))
  | once {reply : List Outcome} (h : keys.length ≤ reply.length)
      (hagain : askedAgain keys (firstRead c keys reply) = []) :
      Loads c keys [(firstAsk c keys, .ok reply)]
        (.ok (loadedFrom keys (firstRead c keys reply) []))
  | failedAgain {reply : List Outcome} (h : keys.length ≤ reply.length)
      (hagain : askedAgain keys (firstRead c keys reply) ≠ []) (cause : CallError) :
      Loads c keys [(firstAsk c keys, .ok reply),
        (secondAsk c keys (firstRead c keys reply), .error cause)] (.error (.call cause))
  | twice {reply reply' : List Outcome} (h : keys.length ≤ reply.length)
      (hagain : askedAgain keys (firstRead c keys reply) ≠ []) :
      Loads c keys [(firstAsk c keys, .ok reply),
          (secondAsk c keys (firstRead c keys reply), .ok reply')]
        (.ok (loadedFrom keys (firstRead c keys reply)
          (secondRead c keys (firstRead c keys reply) reply')))

theorem length_firstRead (c : Client) (keys : List TransactionKey) (reply : List Outcome) :
    (firstRead c keys reply).length = min reply.length keys.length := by
  simp [firstRead, Client.batchResults, firstCalls]

/-- Whatever the node answers, one of these happens. -/
theorem loads_run (c : Client) (keys : List TransactionKey)
    (node : List (Ask × Answer) → Ask → Answer) :
    Loads c keys ((loadTransactions c keys).run node []).1
      ((loadTransactions c keys).run node []).2 := by
  have hcalls : keys.map TransactionKey.call = firstCalls keys := rfl
  unfold loadTransactions
  rw [run_exchange, hcalls]
  cases node [] (.batch (c.batchCalls (firstCalls keys))) with
  | error cause => exact .failed cause
  | ok reply =>
    have hlength := length_firstRead c keys reply
    change (c.batchResults (firstCalls keys) reply).length = _ at hlength
    dsimp only
    rw [hlength]
    by_cases hfew : reply.length < keys.length
    · rw [if_neg (by omega), Nat.min_eq_left (Nat.le_of_lt hfew)]
      exact .tooFew hfew
    · have hmany : keys.length ≤ reply.length := Nat.le_of_not_lt hfew
      rw [if_pos (by omega), again_eq, map_call_parsed]
      by_cases hagain : askedAgain keys (c.batchResults (firstCalls keys) reply) = []
      · rw [if_pos (by simp [hagain]), ← loadedFrom_of_none hagain []]
        exact .once hmany hagain
      · rw [if_neg (by simp [hagain]), run_exchange]
        cases node _ (.batch (c.batchCalls (secondCalls keys _))) with
        | error cause => exact .failedAgain hmany hagain cause
        | ok reply' => exact .twice hmany hagain

theorem Loads.length_le {c : Client} {keys : List TransactionKey} {log : List (Ask × Answer)}
    {outcome : BatchOutcome} (h : Loads c keys log outcome) {e : Nat} {p : Ask × Answer}
    (hp : log[e]? = some p) : e < 2 := by
  have hlength := (List.getElem?_eq_some_iff.1 hp).1
  cases h <;> simp at hlength <;> omega

/-- One call is made for each key at first. -/
theorem Loads.length_firstAsk {c : Client} {keys : List TransactionKey}
    {log : List (Ask × Answer)} {outcome : BatchOutcome} (h : Loads c keys log outcome)
    {calls : List Call} {answer : Answer} (hasked : log[0]? = some (.batch calls, answer)) :
    calls.length = keys.length := by
  have hfirst : firstAsk c keys = .batch calls := by
    cases h <;> exact (Prod.ext_iff.1 (Option.some.inj hasked)).1
  rw [← Ask.batch.inj hfirst]
  simp [Client.batchCalls, firstCalls]

/-! ### What a key is told -/

/-- What key number `i` of a batch is told by its outcome. -/
def toldTo (outcome : BatchOutcome) (i : Nat) : Option KeyResult :=
  match outcome with
  | .ok results => results[i]?
  | .error cause => some (.error cause)

/-- Behind a key that is asked for again, when the second reply has ended, nobody finds an entry. -/
theorem entryOf?_nil (keys : List TransactionKey) (first : List Outcome) (i : Nat) :
    entryOf? keys first [] i = none := by
  simp [entryOf?]

theorem loadedFrom_cons_of_ended {k : TransactionKey} {entry : Outcome}
    (h : k.isAskedAgain entry = true) (keys : List TransactionKey) (first : List Outcome) :
    loadedFrom (k :: keys) (entry :: first) [] =
      k.sign (entry.mapError .call) :: loadedFrom keys first [] := by
  unfold loadedFrom
  rw [List.map_cons, List.zip_cons_cons, withStatuses, needsStatus_mapError, if_pos h]
  rfl

/-- A key comes to its first entry, with the status of the second one if there is one. -/
theorem getElem?_loadedFrom {keys : List TransactionKey} {first : List Outcome}
    (second : List Outcome) {i : Nat} {k : TransactionKey} {entry : Outcome}
    (hk : keys[i]? = some k) (hentry : first[i]? = some entry) :
    (loadedFrom keys first second)[i]? = some (k.sign
      ((entryOf? keys first second i).elim (entry.mapError .call)
        (withStatus (entry.mapError .call)))) := by
  induction keys generalizing first second i with
  | nil => simp at hk
  | cons l keys ih =>
    cases first with
    | nil => simp at hentry
    | cons entry' first =>
      by_cases hagain : l.isAskedAgain entry' = true
      · cases second with
        | nil =>
          -- the second reply has ended, and all that follow come to their first entries
          rw [loadedFrom_cons_of_ended hagain, entryOf?_nil]
          cases i with
          | zero =>
            obtain rfl := Option.some.inj hk
            obtain rfl := Option.some.inj hentry
            rfl
          | succ i =>
            have htail := ih [] hk hentry
            rwa [entryOf?_nil] at htail
        | cons p second =>
          rw [loadedFrom_cons_of_again hagain]
          cases i with
          | zero =>
            obtain rfl := Option.some.inj hk
            obtain rfl := Option.some.inj hentry
            simp [entryOf?, hagain, askedAgain]
          | succ i =>
            rw [entryOf?_succ_of_again hagain]
            exact ih second hk hentry
      · have honce : l.isAskedAgain entry' = false := by simpa using hagain
        rw [loadedFrom_cons_of_once honce]
        cases i with
        | zero =>
          obtain rfl := Option.some.inj hk
          obtain rfl := Option.some.inj hentry
          simp [entryOf?, honce]
        | succ i =>
          rw [entryOf?_succ_of_once honce]
          exact ih second hk hentry

/-- A key whose exchanges succeed is not told that numbers do not match. -/
theorem sign_ne_mismatch (k : TransactionKey) (entry : Outcome) (second : Option Outcome)
    (m n : Nat) : k.sign (second.elim (entry.mapError .call) (withStatus (entry.mapError .call))) ≠
      .error (.batchMismatch m n) := by
  intro h
  rcases second with - | (cause | parsed)
  · cases entry <;> cases h
  · cases h
  · cases parsed <;> cases entry <;> cases h

/-- Every place of the second exchange is that of a key which is asked for again. -/
theorem exists_place {keys : List TransactionKey} {first : List Outcome} {n : Nat}
    (h : n < (askedAgain keys first).length) : ∃ (i : Nat) (k : TransactionKey) (entry : Outcome),
      keys[i]? = some k ∧ first[i]? = some entry ∧ k.isAskedAgain entry = true ∧
        (askedAgain (keys.take i) (first.take i)).length = n := by
  induction keys generalizing first n with
  | nil => simp [askedAgain] at h
  | cons l keys ih =>
    cases first with
    | nil => simp [askedAgain] at h
    | cons entry first =>
      rw [askedAgain_cons] at h
      by_cases hagain : l.isAskedAgain entry = true
      · rw [if_pos hagain] at h
        cases n with
        | zero => exact ⟨0, l, entry, rfl, rfl, hagain, rfl⟩
        | succ n =>
          obtain ⟨i, k, entry', hk, hentry, hk', hplace⟩ := ih (Nat.lt_of_succ_lt_succ h)
          refine ⟨i + 1, k, entry', hk, hentry, hk', ?_⟩
          rw [List.take_succ_cons, List.take_succ_cons, askedAgain_cons, if_pos hagain,
            List.length_cons, hplace]
      · rw [if_neg hagain] at h
        obtain ⟨i, k, entry', hk, hentry, hk', hplace⟩ := ih h
        refine ⟨i + 1, k, entry', hk, hentry, hk', ?_⟩
        rw [List.take_succ_cons, List.take_succ_cons, askedAgain_cons, if_neg hagain, hplace]

/-! ### Replies of another length -/

/-- Exchange `e` of a log was to supply the result of key `i`: the first exchange supplies every
key, and the second one those that are asked for again. -/
def Supplies (c : Client) (keys : List TransactionKey) (log : List (Ask × Answer)) (e i : Nat) :
    Prop :=
  i < keys.length ∧ (e = 0 ∨ ∃ asked reply, log[0]? = some (asked, .ok reply) ∧
    ((keys.zip (firstRead c keys reply))[i]?).any (fun p => p.1.isAskedAgain p.2) = true)

/-- A key that has come to results of its own is not told that numbers do not match. -/
theorem told_loadedFrom_ne {keys : List TransactionKey} {first : List Outcome}
    (second : List Outcome) {i : Nat} (hi : i < keys.length) (hfirst : keys.length ≤ first.length)
    (m n : Nat) :
    toldTo (.ok (loadedFrom keys first second)) i ≠ some (.error (.batchMismatch m n)) := by
  have htold := getElem?_loadedFrom second (List.getElem?_eq_getElem hi)
    (List.getElem?_eq_getElem (Nat.lt_of_lt_of_le hi hfirst))
  unfold toldTo
  dsimp only
  rw [htold]
  exact fun h => sign_ne_mismatch _ _ _ m n (Option.some.inj h)

/-- Where no key is told of a mismatch, all of them are only if there are none. -/
theorem told_first_iff {c : Client} {keys : List TransactionKey} {log : List (Ask × Answer)}
    {outcome : BatchOutcome} {m n : Nat} (h : ∀ i < keys.length,
      toldTo outcome i ≠ some (.error (.batchMismatch m n))) :
    (∀ i, Supplies c keys log 0 i → toldTo outcome i = some (.error (.batchMismatch m n))) ↔
      keys = [] := by
  constructor
  · intro htold
    cases keys with
    | nil => rfl
    | cons k keys =>
      have hpos := Nat.zero_lt_succ keys.length
      exact absurd (htold 0 ⟨hpos, .inl rfl⟩) (h 0 hpos)
  · rintro rfl i ⟨hi, _⟩
    exact absurd hi (Nat.not_lt_zero i)

/-- The keys are told of a mismatch by the first reply if and only if it is too short. -/
theorem Loads.first_told_iff {c : Client} {keys : List TransactionKey} {log : List (Ask × Answer)}
    {outcome : BatchOutcome} (h : Loads c keys log outcome) {asked : Ask} {reply : List Outcome}
    (hreply : log[0]? = some (asked, .ok reply)) :
    (∀ i, Supplies c keys log 0 i →
        toldTo outcome i = some (.error (.batchMismatch keys.length reply.length))) ↔
      keys = [] ∨ reply.length < keys.length := by
  cases h with
  | failed cause => simp at hreply
  | @tooFew reply₁ hfew =>
    obtain ⟨-, rfl⟩ : _ = asked ∧ reply₁ = reply := by simpa using hreply
    exact iff_of_true (fun _ _ => rfl) (.inr hfew)
  | @once reply₁ hmany hagain =>
    obtain ⟨-, rfl⟩ : _ = asked ∧ reply₁ = reply := by simpa using hreply
    rw [told_first_iff fun i hi =>
      told_loadedFrom_ne [] hi (by simp [length_firstRead, hmany]) _ _]
    simp [Nat.not_lt.2 hmany]
  | @failedAgain reply₁ hmany hagain cause =>
    obtain ⟨-, rfl⟩ : _ = asked ∧ reply₁ = reply := by simpa using hreply
    rw [told_first_iff fun i _ => by simp [toldTo]]
    simp [Nat.not_lt.2 hmany]
  | @twice reply₁ reply₂ hmany hagain =>
    obtain ⟨-, rfl⟩ : _ = asked ∧ reply₁ = reply := by simpa using hreply
    rw [told_first_iff fun i hi =>
      told_loadedFrom_ne _ hi (by simp [length_firstRead, hmany]) _ _]
    simp [Nat.not_lt.2 hmany]

/-- There is a second reply only after a first one that is long enough, and for keys that are asked
for again. -/
theorem Loads.replied_again {c : Client} {keys : List TransactionKey} {log : List (Ask × Answer)}
    {outcome : BatchOutcome} (h : Loads c keys log outcome) {asked : Ask} {reply' : List Outcome}
    (hreply : log[1]? = some (asked, .ok reply')) : ∃ reply : List Outcome,
      keys.length ≤ reply.length ∧ askedAgain keys (firstRead c keys reply) ≠ [] ∧
        log[0]? = some (firstAsk c keys, .ok reply) ∧
        asked = secondAsk c keys (firstRead c keys reply) ∧
        outcome = .ok (loadedFrom keys (firstRead c keys reply)
          (secondRead c keys (firstRead c keys reply) reply')) := by
  cases h with
  | failed cause => simp at hreply
  | tooFew hfew => simp at hreply
  | once hmany hagain => simp at hreply
  | failedAgain hmany hagain cause => simp at hreply
  | @twice reply₁ reply₂ hmany hagain =>
    obtain ⟨rfl, rfl⟩ : _ = asked ∧ reply₂ = reply' := by simpa using hreply
    exact ⟨reply₁, hmany, hagain, rfl, rfl, rfl⟩

theorem supplies_again {c : Client} {keys : List TransactionKey} {log : List (Ask × Answer)}
    {asked : Ask} {reply : List Outcome} (hreply : log[0]? = some (asked, .ok reply)) {i : Nat}
    {k : TransactionKey} {entry : Outcome} (hk : keys[i]? = some k)
    (hentry : (firstRead c keys reply)[i]? = some entry) (hagain : k.isAskedAgain entry = true) :
    Supplies c keys log 1 i := by
  have hzip : (keys.zip (firstRead c keys reply))[i]? = some (k, entry) :=
    List.getElem?_zip_eq_some.2 ⟨hk, hentry⟩
  refine ⟨(List.getElem?_eq_some_iff.1 hk).1, .inr ⟨asked, reply, hreply, ?_⟩⟩
  rw [hzip]
  exact hagain

/-- A key behind the end of the second reply comes to a transaction that did not get its status. -/
theorem told_behind_end {k : TransactionKey} {entry : Outcome} {keys : List TransactionKey}
    {first second : List Outcome} {i : Nat} (hk : keys[i]? = some k)
    (hentry : first[i]? = some entry) (hagain : k.isAskedAgain entry = true)
    (hend : second.length ≤ (askedAgain (keys.take i) (first.take i)).length) :
    ∃ v, entry = .ok v ∧
      toldTo (.ok (loadedFrom keys first second)) i = some (.ok (under k.signature v)) ∧
      under k.signature v ≠ .null := by
  have hnone : entryOf? keys first second i = none := by
    unfold entryOf?
    rw [List.getElem?_eq_none hend]
    split <;> rfl
  have htold := getElem?_loadedFrom second hk hentry
  rw [hnone] at htold
  cases entry with
  | error cause => simp [TransactionKey.isAskedAgain] at hagain
  | ok v =>
    refine ⟨v, rfl, ?_, ?_⟩
    · rw [← set_signature]
      exact htold
    · cases v <;> first | simp [TransactionKey.isAskedAgain] at hagain; done | simp [under]

/-- The keys whose results a reply was to supply are told that it has another number of entries than
calls were made if and only if it is the first reply and too short. Where the second reply is too
short, a transaction is returned that did not get its status. -/
theorem tells_mismatch_iff {c : Client} {keys : List TransactionKey}
    {node : List (Ask × Answer) → Ask → Answer} {log : List (Ask × Answer)} {outcome : BatchOutcome}
    (hrun : (loadTransactions c keys).run node [] = (log, outcome)) {e : Nat} {calls : List Call}
    {reply : List Outcome} (hreply : log[e]? = some (.batch calls, .ok reply)) :
    ((∀ i, Supplies c keys log e i →
        toldTo outcome i = some (.error (.batchMismatch calls.length reply.length))) ↔
      keys = [] ∨ e = 0 ∧ reply.length < calls.length) ∧
    (e = 1 → reply.length < calls.length → ∃ i v, Supplies c keys log e i ∧
      toldTo outcome i = some (.ok v) ∧ v ≠ .null) := by
  have hloads := loads_run c keys node
  rw [hrun] at hloads
  dsimp only at hloads
  rcases e with - | - | e
  · have hasked : calls.length = keys.length := hloads.length_firstAsk hreply
    rw [hasked, hloads.first_told_iff hreply]
    exact ⟨by simp, nofun⟩
  · obtain ⟨first, hmany, hagain, hfirst, hasked, rfl⟩ := hloads.replied_again hreply
    have hcalls : calls.length = (askedAgain keys (firstRead c keys first)).length := by
      rw [Ask.batch.inj hasked]
      simp [Client.batchCalls, secondCalls]
    have hnone : keys ≠ [] := by
      rintro rfl
      exact hagain rfl
    refine ⟨iff_of_false (fun htold => ?_) (by simp [hnone]), fun _ hfew => ?_⟩
    · obtain ⟨i, k, entry, hk, hentry, hk', _⟩ := exists_place (List.length_pos_iff.2 hagain)
      exact told_loadedFrom_ne _ (List.getElem?_eq_some_iff.1 hk).1
        (by simp [length_firstRead, hmany]) _ _ (htold i (supplies_again hfirst hk hentry hk'))
    · -- the first key whose place is behind the end of the second reply
      obtain ⟨i, k, entry, hk, hentry, hk', hplace⟩ := exists_place (hcalls ▸ hfew)
      have hend : (secondRead c keys (firstRead c keys first) reply).length ≤
          (askedAgain (keys.take i) ((firstRead c keys first).take i)).length := by
        rw [hplace, secondRead, Client.batchResults, List.length_zipWith]
        exact Nat.min_le_left _ _
      obtain ⟨v, -, htold, hv⟩ := told_behind_end hk hentry hk' hend
      exact ⟨i, _, supplies_again hfirst hk hentry hk', htold, hv⟩
  · exact absurd (hloads.length_le hreply) (by omega)

/-- One transaction, which is asked for again. -/
def keptOnly : List TransactionKey := [⟨"kept", { encoding := some .base64 }⟩]

/-- Nothing but empty replies. -/
def emptyReplies (_ : List (Ask × Answer)) (_ : Ask) : Answer := .ok []

/-- A first reply with one entry, and empty ones after it. -/
def driesUp : List (Ask × Answer) → Ask → Answer
  | [], _ => .ok [.ok firstForm]
  | _ :: _, _ => .ok []

/-- The one key of an exchange that comes back empty is told so. -/
theorem tells_mismatch_of_empty :
    ∃ log outcome, (loadTransactions {} keptOnly).run emptyReplies [] = (log, outcome) ∧
      toldTo outcome 0 = some (.error (.batchMismatch 1 0)) := by
  have hrun : (loadTransactions {} keptOnly).run emptyReplies [] =
      ([(firstAsk {} keptOnly, .ok [])], .error (.batchMismatch 1 0)) := rfl
  exact ⟨_, _, hrun, (tells_mismatch_iff hrun (e := 0) rfl).1.2
    (.inr ⟨rfl, by decide⟩) 0 ⟨by decide, .inl rfl⟩⟩

/-- The second reply has no entry for the key, and the key gets its transaction without a status. -/
theorem incomplete_of_short_reply : ¬ ∀ (c : Client) (keys : List TransactionKey)
    (node : List (Ask × Answer) → Ask → Answer) (e : Nat) (calls : List Call)
    (reply : List Outcome), ((loadTransactions c keys).run node []).1[e]? =
        some (.batch calls, .ok reply) → reply.length ≠ calls.length →
      ∀ i, Supplies c keys ((loadTransactions c keys).run node []).1 e i →
        ∀ v, toldTo ((loadTransactions c keys).run node []).2 i = some (.ok v) → v = .null := by
  intro h
  have hnull := h {} keptOnly driesUp 1 [transactionCall "kept" { encoding := some .jsonParsed }]
    [] rfl (by decide) 0 ⟨by decide, .inr ⟨_, [.ok firstForm], rfl, by decide⟩⟩
    (.obj [("meta", .null), ("slot", .int 7), ("signature", .str "kept")]) rfl
  cases hnull

/-! ### Keys that are not asked for again -/

/-- What a signature comes to by its entry in the first exchange, when nothing else is asked. -/
def alone (signature : String) (entry : Outcome) : KeyResult :=
  (entry.mapError .call).map (under signature)

theorem sign_eq_alone (k : TransactionKey) (entry : Outcome) :
    k.sign (entry.mapError .call) = alone k.signature entry := by
  unfold TransactionKey.sign alone
  exact congrArg (fun f => Except.map f _) (funext fun v => set_signature v k.signature)

theorem entryOf?_of_once {keys : List TransactionKey} {first : List Outcome} {i : Nat}
    {k : TransactionKey} {entry : Outcome} (hk : keys[i]? = some k)
    (hentry : first[i]? = some entry) (honce : k.isAskedAgain entry = false) (second : List Outcome) :
    entryOf? keys first second i = none := by
  have hzip : (keys.zip first)[i]? = some (k, entry) := List.getElem?_zip_eq_some.2 ⟨hk, hentry⟩
  unfold entryOf?
  rw [hzip]
  exact if_neg (by simp [honce])

/-- Where the exchanges succeed, a key that is not asked for again comes to its own entry. -/
theorem told_loadedFrom_of_once {keys : List TransactionKey} {first : List Outcome} {i : Nat}
    {k : TransactionKey} {entry : Outcome} (hk : keys[i]? = some k)
    (hentry : first[i]? = some entry) (honce : k.isAskedAgain entry = false) (second : List Outcome) :
    toldTo (.ok (loadedFrom keys first second)) i = some (alone k.signature entry) := by
  have htold := getElem?_loadedFrom second hk hentry
  rw [entryOf?_of_once hk hentry honce, Option.elim_none, sign_eq_alone] at htold
  exact htold

theorem alone_eq_failed_iff {signature : String} {entry : Outcome} {cause : CallError} :
    .error (.call cause) = alone signature entry ↔ entry = .error cause := by
  cases entry with
  | ok v => exact iff_of_false nofun nofun
  | error cause' =>
    have halone : alone signature (.error cause') = .error (.call cause') := rfl
    rw [halone, Except.error.injEq, LookupError.call.injEq, Except.error.injEq, eq_comm]

/-- When the first exchange gives every key one entry, a key that is not asked for again comes to
what its signature and its own entry say, whatever the other keys are and come to, unless the second
exchange fails as a whole. Then it fails with it. -/
theorem undisturbed_iff {c : Client} {keys : List TransactionKey}
    {node : List (Ask × Answer) → Ask → Answer} {log : List (Ask × Answer)} {outcome : BatchOutcome}
    (hrun : (loadTransactions c keys).run node [] = (log, outcome)) {asked : Ask}
    {reply : List Outcome} (hreply : log[0]? = some (asked, .ok reply))
    (hcount : reply.length = keys.length) {i : Nat} {k : TransactionKey} {entry : Outcome}
    (hk : keys[i]? = some k) (hentry : (firstRead c keys reply)[i]? = some entry)
    (honce : k.isAskedAgain entry = false) :
    (toldTo outcome i = some (alone k.signature entry) ↔
      ∀ asked' cause, log[1]? = some (asked', .error cause) → entry = .error cause) ∧
    ∀ asked' cause, log[1]? = some (asked', .error cause) →
      toldTo outcome i = some (.error (.call cause)) := by
  have hloads := loads_run c keys node
  rw [hrun] at hloads
  dsimp only at hloads
  cases hloads with
  | failed cause => simp at hreply
  | @tooFew reply₁ h =>
    obtain ⟨-, rfl⟩ : _ = asked ∧ reply₁ = reply := by simpa using hreply
    omega
  | @once reply₁ h hagain =>
    obtain ⟨-, rfl⟩ : _ = asked ∧ reply₁ = reply := by simpa using hreply
    exact ⟨iff_of_true (told_loadedFrom_of_once hk hentry honce []) nofun, nofun⟩
  | @failedAgain reply₁ h hagain cause =>
    obtain ⟨-, rfl⟩ : _ = asked ∧ reply₁ = reply := by simpa using hreply
    refine ⟨?_, fun asked' cause' hfail => ?_⟩
    · simp only [toldTo, Option.some.injEq, alone_eq_failed_iff]
      constructor
      · rintro rfl asked' cause' hfail
        obtain ⟨-, rfl⟩ : _ = asked' ∧ cause = cause' := by simpa using hfail
        rfl
      · exact fun h => h _ cause rfl
    · obtain ⟨-, rfl⟩ : _ = asked' ∧ cause = cause' := by simpa using hfail
      rfl
  | @twice reply₁ reply₂ h hagain =>
    obtain ⟨-, rfl⟩ : _ = asked ∧ reply₁ = reply := by simpa using hreply
    exact ⟨iff_of_true (told_loadedFrom_of_once hk hentry honce _)
      fun _ _ hfail => by simp at hfail, fun _ _ hfail => by simp at hfail⟩

/-- A transaction that comes parsed. -/
def parsedKey : TransactionKey := ⟨"parsed", { encoding := some .jsonParsed }⟩

/-- One entry for each call at first, and an error for each after that. -/
def failsEach : List (Ask × Answer) → Ask → Answer
  | [], .batch calls | [], .calls calls => .ok (calls.map fun _ => .ok firstForm)
  | _ :: _, .batch calls | _ :: _, .calls calls => .ok (calls.map fun _ => .error .transportClosed)

/-- One entry for each call at first, and no reply after that. -/
def failsWhole : List (Ask × Answer) → Ask → Answer
  | [], .batch calls | [], .calls calls => .ok (calls.map fun _ => .ok firstForm)
  | _ :: _, _ => .error .transportClosed

/-- An entry of the second exchange that is an error is nothing to a transaction that came
parsed. -/
theorem undisturbed_beside_failed : ∃ log outcome,
    (loadTransactions {} (parsedKey :: keptOnly)).run failsEach [] = (log, outcome) ∧
      toldTo outcome 0 = some (.ok
        (.obj [("meta", .null), ("slot", .int 7), ("signature", .str "parsed")])) ∧
      toldTo outcome 1 = some (.error (.call .transportClosed)) := by
  have hrun : (loadTransactions {} (parsedKey :: keptOnly)).run failsEach [] =
      ([(firstAsk {} (parsedKey :: keptOnly), .ok [.ok firstForm, .ok firstForm]),
        (secondAsk {} (parsedKey :: keptOnly) [.ok firstForm, .ok firstForm],
          .ok [.error .transportClosed])],
        .ok [.ok (.obj [("meta", .null), ("slot", .int 7), ("signature", .str "parsed")]),
          .error (.call .transportClosed)]) := rfl
  have hentry : (firstRead {} (parsedKey :: keptOnly) [.ok firstForm, .ok firstForm])[0]? =
      some (.ok firstForm) := rfl
  exact ⟨_, _, hrun, (undisturbed_iff hrun rfl rfl (i := 0) rfl hentry (by decide)).1.2 nofun, rfl⟩

/-- Beside a transaction that is asked for again in an exchange that fails, the parsed one fails,
and alone it does not. -/
theorem disturbed_by_exchange : ¬ ∃ own : String → Outcome → KeyResult, ∀ (c : Client)
    (keys : List TransactionKey) (node : List (Ask × Answer) → Ask → Answer) (asked : Ask)
    (reply : List Outcome),
    ((loadTransactions c keys).run node []).1[0]? = some (asked, .ok reply) →
    reply.length = keys.length → ∀ (i : Nat) (k : TransactionKey) (entry : Outcome),
      keys[i]? = some k → (firstRead c keys reply)[i]? = some entry →
      k.isAskedAgain entry = false →
      toldTo ((loadTransactions c keys).run node []).2 i = some (own k.signature entry) := by
  rintro ⟨own, h⟩
  have halone := h {} [parsedKey] failsWhole _ [.ok firstForm] rfl rfl 0 parsedKey
    (.ok firstForm) rfl rfl (by decide)
  have hbeside := h {} (parsedKey :: keptOnly) failsWhole _ [.ok firstForm, .ok firstForm] rfl rfl
    0 parsedKey (.ok firstForm) rfl rfl (by decide)
  have hsame := halone.trans hbeside.symm
  cases hsame

end NodeRpc
