import NodeRpc.Lookup.Loaders

/-!
# Transactions are completed with their status

Transactions are asked for in one exchange. Those that came in another form than parsed are asked
for once more in a second one, whose entries are told apart by nothing but their places. Every
transaction is completed by the entry that was asked for in its name.
-/

namespace NodeRpc

/-! ### Exchanges -/

/-- The exchanges that a dialogue makes with a node that answers by `node`, which may depend on all
that was asked and answered before, and what it comes to. -/
def Dialogue.run {α : Type} (node : List (Ask × Answer) → Ask → Answer) :
    List (Ask × Answer) → Dialogue α → List (Ask × Answer) × α
  | log, .done a => (log, a)
  | log, .ask a next => (next (node log a)).run node (log ++ [(a, node log a)])

/-- Every exchange succeeds, with one result for each of its calls. -/
def AnswersEach (node : List (Ask × Answer) → Ask → Answer) : Prop :=
  ∀ log calls, ∃ outcomes, node log (.batch calls) = .ok outcomes ∧ outcomes.length = calls.length

/-! ### What a transaction comes to -/

/-- The call for a transaction. -/
def transactionCall (signature : String) (o : TransactionOptions) : Call :=
  ⟨"getTransaction", .arr [.str signature, o.toJson]⟩

/-- Whether a transaction that came as `entry` is asked for once more: it came, and in another form
than parsed. -/
def TransactionKey.isAskedAgain (k : TransactionKey) : Outcome → Bool
  | .ok entry => entry ≠ .null ∧ k.options.encoding ≠ some .jsonParsed
  | .error _ => false

/-- A transaction with the status that its parsed form has, or null if it has none. -/
def completed (parsed : Json) : Json → Json
  | .obj fields => .obj (Table.put fields "meta" ((parsed.get? "meta").getD .null))
  | v => v

/-- A transaction under its signature. -/
def under (signature : String) : Json → Json
  | .obj fields => .obj (Table.put fields "signature" (.str signature))
  | v => v

/-- What a key should come to by its entry in the first exchange, and by its entry in the second one
if it is asked for again. -/
inductive TransactionKey.ComesTo (k : TransactionKey) : Outcome → Option Outcome → KeyResult → Prop
  where
  | failed (cause : CallError) : ComesTo k (.error cause) none (.error (.call cause))
  | missing : ComesTo k (.ok .null) none (.ok .null)
  | parsed {v : Json} (there : v ≠ .null) (form : k.options.encoding = some .jsonParsed) :
      ComesTo k (.ok v) none (.ok (under k.signature v))
  | statusFailed {v : Json} (there : v ≠ .null) (form : k.options.encoding ≠ some .jsonParsed)
      (cause : CallError) : ComesTo k (.ok v) (some (.error cause)) (.error (.call cause))
  | statusMissing {v : Json} (there : v ≠ .null) (form : k.options.encoding ≠ some .jsonParsed) :
      ComesTo k (.ok v) (some (.ok .null)) (.ok .null)
  | completed {v parsed : Json} (there : v ≠ .null)
      (form : k.options.encoding ≠ some .jsonParsed) (known : parsed ≠ .null) :
      ComesTo k (.ok v) (some (.ok parsed)) (.ok (under k.signature (completed parsed v)))

/-! ### Places in the second exchange -/

/-- The keys that are asked for again after the entries `first`, in order. -/
def askedAgain (keys : List TransactionKey) (first : List Outcome) : List TransactionKey :=
  ((keys.zip first).filter fun p => p.1.isAskedAgain p.2).map Prod.fst

/-- The entry of the second exchange for key number `i`, if this key is asked for again. -/
def entryOf? (keys : List TransactionKey) (first second : List Outcome) (i : Nat) :
    Option Outcome :=
  if ((keys.zip first)[i]?).any fun p => p.1.isAskedAgain p.2 then
    second[(askedAgain (keys.take i) (first.take i)).length]?
  else none

theorem askedAgain_cons (k : TransactionKey) (keys : List TransactionKey) (entry : Outcome)
    (first : List Outcome) : askedAgain (k :: keys) (entry :: first) =
      if k.isAskedAgain entry then k :: askedAgain keys first else askedAgain keys first := by
  by_cases h : k.isAskedAgain entry = true <;> simp [askedAgain, h]

/-- Behind a key that is asked for again the places are one higher. -/
theorem entryOf?_succ_of_again {k : TransactionKey} {entry : Outcome}
    (h : k.isAskedAgain entry = true) (keys : List TransactionKey) (first : List Outcome)
    (p : Outcome) (second : List Outcome) (i : Nat) :
    entryOf? (k :: keys) (entry :: first) (p :: second) (i + 1) = entryOf? keys first second i := by
  unfold entryOf?
  rw [List.zip_cons_cons, List.getElem?_cons_succ, List.take_succ_cons, List.take_succ_cons,
    askedAgain_cons, if_pos h, List.length_cons, List.getElem?_cons_succ]

theorem entryOf?_succ_of_once {k : TransactionKey} {entry : Outcome}
    (h : k.isAskedAgain entry = false) (keys : List TransactionKey) (first second : List Outcome)
    (i : Nat) :
    entryOf? (k :: keys) (entry :: first) second (i + 1) = entryOf? keys first second i := by
  unfold entryOf?
  rw [List.zip_cons_cons, List.getElem?_cons_succ, List.take_succ_cons, List.take_succ_cons,
    askedAgain_cons, h]
  rfl

/-! ### One key -/

theorem set_signature (v : Json) (signature : String) :
    v.set "signature" (.str signature) = under signature v := by
  cases v <;> rfl

theorem set_meta (v parsed : Json) :
    v.set "meta" ((parsed.get? "meta").getD .null) = completed parsed v := by
  cases v <;> rfl

theorem needsStatus_mapError (k : TransactionKey) (entry : Outcome) :
    k.needsStatus (entry.mapError .call) = k.isAskedAgain entry := by
  cases entry with
  | error cause => rfl
  | ok v =>
    have hok : Except.mapError LookupError.call (.ok v : Outcome) = .ok v := rfl
    rw [hok]
    cases v <;> simp [TransactionKey.needsStatus, TransactionKey.isAskedAgain, Json.isNull]

/-- A result under the signature of its key. -/
def TransactionKey.sign (k : TransactionKey) (r : KeyResult) : KeyResult :=
  r.map fun v => v.set "signature" (.str k.signature)

theorem comesTo_once {k : TransactionKey} {entry : Outcome} (h : k.isAskedAgain entry = false) :
    k.ComesTo entry none (k.sign (entry.mapError .call)) := by
  cases entry with
  | error cause => exact .failed cause
  | ok v =>
    by_cases hv : v = .null
    · subst hv
      exact .missing
    · have hform : k.options.encoding = some .jsonParsed := by
        simpa [TransactionKey.isAskedAgain, hv] using h
      have hsign : k.sign (Except.mapError .call (.ok v)) = .ok (under k.signature v) := by
        rw [← set_signature]
        rfl
      rw [hsign]
      exact .parsed hv hform

theorem comesTo_twice {k : TransactionKey} {entry : Outcome} (h : k.isAskedAgain entry = true)
    (p : Outcome) : k.ComesTo entry (some p) (k.sign (withStatus (entry.mapError .call) p)) := by
  cases entry with
  | error cause => simp [TransactionKey.isAskedAgain] at h
  | ok v =>
    obtain ⟨hv, hform⟩ : v ≠ .null ∧ k.options.encoding ≠ some .jsonParsed := by
      simpa [TransactionKey.isAskedAgain] using h
    cases p with
    | error cause => exact .statusFailed hv hform cause
    | ok parsed =>
      by_cases hparsed : parsed = .null
      · subst hparsed
        exact .statusMissing hv hform
      · have hstatus : withStatus (Except.mapError .call (.ok v)) (.ok parsed) =
            .ok (completed parsed v) := by
          rw [← set_meta]
          cases parsed with
          | null => exact absurd rfl hparsed
          | _ => rfl
        have hsign : k.sign (.ok (completed parsed v)) =
            .ok (under k.signature (completed parsed v)) := by
          rw [← set_signature]
          rfl
        rw [hstatus, hsign]
        exact .completed hv hform hparsed

/-! ### All keys -/

/-- What keys come to by the entries of the two exchanges. -/
def loadedFrom (keys : List TransactionKey) (first second : List Outcome) : List KeyResult :=
  signed keys (withStatuses (keys.zip (first.map (·.mapError .call))) second)

theorem loadedFrom_cons_of_again {k : TransactionKey} {entry : Outcome}
    (h : k.isAskedAgain entry = true) (keys : List TransactionKey) (first : List Outcome)
    (p : Outcome) (second : List Outcome) :
    loadedFrom (k :: keys) (entry :: first) (p :: second) =
      k.sign (withStatus (entry.mapError .call) p) :: loadedFrom keys first second := by
  unfold loadedFrom
  rw [List.map_cons, List.zip_cons_cons, withStatuses, needsStatus_mapError, if_pos h]
  rfl

theorem loadedFrom_cons_of_once {k : TransactionKey} {entry : Outcome}
    (h : k.isAskedAgain entry = false) (keys : List TransactionKey) (first second : List Outcome) :
    loadedFrom (k :: keys) (entry :: first) second =
      k.sign (entry.mapError .call) :: loadedFrom keys first second := by
  unfold loadedFrom
  rw [List.map_cons, List.zip_cons_cons, withStatuses.eq_def]
  simp only [needsStatus_mapError, h]
  rfl

/-- Every key comes to what it should by its own entries. -/
theorem comesTo_loadedFrom {keys : List TransactionKey} {first second : List Outcome}
    (hfirst : first.length = keys.length) (hsecond : second.length = (askedAgain keys first).length)
    {i : Nat} {k : TransactionKey} (hk : keys[i]? = some k) :
    ∃ entry r, first[i]? = some entry ∧ (loadedFrom keys first second)[i]? = some r ∧
      k.ComesTo entry (entryOf? keys first second i) r := by
  induction keys generalizing first second i with
  | nil => simp at hk
  | cons l keys ih =>
    obtain ⟨entry, first, rfl⟩ := List.exists_cons_of_length_eq_add_one hfirst
    have hfirst' : first.length = keys.length := by simpa using hfirst
    rw [askedAgain_cons] at hsecond
    by_cases hagain : l.isAskedAgain entry = true
    · -- the first entry of the second exchange is for `l`
      rw [if_pos hagain] at hsecond
      obtain ⟨p, second, rfl⟩ := List.exists_cons_of_length_eq_add_one hsecond
      rw [loadedFrom_cons_of_again hagain]
      cases i with
      | zero =>
        obtain rfl : l = k := by simpa using hk
        refine ⟨entry, _, rfl, rfl, ?_⟩
        have hentry : entryOf? (l :: keys) (entry :: first) (p :: second) 0 = some p := by
          simp [entryOf?, hagain, askedAgain]
        rw [hentry]
        exact comesTo_twice hagain p
      | succ i =>
        rw [entryOf?_succ_of_again hagain]
        exact ih hfirst' (by simpa using hsecond) (by simpa using hk)
    · have honce : l.isAskedAgain entry = false := by simpa using hagain
      rw [if_neg hagain] at hsecond
      rw [loadedFrom_cons_of_once honce]
      cases i with
      | zero =>
        obtain rfl : l = k := by simpa using hk
        refine ⟨entry, _, rfl, rfl, ?_⟩
        have hentry : entryOf? (l :: keys) (entry :: first) second 0 = none := by
          simp [entryOf?, honce]
        rw [hentry]
        exact comesTo_once honce
      | succ i =>
        rw [entryOf?_succ_of_once honce]
        exact ih hfirst' hsecond (by simpa using hk)

theorem length_withStatuses (loaded : List (TransactionKey × KeyResult)) (parsed : List Outcome) :
    (withStatuses loaded parsed).length = loaded.length := by
  induction loaded generalizing parsed with
  | nil => rfl
  | cons p loaded ih =>
    obtain ⟨k, r⟩ := p
    by_cases h : k.needsStatus r = true
    · cases parsed <;> simp [withStatuses, h, ih]
    · simp [withStatuses, h, ih]

theorem length_loadedFrom {keys : List TransactionKey} {first : List Outcome}
    (hfirst : first.length = keys.length) (second : List Outcome) :
    (loadedFrom keys first second).length = keys.length := by
  simp [loadedFrom, signed, length_withStatuses, hfirst]

/-- The keys that the loader asks for again are those that came in another form than parsed. -/
theorem again_eq (keys : List TransactionKey) (first : List Outcome) :
    (((keys.zip (first.map (·.mapError .call))).filter fun p => p.1.needsStatus p.2).map fun p =>
      p.1.parsed) = (askedAgain keys first).map TransactionKey.parsed := by
  have hsame : (fun p : TransactionKey × KeyResult => p.1.needsStatus p.2) ∘
      Prod.map id (·.mapError .call) = fun p : TransactionKey × Outcome => p.1.isAskedAgain p.2 :=
    funext fun p => needsStatus_mapError p.1 p.2
  rw [List.zip_map_right, List.filter_map, hsame, List.map_map, askedAgain, List.map_map]
  rfl

/-- Where nothing is asked for again, what came is only signed. -/
theorem loadedFrom_of_none {keys : List TransactionKey} {first : List Outcome}
    (hagain : askedAgain keys first = []) (second : List Outcome) :
    loadedFrom keys first second =
      signed keys ((keys.zip (first.map (·.mapError .call))).map Prod.snd) := by
  induction keys generalizing first with
  | nil => rfl
  | cons k keys ih =>
    cases first with
    | nil => rfl
    | cons entry first =>
      rw [askedAgain_cons] at hagain
      have honce : k.isAskedAgain entry = false :=
        Bool.eq_false_iff.2 fun h => by simp [h] at hagain
      have htail : askedAgain keys first = [] := by simpa [honce] using hagain
      rw [loadedFrom_cons_of_once honce, ih htail]
      rfl

/-! ### The dialogue -/

/-- A client without transforms makes calls as they are. -/
theorem batchCalls_of_plain {c : Client} (hc : c.registry = {}) (calls : List Call) :
    c.batchCalls calls = calls := by
  simp [Client.batchCalls, hc]

/-- A client without transforms takes results as they come. -/
theorem batchResults_of_plain {c : Client} (hc : c.registry = {}) {calls : List Call}
    {outcomes : List Outcome} (hlength : outcomes.length = calls.length) :
    c.batchResults calls outcomes = outcomes := by
  have hmap : ∀ (o : Outcome) (method : String),
      o.map (c.registry.transformResponse method) = o := by
    intro o method
    cases o <;> simp [Except.map, hc]
  apply List.ext_getElem
  · simp [Client.batchResults, hlength]
  · intro i _ _
    simp [Client.batchResults, hmap]

/-- What an exchange comes to by the answer to its calls. -/
theorem run_exchange {α : Type} (c : Client) (calls : List Call) (failed : CallError → α)
    (next : List Outcome → Dialogue α) (node : List (Ask × Answer) → Ask → Answer)
    (log : List (Ask × Answer)) : (exchange c calls failed next).run node log =
      match node log (.batch (c.batchCalls calls)) with
      | .ok reply => (next (c.batchResults calls reply)).run node
          (log ++ [(.batch (c.batchCalls calls), .ok reply)])
      | .error cause =>
        (log ++ [(.batch (c.batchCalls calls), .error cause)], failed cause) := by
  unfold exchange
  rw [Dialogue.run]
  cases node log (.batch (c.batchCalls calls)) <;> rfl

/-- An exchange that succeeds goes on with the outcomes as they came. -/
theorem run_exchange_of_plain {α : Type} {c : Client} (hc : c.registry = {})
    {node : List (Ask × Answer) → Ask → Answer} {log : List (Ask × Answer)} {calls : List Call}
    {outcomes : List Outcome} (hanswer : node log (.batch calls) = .ok outcomes)
    (hlength : outcomes.length = calls.length) (failed : CallError → α)
    (next : List Outcome → Dialogue α) : (exchange c calls failed next).run node log =
      (next outcomes).run node (log ++ [(.batch calls, .ok outcomes)]) := by
  rw [run_exchange, batchCalls_of_plain hc, hanswer]
  dsimp only
  rw [batchResults_of_plain hc hlength]

/-- The calls of the first exchange. -/
def firstCalls (keys : List TransactionKey) : List Call :=
  keys.map fun k => transactionCall k.signature k.options

/-- The calls of the second exchange after the entries `first`, which ask for the parsed form. -/
def secondCalls (keys : List TransactionKey) (first : List Outcome) : List Call :=
  (askedAgain keys first).map fun k =>
    transactionCall k.signature { k.options with encoding := some .jsonParsed }

theorem map_call_parsed (keys : List TransactionKey) (first : List Outcome) :
    ((askedAgain keys first).map TransactionKey.parsed).map TransactionKey.call =
      secondCalls keys first := by
  rw [List.map_map]
  rfl

/-- After the first exchange, what came is all there is to it, or the second exchange follows. -/
theorem run_loadTransactions {c : Client} (hc : c.registry = {}) {keys : List TransactionKey}
    {node : List (Ask × Answer) → Ask → Answer} {first : List Outcome}
    (hanswer : node [] (.batch (firstCalls keys)) = .ok first)
    (hfirst : first.length = keys.length) : (loadTransactions c keys).run node [] =
      (if askedAgain keys first = [] then .done (.ok (loadedFrom keys first []))
        else exchange c (secondCalls keys first) (fun cause => .error (.call cause)) fun second =>
          .done (.ok (loadedFrom keys first second)) : Dialogue BatchOutcome).run node
        [(.batch (firstCalls keys), .ok first)] := by
  have hcalls : keys.map TransactionKey.call = firstCalls keys := rfl
  unfold loadTransactions
  rw [hcalls, run_exchange_of_plain hc hanswer (by simpa [firstCalls] using hfirst)]
  simp only [hfirst, if_true, again_eq, map_call_parsed, List.isEmpty_iff, List.map_eq_nil_iff,
    List.nil_append]
  by_cases hagain : askedAgain keys first = []
  · rw [if_pos hagain, if_pos hagain, loadedFrom_of_none hagain]
  · rw [if_neg hagain, if_neg hagain]
    rfl

/-- Whatever a node answers, as long as the exchanges succeed, transactions are asked for in one
exchange, and in a second one those that came in another form than parsed, if there are any. Every
key comes to what it should by its own entries in the two. -/
theorem completes_transactions {c : Client} (hc : c.registry = {}) (keys : List TransactionKey)
    {node : List (Ask × Answer) → Ask → Answer} (hnode : AnswersEach node) :
    ∃ first second results, first.length = keys.length ∧
      second.length = (askedAgain keys first).length ∧
      (loadTransactions c keys).run node [] =
        ((.batch (firstCalls keys), .ok first) ::
          (if askedAgain keys first = [] then []
            else [(.batch (secondCalls keys first), .ok second)]), .ok results) ∧
      results.length = keys.length ∧
      ∀ (i : Nat) (k : TransactionKey), keys[i]? = some k → ∃ entry r, first[i]? = some entry ∧
        results[i]? = some r ∧ k.ComesTo entry (entryOf? keys first second i) r := by
  obtain ⟨first, hanswer, hfirst⟩ := hnode [] (firstCalls keys)
  have hcount : first.length = keys.length := by simpa [firstCalls] using hfirst
  by_cases hagain : askedAgain keys first = []
  · refine ⟨first, [], loadedFrom keys first [], hcount, by simp [hagain], ?_,
      length_loadedFrom hcount [], fun i k hk => comesTo_loadedFrom hcount (by simp [hagain]) hk⟩
    rw [run_loadTransactions hc hanswer hcount, if_pos hagain, if_pos hagain]
    rfl
  · obtain ⟨second, hanswer', hsecond⟩ := hnode [(.batch (firstCalls keys), .ok first)]
      (secondCalls keys first)
    have hcount' : second.length = (askedAgain keys first).length := by
      simpa [secondCalls] using hsecond
    refine ⟨first, second, loadedFrom keys first second, hcount, hcount', ?_,
      length_loadedFrom hcount second, fun i k hk => comesTo_loadedFrom hcount hcount' hk⟩
    rw [run_loadTransactions hc hanswer hcount, if_neg hagain, if_neg hagain,
      run_exchange_of_plain hc hanswer' hsecond]
    rfl

/-- Transactions of which two are asked for again: the one that there is not and the one that comes
parsed are not. -/
def several : List TransactionKey :=
  [⟨"gone", { encoding := some .base64 }⟩, ⟨"kept", { encoding := some .base64 }⟩,
    ⟨"parsed", { encoding := some .jsonParsed }⟩, ⟨"late", { encoding := some .base58 }⟩]

/-- A transaction as it comes at first. -/
def firstForm : Json := .obj [("meta", .null), ("slot", .int 7)]

/-- A transaction in its parsed form. -/
def parsedForm : Json := .obj [("meta", .str "done"), ("slot", .int 8)]

/-- What comes of them at first. -/
def cameFirst : List Outcome := [.ok .null, .ok firstForm, .ok firstForm, .ok firstForm]

/-- What comes of those that are asked for again. -/
def cameSecond : List Outcome := [.ok parsedForm, .ok .null]

/-- A node that knows of no transaction `gone`, and no longer of `late` when it is asked again. -/
def forgetful (log : List (Ask × Answer)) : Ask → Answer
  | .batch calls | .calls calls => .ok (calls.map fun q =>
    match q.params with
    | .arr (.str signature :: _) =>
      if signature = "gone" then .ok .null
      else if log = [] then .ok firstForm
      else if signature = "late" then .ok .null
      else .ok parsedForm
    | _ => .error .transportClosed)

theorem answersEach_forgetful : AnswersEach forgetful :=
  fun _ _ => ⟨_, rfl, by simp⟩

/-- Of the two entries of the second exchange the first is for the key before the parsed one, and
the second for the key behind it. -/
theorem completes_transactions_several : ∃ log results,
    (loadTransactions {} several).run forgetful [] = (log, .ok results) ∧ log.length = 2 ∧
      results[1]? =
        some (.ok (.obj [("meta", .str "done"), ("slot", .int 7), ("signature", .str "kept")])) ∧
      results[3]? = some (.ok .null) := by
  have hplain : ({} : Client).registry = {} := rfl
  obtain ⟨first, second, results, -, -, hrun, -, hkeys⟩ :=
    completes_transactions hplain several answersEach_forgetful
  have hfirst : first = cameFirst := by
    have hhead : (((loadTransactions {} several).run forgetful []).1[0]?).map Prod.snd =
        some (.ok cameFirst) := rfl
    rw [hrun] at hhead
    exact Except.ok.inj (Option.some.inj hhead)
  subst hfirst
  have hagain : askedAgain several cameFirst =
      [⟨"kept", { encoding := some .base64 }⟩, ⟨"late", { encoding := some .base58 }⟩] := by
    decide
  rw [if_neg (by rw [hagain]; decide)] at hrun
  have hsecond : second = cameSecond := by
    have hnext : (((loadTransactions {} several).run forgetful []).1[1]?).map Prod.snd =
        some (.ok cameSecond) := rfl
    rw [hrun] at hnext
    exact Except.ok.inj (Option.some.inj hnext)
  subst hsecond
  refine ⟨_, results, hrun, rfl, ?_, ?_⟩
  · obtain ⟨entry, r, hentry, hr, hcomes⟩ := hkeys 1 ⟨"kept", { encoding := some .base64 }⟩ rfl
    obtain rfl := Option.some.inj hentry
    have hplace : entryOf? several cameFirst cameSecond 1 = some (.ok parsedForm) := by decide
    rw [hplace] at hcomes
    cases hcomes
    exact hr
  · obtain ⟨entry, r, hentry, hr, hcomes⟩ := hkeys 3 ⟨"late", { encoding := some .base58 }⟩ rfl
    obtain rfl := Option.some.inj hentry
    have hplace : entryOf? several cameFirst cameSecond 3 = some (.ok .null) := by decide
    rw [hplace] at hcomes
    cases hcomes with
    | statusMissing _ _ => exact hr
    | completed _ _ known => exact absurd rfl known

end NodeRpc
