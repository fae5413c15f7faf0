import NodeRpc.Client.Dialogue
import NodeRpc.Lookup.Coalescer

/-!
# Loading entities

Accounts with the same options are loaded by one call. Transactions are loaded in one exchange;
those that were asked for in another form than parsed are asked for once more, parsed, and take
their status from there. Every entity gets its address, signature or slot as a field.
-/

namespace NodeRpc

/-- An account to load, with options filled in. -/
structure AccountKey where
  address : String
  options : AccountOptions
  deriving DecidableEq, Inhabited

/-- A transaction to load, with options filled in. -/
structure TransactionKey where
  signature : String
  options : TransactionOptions
  deriving DecidableEq, Inhabited

/-- What one key comes to. -/
abbrev KeyResult := Except LookupError Json

/-! ### Accounts -/

/-- The keys by their options, in the order in which the options first come. -/
def accountGroups (keys : List AccountKey) : List (AccountOptions × List AccountKey) :=
  (keys.map AccountKey.options).eraseDups.map fun o => (o, keys.filter fun k => k.options = o)

/-- The account of a key; null if there is none. -/
def AccountKey.entity (k : AccountKey) (account : Option Json) : Json :=
  (account.getD .null).set "address" (.str k.address)

/-- What the keys of a group come to. -/
def groupResults (keys : List AccountKey) :
    Except CallError (AtSlot (List (Option Json))) → List KeyResult
  | .ok r =>
    if r.value.length = keys.length then
      List.zipWith (fun k account => .ok (k.entity account)) keys r.value
    else List.replicate keys.length (.error (.batchMismatch keys.length r.value.length))
  | .error cause => List.replicate keys.length (.error (.call cause))

/-- Deals the results of the groups out in the order of the keys. -/
def dealResults : List AccountKey → Table AccountOptions (List KeyResult) → List KeyResult
  | [], _ => []
  | k :: keys, groups =>
    match groups.get? k.options with
    | some (r :: rs) => r :: dealResults keys (groups.put k.options rs)
    | _ => .ok .null :: dealResults keys groups

/-- The question that loads a group. -/
def groupQuestion (c : Client) (g : AccountOptions × List AccountKey) :
    Question (AtSlot (List (Option Json))) :=
  c.multipleAccounts (g.2.map AccountKey.address) g.1

/-- Loads accounts, by one call for each of the options that they come with. -/
def loadAccounts (c : Client) (keys : List AccountKey) : Dialogue BatchOutcome :=
  let groups := accountGroups keys
  .ask (.calls (groups.map fun g => (groupQuestion c g).call)) fun answer =>
    let results := List.zipWith (fun g o => (g.1, groupResults g.2 ((groupQuestion c g).read o)))
      groups (answer.outcomes groups.length)
    .done (.ok (dealResults keys results))

/-! ### Transactions -/

/-- The call for a transaction. -/
def TransactionKey.call (k : TransactionKey) : Call :=
  ⟨"getTransaction", .arr [.str k.signature, k.options.toJson]⟩

/-- The same transaction, parsed. -/
def TransactionKey.parsed (k : TransactionKey) : TransactionKey :=
  { k with options := k.options.parsed }

/-- Whether a transaction that came as `r` has to be asked for once more. -/
def TransactionKey.needsStatus (k : TransactionKey) (r : KeyResult) : Bool :=
  match r with
  | .ok v => !v.isNull && k.options.encoding ≠ some .jsonParsed
  | .error _ => false

/-- A transaction that came as `r`, with the status of its parsed form. -/
def withStatus (r : KeyResult) (parsed : Outcome) : KeyResult :=
  match parsed with
  | .ok .null => .ok .null
  | .ok parsed => r.map fun v => v.set "meta" ((parsed.get? "meta").getD .null)
  | .error cause => .error (.call cause)

/-- Gives each transaction that needs it the status of the next parsed form. -/
def withStatuses : List (TransactionKey × KeyResult) → List Outcome → List KeyResult
  | [], _ => []
  | (k, r) :: rest, parsed =>
    if k.needsStatus r then
      match parsed with
      | p :: ps => withStatus r p :: withStatuses rest ps
      | [] => r :: withStatuses rest []
    else r :: withStatuses rest parsed

/-- Marks each transaction with its signature. -/
def signed (keys : List TransactionKey) (results : List KeyResult) : List KeyResult :=
  List.zipWith (fun k r => r.map fun v => v.set "signature" (.str k.signature)) keys results

/-- Makes calls in one exchange; `failed` if the exchange fails as a whole. -/
def exchange {α : Type} (c : Client) (calls : List Call) (failed : CallError → α)
    (next : List Outcome → Dialogue α) : Dialogue α :=
  .ask (.batch (c.batchCalls calls)) fun answer =>
    match answer with
    | .ok results => next (c.batchResults calls results)
    | .error cause => .done (failed cause)

/-- Loads transactions. -/
def loadTransactions (c : Client) (keys : List TransactionKey) : Dialogue BatchOutcome :=
  let failed (cause : CallError) : BatchOutcome := .error (.call cause)
  exchange c (keys.map TransactionKey.call) failed fun outcomes =>
    if outcomes.length = keys.length then
      let loaded := keys.zip (outcomes.map (·.mapError .call))
      let again := (loaded.filter fun p => p.1.needsStatus p.2).map fun p => p.1.parsed
      if again.isEmpty then .done (.ok (signed keys (loaded.map (·.2))))
      else
        exchange c (again.map TransactionKey.call) failed fun parsed =>
          .done (.ok (signed keys (withStatuses loaded parsed)))
    else .done (.error (.batchMismatch keys.length outcomes.length))

/-! ### Blocks -/

/-- Loads a block. -/
def loadBlock (c : Client) (slot : Nat) (o : BlockOptions) : Dialogue KeyResult :=
  (c.block slot o).dialogue.map fun r =>
    match r with
    | .ok block => .ok ((block.getD .null).set "slot" (.ofNat slot))
    | .error cause => .error (.call cause)

end NodeRpc
