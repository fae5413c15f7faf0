import NodeRpc.Lookup.Inquiry
import NodeRpc.Lookup.Scope

/-!
# Query contexts

A context makes the lookups of one query. Each lookup is an inquiry that resolves its entities
through one scope, so that an entity is loaded once; accounts and transactions are loaded in
batches, blocks one by one. Loads and batches are dialogues with the node, which may answer at once
or later.

A load is kept by the scope's entry and by those who wait for it. Whoever polls a load moves it
forward; a load that nobody keeps is dropped.
-/

namespace NodeRpc

/-- Who answers: what becomes of it by what talk `t` asks, and the answer if it comes at once. -/
abbrev Respondent (ν : Type) := ν → (t : Nat) → Ask → Option Answer × ν

/-- What a dialogue has come to. -/
inductive Progress (α : Type) where
  | done (result : α)
  | waiting (next : Answer → Dialogue α)

/-- Goes on with a dialogue as far as the node answers at once. -/
def Dialogue.advance {ν α : Type} (respond : Respondent ν) (t : Nat) :
    Dialogue α → ν → Progress α × ν
  | .done a, node => (.done a, node)
  | .ask a next, node =>
    match respond node t a with
    | (some answer, node) => (next answer).advance respond t node
    | (none, node) => (.waiting next, node)

/-- What a talk was about, and what it came to. -/
inductive Conclusion where
  | accounts (batch : Nat) (outcome : BatchOutcome)
  | transactions (batch : Nat) (outcome : BatchOutcome)
  | block (load : Nat) (loaded : KeyResult)

/-- A dialogue under way. -/
inductive Talk where
  | fresh (d : Dialogue Conclusion)
  | waiting (next : Answer → Dialogue Conclusion) (answer : Option Answer)
  | over

/-- Whether the dialogue can go on. -/
def Talk.canRun : Talk → Bool
  | .fresh _ => true
  | .waiting _ answer => answer.isSome
  | .over => false

/-- What a load waits for. -/
inductive Work where
  /-- Load `join` of the accounts. -/
  | account (join : Nat)
  | transaction (join : Nat)
  | block (talk : Nat)
  deriving DecidableEq

/-- A lookup: its inquiry, and the resolve that seeks its entity. -/
structure Lookup where
  inquiry : Inquiry
  resolve : Option Nat := none
  dropped : Bool := false
  deriving DecidableEq

/-- A context with a node `ν`. -/
structure Context (ν : Type) where
  client : Client
  node : ν
  accounts : Coalescer AccountKey
  transactions : Coalescer TransactionKey
  resolves : Resolves := {}
  /-- What each resolve seeks. -/
  sought : List Entity := []
  /-- What each load waits for. -/
  works : List Work := []
  talks : List Talk := []
  lookups : List Lookup := []

namespace Context

variable {ν : Type}

/-- A fresh context of a graph. -/
def ofGraph (g : Graph) (node : ν) : Context ν where
  client := g.client
  node := node
  accounts := { limit := g.maxBatchSize }
  transactions := { limit := g.maxBatchSize }

/-- Starts a lookup, with the number `lookups.length`. -/
def start (x : Context ν) (i : Inquiry) : Context ν :=
  { x with lookups := x.lookups ++ [{ inquiry := i }] }

/-- The scope. -/
def scope (x : Context ν) : Scope := x.resolves.scope

/-! ### Batches -/

/-- Replaces the accounts and begins a talk for each new batch. -/
def putAccounts (x : Context ν) (c : Coalescer AccountKey) : Context ν :=
  let known := x.accounts.batches.length
  { x with
    accounts := c
    talks := x.talks ++ (c.batches.drop known).zipIdx.map fun p =>
      .fresh ((loadAccounts x.client p.1.keys).map (.accounts (known + p.2))) }

/-- Replaces the transactions and begins a talk for each new batch. -/
def putTransactions (x : Context ν) (c : Coalescer TransactionKey) : Context ν :=
  let known := x.transactions.batches.length
  { x with
    transactions := c
    talks := x.talks ++ (c.batches.drop known).zipIdx.map fun p =>
      .fresh ((loadTransactions x.client p.1.keys).map (.transactions (known + p.2))) }

/-- Hands out what a talk came to. -/
def conclude (x : Context ν) : Conclusion → Context ν
  | .accounts n outcome => { x with accounts := x.accounts.finish n outcome }
  | .transactions n outcome => { x with transactions := x.transactions.finish n outcome }
  | .block n loaded => { x with resolves := x.resolves.finish n loaded }

/-- Goes on with dialogue `d` as talk `t`. -/
def converse (respond : Respondent ν) (x : Context ν) (t : Nat) (d : Dialogue Conclusion) :
    Context ν :=
  match d.advance respond t x.node with
  | (.done c, node) => { x with node, talks := x.talks.set t .over }.conclude c
  | (.waiting next, node) => { x with node, talks := x.talks.set t (.waiting next none) }

/-- A turn of talk `t`. -/
def runTalk (respond : Respondent ν) (x : Context ν) (t : Nat) : Context ν :=
  match x.talks[t]? with
  | some (.fresh d) => x.converse respond t d
  | some (.waiting next (some answer)) => x.converse respond t (next answer)
  | _ => x

/-- The answer to what talk `t` has asked arrives. -/
def deliver (x : Context ν) (t : Nat) (answer : Answer) : Context ν :=
  match x.talks[t]? with
  | some (.waiting next none) => { x with talks := x.talks.set t (.waiting next (some answer)) }
  | _ => x

/-! ### Loads -/

/-- Begins the load of `e`, whose number is `works.length`. -/
def begin (x : Context ν) : Entity → Context ν
  | .account k =>
    { x with
      accounts := x.accounts.make k
      works := x.works ++ [.account x.accounts.joins.length] }
  | .transaction k =>
    { x with
      transactions := x.transactions.make k
      works := x.works ++ [.transaction x.transactions.joins.length] }
  | .block slot o =>
    { x with
      talks := x.talks ++ [.fresh ((loadBlock x.client slot o).map (.block x.works.length))]
      works := x.works ++ [.block x.talks.length] }

/-- Moves load `n` forward. -/
def pollLoad (respond : Respondent ν) (x : Context ν) (n : Nat) : Context ν :=
  match x.works[n]? with
  | some (.account join) =>
    let x := x.putAccounts (x.accounts.poll join)
    (x.accounts.result? join).elim x fun r => { x with resolves := x.resolves.finish n r }
  | some (.transaction join) =>
    let x := x.putTransactions (x.transactions.poll join)
    (x.transactions.result? join).elim x fun r => { x with resolves := x.resolves.finish n r }
  | some (.block t) => x.runTalk respond t
  | none => x

/-- Gives up load `n`. -/
def dropLoad (x : Context ν) (n : Nat) : Context ν :=
  match x.works[n]? with
  | some (.account join) => x.putAccounts (x.accounts.drop join true)
  | some (.transaction join) => x.putTransactions (x.transactions.drop join true)
  | some (.block t) => { x with talks := x.talks.set t .over }
  | none => x

/-- Whether an entry of the scope or somebody who waits keeps load `n`. -/
def isKept (x : Context ν) (n : Nat) : Bool :=
  (x.scope.entries.any fun p => p.2 = .inFlight n)
    || x.resolves.resolves.any fun r => r.stage = .waiting n

/-- Gives up the loads that nobody keeps. -/
def sweep (x : Context ν) : Context ν :=
  (x.resolves.loads.zipIdx.filter fun p => p.1.outcome.isNone && !x.isKept p.2).foldl
    (fun x p => x.dropLoad p.2) x

/-! ### Lookups -/

/-- The load that resolve `r` waits for. -/
def awaited? (x : Context ν) (r : Nat) : Option Nat :=
  match (x.resolves.resolves[r]?).map Resolve.stage with
  | some (.waiting n) => some n
  | _ => none

/-- What resolve `r` came to, once it has. -/
def outcome? (x : Context ν) (r : Nat) : Option Loaded :=
  match (x.resolves.resolves[r]?).map Resolve.stage with
  | some (.done outcome) => some outcome
  | _ => none

/-- Gives resolve `r` a turn; a load that it starts is begun. -/
def enter (x : Context ν) (r : Nat) : Context ν :=
  let x' := { x with resolves := x.resolves.run r }
  if x.resolves.loads.length < x'.resolves.loads.length then
    (x.sought[r]?).elim x' x'.begin
  else x'

/-- Moves resolve `r` as far as it goes. -/
def attend (respond : Respondent ν) (x : Context ν) (r : Nat) : Context ν :=
  let x := x.enter r
  match x.awaited? r with
  | some n => (x.pollLoad respond n).enter r
  | none => x

/-- Replaces lookup `k`. -/
def setLookup (x : Context ν) (k : Nat) (l : Lookup) : Context ν :=
  { x with lookups := x.lookups.set k l }

/-- Seeks entity `e` by a new resolve. -/
def seek (x : Context ν) (e : Entity) : Context ν :=
  { x with resolves := x.resolves.make e.key, sought := x.sought ++ [e] }

/-- Moves lookup `k` forward by at most `fuel` entities. -/
def pollUpTo (respond : Respondent ν) : Nat → Context ν → Nat → Context ν
  | 0, x, _ => x
  | fuel + 1, x, k =>
    match x.lookups[k]? with
    | some { inquiry := .seeks e goal, resolve, dropped := false } =>
      let r := resolve.getD x.resolves.resolves.length
      let x := if resolve.isSome then x else x.seek e
      let x := x.attend respond r
      match x.outcome? r with
      | some loaded =>
        pollUpTo respond fuel (x.setLookup k { inquiry := .after x.client goal loaded }) k
      | none => x.setLookup k { inquiry := .seeks e goal, resolve := some r }
    | _ => x

/-- A turn of lookup `k`, which goes as far as it can: each entity that it finds at once has an
entry of its own in the scope, or is the last one. -/
def poll (respond : Respondent ν) (x : Context ν) (k : Nat) : Context ν :=
  (pollUpTo respond (x.scope.entries.length + 2) x k).sweep

/-- Gives up lookup `k`. -/
def drop (x : Context ν) (k : Nat) : Context ν :=
  match x.lookups[k]? with
  | some l =>
    let resolves := l.resolve.elim x.resolves x.resolves.drop
    ({ x with resolves }.setLookup k { l with dropped := true }).sweep
  | none => x

/-- Forgets everything that was found. -/
def teardown (x : Context ν) : Context ν := { x with resolves := x.resolves.clear }.sweep

/-- What lookup `k` came to, once it has. -/
def result? (x : Context ν) (k : Nat) : Option (Except LookupError Finding) :=
  match (x.lookups[k]?).map Lookup.inquiry with
  | some (.ended result) => some result
  | _ => none

/-- The load that lookup `k` waits for. -/
def loadOf? (x : Context ν) (k : Nat) : Option Nat :=
  (x.lookups[k]?).bind fun l => l.resolve.bind x.awaited?

/-- Whether a load can go on, other than by leading. -/
def loadCanRun (x : Context ν) (n : Nat) : Bool :=
  (((x.resolves.loads[n]?).bind Load.outcome).isSome)
    || match x.works[n]? with
      | some (.account join) => x.accounts.canRun join
      | some (.transaction join) => x.transactions.canRun join
      | some (.block t) => (x.talks[t]?).any Talk.canRun
      | none => false

/-- Whether lookup `k` has something to do. -/
def canPoll (x : Context ν) (k : Nat) : Bool :=
  match x.lookups[k]? with
  | some { inquiry := .seeks .., resolve, dropped := false } =>
    resolve.isNone || (x.loadOf? k).any x.loadCanRun
  | _ => false

/-- Whether lookup `k` waits for a load that leads, and goes on when nothing else is to do. -/
def isLeading (x : Context ν) (k : Nat) : Bool :=
  match (x.loadOf? k).bind fun n => x.works[n]? with
  | some (.account join) => x.accounts.isLeading join
  | some (.transaction join) => x.transactions.isLeading join
  | _ => false

/-- Whether talk `t` is a task of its own; the talk of a block is part of its load. -/
def isTask (x : Context ν) (t : Nat) : Bool := !x.works.contains (.block t)

end Context

end NodeRpc
