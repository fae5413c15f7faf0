import NodeRpc.Lookup.Coalescer
import NodeRpc.Lookup.Scope
import NodeRpc.Schedule

/-!
# Lookups behind gates

Simulations of a scope and of a coalescer whose loads wait for gates: a load ends when its gate has
been opened, or at once if it has none. A gate stays open.
-/

namespace NodeRpc

/-! ### Scopes -/

/-- What somebody who asks brings along: how the key is loaded. -/
structure Loader where
  name : String
  gate : Option String
  outcome : Loaded

/-- A scope with the loaders of those who ask. -/
structure GatedScope where
  resolves : Resolves := {}
  loaders : List Loader := []
  gates : List String := []

namespace GatedScope

/-- Ends the loads whose gates are open. -/
def progress (g : GatedScope) : GatedScope :=
  let resolves := g.resolves.loads.zipIdx.foldl (fun r p =>
    match g.loaders[p.1.starter]? with
    | some l => if l.gate.all g.gates.contains then r.finish p.2 l.outcome else r
    | none => r) g.resolves
  { g with resolves }

/-- Somebody asks for a key. -/
def resolve (g : GatedScope) (key : LookupKey) (loader : Loader) : GatedScope :=
  { g with resolves := g.resolves.make key, loaders := g.loaders ++ [loader] }

/-- Opens a gate. -/
def openGate (g : GatedScope) (gate : String) : GatedScope :=
  { g with gates := gate :: g.gates }.progress

/-- Applies `f` to the scope and those who ask. -/
def onResolves (g : GatedScope) (f : Resolves → Resolves) : GatedScope :=
  { g with resolves := f g.resolves }

/-- A turn of resolve `k`, which goes on if the load that it starts ends at once. -/
def run (g : GatedScope) (k : Nat) : GatedScope :=
  (g.onResolves (·.run k)).progress.onResolves (·.run k)

/-- Those who ask, as tasks. -/
def machine : Machine GatedScope Nat where
  enabled g := (List.range g.resolves.resolves.length).filter g.resolves.canRun
  run := run
  effort g := 4 * (g.resolves.resolves.length + 1)

/-- What resolve `k` came to, once it has. -/
def outcome? (g : GatedScope) (k : Nat) : Option Loaded :=
  match (g.resolves.resolves[k]?).map Resolve.stage with
  | some (.done outcome) => some outcome
  | _ => none

/-- The names of the loaders that were started, in order. -/
def started (g : GatedScope) : List String :=
  g.resolves.loads.filterMap fun l => (g.loaders[l.starter]?).map Loader.name

end GatedScope

/-! ### Coalescers -/

/-- What becomes of a batch: the gate that it waits for, and how its results are changed. -/
structure BatchRule where
  gate : Option String := none
  failure : Option LookupError := none
  length : Option Nat := none

/-- Results cut to a length, or filled up to it with nulls. -/
def fitLength {ε : Type} (length : Option Nat) (results : List (Except ε Json)) :
    List (Except ε Json) :=
  match length with
  | some n => (results ++ List.replicate n (Except.ok Json.null)).take n
  | none => results

/-- A task that waits for some loads, or the task of a batch. -/
inductive LoadTask where
  | joined (t : Nat)
  | batch (n : Nat)
  deriving DecidableEq, Inhabited

/-- A coalescer of texts, the rules of its batches, and the tasks that wait for its loads. -/
structure GatedLoader where
  coalescer : Coalescer String
  rules : List BatchRule
  gates : List String := []
  tasks : List (List Nat) := []

namespace GatedLoader

/-- What a key alone comes to: an error if it starts with an exclamation mark. -/
def resultOf (key : String) : Except LookupError Json :=
  match key.toList with
  | '!' :: rest => .error (.call (.protocol ⟨-1, String.ofList rest, none⟩))
  | _ => .ok (.str ("v:" ++ key))

/-- The rule of batch `n`. -/
def rule (g : GatedLoader) (n : Nat) : BatchRule := g.rules.getD n {}

/-- What batch `n` comes to. -/
def outcome (g : GatedLoader) (n : Nat) (b : Batch String) : BatchOutcome :=
  match (g.rule n).failure with
  | some cause => .error cause
  | none => .ok (fitLength (g.rule n).length (b.keys.map resultOf))

/-- Applies `f` to the coalescer. -/
def onCoalescer (g : GatedLoader) (f : Coalescer String → Coalescer String) : GatedLoader :=
  { g with coalescer := f g.coalescer }

/-- Starts a task that loads some keys. -/
def load (g : GatedLoader) (keys : List String) : GatedLoader :=
  { g with
    coalescer := keys.foldl (fun c key => c.make key) g.coalescer
    tasks := g.tasks ++ [List.range' g.coalescer.joins.length keys.length] }

/-- The loads of task `t`. -/
def members (g : GatedLoader) (t : Nat) : List Nat := g.tasks.getD t []

/-- Gives up task `t`. -/
def drop (g : GatedLoader) (t : Nat) : GatedLoader :=
  (g.members t).foldl (fun g k => g.onCoalescer (·.drop k true)) g

/-- Opens a gate. -/
def openGate (g : GatedLoader) (gate : String) : GatedLoader := { g with gates := gate :: g.gates }

/-- A turn of a task. -/
def run (g : GatedLoader) : LoadTask → GatedLoader
  | .joined t => (g.members t).foldl (fun g k => g.onCoalescer (·.poll k)) g
  | .batch n =>
    match g.coalescer.batches[n]? with
    | some b => g.onCoalescer (·.finish n (g.outcome n b))
    | none => g

/-- The tasks. Those with a leader go on when nothing else can. -/
def machine : Machine GatedLoader LoadTask where
  enabled g :=
    ((List.range g.tasks.length).filter fun t => (g.members t).any g.coalescer.canRun).map .joined
      ++ (g.coalescer.batches.zipIdx.filter fun p =>
          !p.1.finished && (g.rule p.2).gate.all g.gates.contains).map fun p => .batch p.2
  yielded g :=
    ((List.range g.tasks.length).filter fun t =>
      (g.members t).any g.coalescer.isLeading).map .joined
  run := run
  effort g := 4 * (g.coalescer.joins.length + g.tasks.length + g.coalescer.batches.length + 1)

/-- What the loads of task `t` came to, once all have. -/
def results? (g : GatedLoader) (t : Nat) : Option (List (Except LookupError Json)) :=
  (g.members t).mapM g.coalescer.result?

end GatedLoader

end NodeRpc
