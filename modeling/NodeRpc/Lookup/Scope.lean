import NodeRpc.Error
import NodeRpc.Lookup.Key
import NodeRpc.Table

/-!
# Scopes: every key is loaded once

A scope remembers, per key, the load that is under way or what it came to. Whoever asks first starts
a load; everybody else attaches to it, or reads what it came to. A failure is remembered like a
value. Clearing the scope forgets everything.

`Scope` holds the entries. `Resolves` adds those who ask: each takes the outcome of the load it is
attached to, and records it unless the entry has been settled or removed meanwhile.
-/

namespace NodeRpc

/-- What a load comes to. -/
abbrev Loaded := Except LookupError Json

/-- What is known of a key. -/
inductive ScopeEntry where
  /-- Load `n` is under way. -/
  | inFlight (n : Nat)
  | settled (outcome : Loaded)
  deriving DecidableEq

/-- The entries of a scope, and how many loads were started. -/
structure Scope where
  entries : Table LookupKey ScopeEntry := []
  loads : Nat := 0
  deriving DecidableEq

namespace Scope

/-- The entry of a key; a load is started if there is none. -/
def enter (s : Scope) (key : LookupKey) : ScopeEntry × Scope :=
  match s.entries.get? key with
  | some entry => (entry, s)
  | none =>
    (.inFlight s.loads, ⟨s.entries.put key (.inFlight s.loads), s.loads + 1⟩)

/-- Records an outcome, if a load of the key is under way. -/
def settle (s : Scope) (key : LookupKey) (outcome : Loaded) : Scope :=
  match s.entries.get? key with
  | some (.inFlight _) => { s with entries := s.entries.put key (.settled outcome) }
  | _ => s

/-- Forgets all entries. -/
def clear (s : Scope) : Scope := { s with entries := [] }

end Scope

/-- How far somebody who asks has come. -/
inductive ResolveStage where
  | fresh
  | waiting (n : Nat)
  | done (outcome : Loaded)
  | dropped
  deriving DecidableEq

/-- Somebody who asks for a key. -/
structure Resolve where
  key : LookupKey
  stage : ResolveStage := .fresh
  deriving DecidableEq

/-- A load: who started it, and what it came to. -/
structure Load where
  starter : Nat
  outcome : Option Loaded := none
  deriving DecidableEq

/-- A scope with those who ask. -/
structure Resolves where
  scope : Scope := {}
  resolves : List Resolve := []
  loads : List Load := []
  deriving DecidableEq

namespace Resolves

/-- Somebody asks for `key`; the number is `resolves.length`. -/
def make (r : Resolves) (key : LookupKey) : Resolves := { r with resolves := r.resolves ++ [{ key }] }

/-- Replaces the stage of resolve `k`. -/
def setStage (r : Resolves) (k : Nat) (stage : ResolveStage) : Resolves :=
  { r with resolves := r.resolves.modify k fun x => { x with stage } }

/-- Resolve `k` takes the outcome of load `n`, if it is there. -/
def take (r : Resolves) (k : Nat) (x : Resolve) (n : Nat) : Resolves :=
  match (r.loads[n]?).bind Load.outcome with
  | some outcome => { r with scope := r.scope.settle x.key outcome }.setStage k (.done outcome)
  | none => r.setStage k (.waiting n)

/-- A turn of resolve `k`. -/
def run (r : Resolves) (k : Nat) : Resolves :=
  match r.resolves[k]? with
  | none => r
  | some x =>
    match x.stage with
    | .fresh =>
      match r.scope.enter x.key with
      | (.settled outcome, _) => r.setStage k (.done outcome)
      | (.inFlight n, scope) =>
        let loads := if scope.loads = r.scope.loads then r.loads else r.loads ++ [{ starter := k }]
        { r with scope, loads }.take k x n
    | .waiting n => r.take k x n
    | .done _ | .dropped => r

/-- Whether resolve `k` has something to do. -/
def canRun (r : Resolves) (k : Nat) : Bool :=
  match r.resolves[k]? with
  | none => false
  | some x =>
    match x.stage with
    | .fresh => true
    | .waiting n => ((r.loads[n]?).bind Load.outcome).isSome
    | .done _ | .dropped => false

/-- Load `n` comes to an outcome, unless it has already. -/
def finish (r : Resolves) (n : Nat) (outcome : Loaded) : Resolves :=
  { r with loads := r.loads.modify n fun x => { x with outcome := some (x.outcome.getD outcome) } }

/-- Resolve `k` is given up. -/
def drop (r : Resolves) (k : Nat) : Resolves :=
  match r.resolves[k]? with
  | some x =>
    match x.stage with
    | .fresh | .waiting _ => r.setStage k .dropped
    | .done _ | .dropped => r
  | none => r

/-- Forgets all entries; loads that somebody waits for go on. -/
def clear (r : Resolves) : Resolves := { r with scope := r.scope.clear }

end Resolves

end NodeRpc
