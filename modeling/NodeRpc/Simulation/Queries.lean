import NodeRpc.Lookup.Context
import NodeRpc.Schedule
import NodeRpc.Simulation.ScriptedNode

/-!
# Queries

A query makes its lookups on a fresh context, step by step. The lookups of a step are made by one
task, which polls all of them in their order whenever one of them can go on; each batch is a task of
its own. Time stands still while a task can run, and then jumps to the next moment at which
something happens.
-/

namespace NodeRpc

/-- A scripted node whose answers may be on their way. -/
structure PacedNode where
  node : ScriptedNode
  now : Nat := 0
  /-- The talks that wait, each with the moment of its answer. -/
  due : List (Nat × Nat × Answer) := []

namespace PacedNode

/-- Answers talk `t`, at once or later. -/
def respond (p : PacedNode) (t : Nat) (a : Ask) : Option Answer × PacedNode :=
  let (answer, node) := p.node.answer a
  let delay := p.node.delay answer
  if delay = 0 then (some answer, { p with node })
  else (none, { p with node, due := p.due ++ [(t, p.now + delay, answer)] })

end PacedNode

/-- A query under way: its context, and the lookups of the step with the moments of their start. -/
structure Query where
  context : Context PacedNode
  joined : List (Nat × Nat) := []

/-- The tasks of a query. -/
inductive QueryTask where
  | join
  | talk (t : Nat)
  deriving DecidableEq, Inhabited

namespace Query

/-- A query on a fresh context. -/
def ofGraph (g : Graph) (node : PacedNode) : Query := { context := .ofGraph g node }

/-- The node. -/
def node (q : Query) : PacedNode := q.context.node

/-- The lookups of the step that have been started. -/
def started (q : Query) : List Nat :=
  (q.joined.filter fun p => p.2 ≤ q.node.now).map (·.1)

/-- A turn of a task. -/
def run (q : Query) : QueryTask → Query
  | .join =>
    { q with context := q.started.foldl (fun x k => x.poll PacedNode.respond k) q.context }
  | .talk t => { q with context := q.context.runTalk PacedNode.respond t }

/-- The tasks that can run. -/
def enabled (q : Query) : List QueryTask :=
  (if q.started.any q.context.canPoll then [.join] else [])
    ++ ((q.context.talks.zipIdx.filter fun p => p.1.canRun && q.context.isTask p.2).map
        fun p => .talk p.2)

/-- The task that leads. -/
def yielded (q : Query) : List QueryTask :=
  if q.started.any q.context.isLeading then [.join] else []

/-- A bound on the number of different entities that a script can lead to. -/
def reach (q : Query) : Nat :=
  NodeRule.sizeKeyed q.node.node.methods + q.context.lookups.length + 4

/-- The query with its tasks. In each round the lookups are polled twice, and each makes at most one
batch. -/
def machine : Machine Query QueryTask where
  enabled := enabled
  yielded := yielded
  run := run
  effort q := q.reach * (2 * q.context.lookups.length + 4)

/-- The next moment at which something happens. -/
def nextMoment? (q : Query) : Option Nat :=
  ((q.joined.map (·.2)).filter (q.node.now < ·) ++ q.node.due.map fun p => p.2.1).min?

/-- Lets time pass until `moment`. -/
def jump (q : Query) (moment : Nat) : Query :=
  let node := q.node
  let (arrived, due) := node.due.partition fun p => p.2.1 ≤ moment
  let x := { q.context with node := { node with now := moment, due } }
  { q with context := arrived.foldl (fun x p => x.deliver p.1 p.2.2) x }

/-- Lets the tasks run, and time pass at most `fuel` times. -/
def runFor : Nat → Running Query QueryTask → Running Query QueryTask
  | 0, r => r.settle machine
  | fuel + 1, r =>
    let r := r.settle machine
    match r.state.nextMoment? with
    | some moment => runFor fuel (r.update machine (·.jump moment))
    | none => r

/-- A lookup that is made: its inquiry, and after how many milliseconds it starts. -/
structure Order where
  inquiry : Inquiry
  delay : Nat := 0

/-- Makes some lookups at the same time; what they came to. -/
def step (q : Query) (orders : List Order) : List (Option (Except LookupError Finding)) × Query :=
  let first := q.context.lookups.length
  let numbers := List.range' first orders.length
  let x := orders.foldl (fun x o => x.start o.inquiry) q.context
  let joined := numbers.zip (orders.map fun o => q.node.now + o.delay)
  let q' : Query := { context := x, joined }
  let r := runFor (q'.reach + orders.length) (Running.update machine ⟨q, []⟩ fun _ => q')
  (numbers.map r.state.context.result?, r.state)

/-- Forgets what was found. -/
def teardown (q : Query) : Query := { q with context := q.context.teardown }

end Query

end NodeRpc
