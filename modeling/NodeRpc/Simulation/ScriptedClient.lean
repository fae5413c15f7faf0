import NodeRpc.Simulation.Caller
import NodeRpc.Simulation.ScriptedNode

/-!
# Callers of a scripted node

Errands with names, which ask a scripted node and wait for its answer. An errand whose token is
cancelled comes to nothing: a single call at once, a batch when it has to wait. A scripted node
opens no subscriptions.
-/

namespace NodeRpc

/-- What an errand is about. -/
inductive Errand where
  | ask (a : Ask)
  /-- Fails before anything is asked. -/
  | fails (cause : CallError)
  deriving DecidableEq

/-- An errand that opens a subscription. -/
def Errand.subscribe : Errand := .fails (.unsupportedOperation "subscribe")

/-- How far an errand has come. -/
inductive ErrandStage where
  | fresh
  | waiting (due : Nat) (answer : Answer)
  | ended (answer : Answer)

/-- An errand under way. -/
structure StartedErrand where
  errand : Errand
  token : Token
  stage : ErrandStage := .fresh

/-- A scripted node with the errands of its caller. -/
structure ScriptedClient where
  node : ScriptedNode
  now : Nat := 0
  cancelled : List Token := []
  tokens : Tokens := {}
  errands : Table String StartedErrand := []
  /-- How much of what was asked has been looked at. -/
  seen : Nat := 0

/-- A step of the caller. -/
inductive ErrandStep where
  | start (name : String) (errand : Errand) (token : Option String)
  | cancel (token : Option String)
  | drop (name : String)
  | advance (ms : Nat)

namespace ScriptedClient

/-- A step, without a pause behind it. -/
def step (c : ScriptedClient) : ErrandStep → ScriptedClient
  | .start name errand token =>
    let (token, tokens) := c.tokens.get token
    { c with tokens, errands := c.errands.put name { errand, token } }
  | .cancel token =>
    let (token, tokens) := c.tokens.get token
    { c with tokens, cancelled := token :: c.cancelled }
  | .drop name => { c with errands := c.errands.erase name }
  | .advance ms => { c with now := c.now + ms }

/-- Begins an errand: what it has come to then. -/
def begin (c : ScriptedClient) (e : StartedErrand) : ErrandStage × ScriptedNode :=
  match e.errand with
  | .fails cause => (.ended (.error cause), c.node)
  | .ask (.calls calls) =>
    if e.token ∈ c.cancelled then
      (.ended (.ok (calls.map fun _ => .error .cancelled)), c.node.note (.calls calls))
    else
      let (answer, node) := c.node.answer (.calls calls)
      (.waiting (c.now + node.latency) answer, node)
  | .ask (.batch calls) =>
    let (answer, node) := c.node.answer (.batch calls)
    let delay := node.delay answer
    (if delay = 0 then .ended answer else .waiting (c.now + delay) answer, node)

/-- Whether a waiting errand is over: it was cancelled, or the answer has arrived. -/
def look (c : ScriptedClient) (e : StartedErrand) : StartedErrand :=
  match e.stage with
  | .waiting due answer =>
    if e.token ∈ c.cancelled then { e with stage := .ended (.error .cancelled) }
    else if due ≤ c.now then { e with stage := .ended answer }
    else e
  | .fresh | .ended _ => e

/-- Gives errand `name` a turn. -/
def turn (c : ScriptedClient) (name : String) : ScriptedClient :=
  match c.errands.get? name with
  | none => c
  | some e =>
    match e.stage with
    | .fresh =>
      let (stage, node) := c.begin e
      { c with node, errands := c.errands.put name (c.look { e with stage }) }
    | .waiting .. | .ended _ => { c with errands := c.errands.put name (c.look e) }

/-- Gives every errand a turn; each then waits or is over. -/
def settle (c : ScriptedClient) : ScriptedClient := c.errands.keys.foldl turn c

/-- What an errand came to, once it has. -/
def ending? (e : StartedErrand) : Option Answer :=
  match e.stage with
  | .ended answer => some answer
  | .fresh | .waiting .. => none

/-- What the errands came to that have ended since this was last asked. -/
def endings (c : ScriptedClient) : List (String × Answer) × ScriptedClient :=
  (c.errands.filterMap fun p => (ending? p.2).map fun a => (p.1, a),
    { c with errands := c.errands.filter fun p => (ending? p.2).isNone })

/-- What was asked since this was last asked. -/
def asked (c : ScriptedClient) : List Ask × ScriptedClient :=
  (c.node.asked.drop c.seen, { c with seen := c.node.asked.length })

end ScriptedClient

end NodeRpc
