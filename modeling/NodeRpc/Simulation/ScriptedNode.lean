import NodeRpc.Client.Dialogue
import NodeRpc.Simulation.Gates

/-!
# Scripted nodes

A scripted node answers each method by a rule. It notes what it is asked, and may take some time for
each exchange; what it answers is chosen when it is asked.
-/

namespace NodeRpc

/-- By what a rule chooses among others. -/
inductive Criterion where
  /-- By the first parameter. -/
  | subject
  /-- By the encoding among the options. -/
  | encoding
  deriving DecidableEq, Inhabited

/-- Parameter `n`; null if there is none. -/
def paramAt (params : Json) (n : Nat) : Json := ((params.items?.getD [])[n]?).getD .null

/-- What a criterion sees in the parameters. -/
def Criterion.key (criterion : Criterion) (params : Json) : String :=
  match criterion with
  | .subject =>
    match paramAt params 0 with
    | .str s => s
    | v => v.compact
  | .encoding => (((paramAt params 1).get? "encoding").bind Json.str?).getD "none"

/-- How a method is answered. -/
inductive NodeRule where
  | gives (outcome : Outcome)
  /-- Answers with the parameters. -/
  | echoes
  /-- Answers a call for several accounts from a table. -/
  | accounts (table : Table String Json)
  /-- The n-th use takes the n-th rule; the last one repeats. -/
  | inTurn (used : Nat) (rules : List NodeRule)
  | depending (criterion : Criterion) (rules : List (String × NodeRule))

namespace NodeRule

/-- A method without a rule is not found. -/
def notFound : Outcome := .error (.protocol ⟨-32601, "Method not found", none⟩)

/-- The key under which something is found: `key` itself, or a star. -/
def keyIn {α : Type} (table : Table String α) (key : String) : String :=
  if table.has key then key else "*"

/-- What a table says for the accounts that are asked for. -/
def accountsAnswer (table : Table String Json) (params : Json) : Json :=
  let account (v : Json) : Json := (table.get? (keyIn table (v.str?.getD ""))).getD .null
  .obj [("context", .obj [("slot", .ofNat 1)]),
    ("value", .arr (((paramAt params 0).items?.getD []).map account))]

mutual

/-- Answers by a rule. -/
def answer (params : Json) : NodeRule → Outcome × NodeRule
  | .gives outcome => (outcome, .gives outcome)
  | .echoes => (.ok params, .echoes)
  | .accounts table => (.ok (accountsAnswer table params), .accounts table)
  | .inTurn used rules =>
    let (outcome, rules') := answerNth params (min used (rules.length - 1)) rules
    (outcome, .inTurn (used + 1) rules')
  | .depending criterion rules =>
    let (outcome, rules') := answerKey params (keyIn rules (criterion.key params)) rules
    (outcome, .depending criterion rules')

/-- Answers by the n-th rule. -/
def answerNth (params : Json) : Nat → List NodeRule → Outcome × List NodeRule
  | _, [] => (notFound, [])
  | 0, r :: rules =>
    let (outcome, r') := answer params r
    (outcome, r' :: rules)
  | n + 1, r :: rules =>
    let (outcome, rules') := answerNth params n rules
    (outcome, r :: rules')

/-- Answers by the rule of a key. -/
def answerKey (params : Json) (key : String) :
    List (String × NodeRule) → Outcome × List (String × NodeRule)
  | [] => (notFound, [])
  | (k, r) :: rules =>
    if k = key then
      let (outcome, r') := answer params r
      (outcome, (k, r') :: rules)
    else
      let (outcome, rules') := answerKey params key rules
      (outcome, (k, r) :: rules')

end

/-- The values in a table, counted with everything in them. -/
def sizeTable (table : Table String Json) : Nat :=
  table.foldl (fun sum p => sum + p.2.size) 1

mutual

/-- A bound on the number of different answers. -/
def size : NodeRule → Nat
  | .gives (.ok v) => v.size
  | .gives (.error _) | .echoes => 1
  | .accounts table => sizeTable table
  | .inTurn _ rules => sizeAll rules + 1
  | .depending _ rules => sizeKeyed rules + 1

/-- `size` of all rules together. -/
def sizeAll : List NodeRule → Nat
  | [] => 0
  | r :: rules => r.size + sizeAll rules

/-- `size` of all rules of a table together. -/
def sizeKeyed : List (String × NodeRule) → Nat
  | [] => 0
  | (_, r) :: rules => r.size + sizeKeyed rules

end

end NodeRule

/-- What becomes of a batch: it fails as a whole, or its results are changed in number. -/
structure ExchangeRule where
  failure : Option CallError := none
  length : Option Nat := none

/-- A node that answers by rules. -/
structure ScriptedNode where
  methods : List (String × NodeRule)
  /-- The rules of the batches, in order. -/
  batches : List ExchangeRule := []
  /-- How long each exchange takes, in milliseconds. -/
  latency : Nat := 0
  asked : List Ask := []

namespace ScriptedNode

/-- Answers one call. -/
def answerCall (n : ScriptedNode) (c : Call) : Outcome × ScriptedNode :=
  let (outcome, methods) := NodeRule.answerKey c.params c.method n.methods
  (outcome, { n with methods })

/-- Answers calls one after the other. -/
def answerCalls (n : ScriptedNode) : List Call → List Outcome × ScriptedNode
  | [] => ([], n)
  | c :: calls =>
    let (outcome, n) := n.answerCall c
    let (outcomes, n) := n.answerCalls calls
    (outcome :: outcomes, n)

/-- Notes what is asked. Calls made side by side are noted one by one. -/
def note (n : ScriptedNode) (a : Ask) : ScriptedNode :=
  let noted :=
    match a with
    | .calls calls => calls.map fun c => .calls [c]
    | .batch calls => [.batch calls]
  { n with asked := n.asked ++ noted }

/-- How many batches have been asked. -/
def batchCount (n : ScriptedNode) : Nat :=
  n.asked.countP fun a =>
    match a with
    | .batch _ => true
    | .calls _ => false

/-- Notes what is asked, and answers it. -/
def answer (n : ScriptedNode) (a : Ask) : Answer × ScriptedNode :=
  match a with
  | .calls calls =>
    let (outcomes, n) := (n.note a).answerCalls calls
    (.ok outcomes, n)
  | .batch calls =>
    let rule := n.batches.getD n.batchCount {}
    match rule.failure with
    | some cause => (.error cause, n.note a)
    | none =>
      let (outcomes, n) := (n.note a).answerCalls calls
      (.ok (fitLength rule.length outcomes), n)

/-- How long an answer takes; a batch that fails as a whole fails at once. -/
def delay (n : ScriptedNode) (answer : Answer) : Nat :=
  match answer with
  | .ok _ => n.latency
  | .error _ => 0

end ScriptedNode

end NodeRpc
