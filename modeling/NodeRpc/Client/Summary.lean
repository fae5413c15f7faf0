import NodeRpc.Client.Basic

/-!
# Summaries for people

One line that shows how a registry, a client or a graph is set up. Transforms are shown by the
methods they are registered for.
-/

namespace NodeRpc

namespace Summary

/-- Whether a character is written by its code point: what is not visible by itself. -/
def isHidden (c : Char) : Bool :=
  let n := c.toNat
  n < 32 || (127 ≤ n && n ≤ 160) || n = 0xAD || (0x300 ≤ n && n ≤ 0x36F) || n = 0x1680
    || (0x2000 ≤ n && n ≤ 0x200F) || (0x2028 ≤ n && n ≤ 0x202F) || (0x205F ≤ n && n ≤ 0x206F)
    || n = 0x3000 || (0xE000 ≤ n && n ≤ 0xF8FF) || (0xFE00 ≤ n && n ≤ 0xFE0F) || n = 0xFEFF
    || (0xFFF0 ≤ n && n ≤ 0xFFFB) || n = 0xFFFE || n = 0xFFFF || 0xE0000 ≤ n

/-- A character inside a quoted text. -/
def escaped (c : Char) : List Char :=
  if c = '"' then ['\\', '"']
  else if c = '\\' then ['\\', '\\']
  else if c = '\n' then ['\\', 'n']
  else if c = '\r' then ['\\', 'r']
  else if c = '\t' then ['\\', 't']
  else if c = '\x00' then ['\\', '0']
  else if isHidden c then ['\\', 'u', '\x7b'] ++ Nat.toDigits 16 c.toNat ++ ['\x7d']
  else [c]

/-- A text in quotes. -/
def quoted (s : String) : String := String.ofList ('"' :: (s.toList.flatMap escaped ++ ['"']))

/-- A record with its named fields, which may be followed by more that is not shown. -/
def record (name : String) (fields : List (String × String)) (more : Bool) : String :=
  let shown := fields.map fun p => p.1 ++ ": " ++ p.2
  let shown := if more then shown ++ [".."] else shown
  name ++ " \x7b " ++ ", ".intercalate shown ++ " \x7d"

/-- The name of a commitment. -/
def commitment : Commitment → String
  | .processed => "Processed"
  | .confirmed => "Confirmed"
  | .finalized => "Finalized"

/-- The name of a policy. -/
def backpressure : Backpressure → String
  | .pauseReads => "PauseReads"
  | .dropNewest => "DropNewest"

/-- The names of a subscription. -/
def names (n : SubscriptionNames) : String :=
  record "SubscriptionNaming"
    [("subscribe", quoted n.subscribe), ("unsubscribe", quoted n.unsubscribe),
      ("notification", quoted n.notification)] false

/-- The methods and subscriptions of a registry. -/
def registry (r : Registry) : String :=
  let methods := ", ".intercalate (r.methods.keys.map quoted)
  let subscriptions :=
    ", ".intercalate (r.subscriptions.map fun p => quoted p.1 ++ ": " ++ names p.2)
  record "MethodRegistry"
    [("methods", "[" ++ methods ++ "]"), ("subscriptions", "\x7b" ++ subscriptions ++ "\x7d")] false

/-- The registry and the commitment of a client. -/
def client (c : Client) : String :=
  record "Rpc"
    [("registry", registry c.registry), ("commitment", commitment c.commitment)] true

/-- The client of a graph and how many keys a batch carries. -/
def graph (g : Graph) : String :=
  record "RpcGraph"
    [("rpc", client g.client), ("max_batch_size", digits g.maxBatchSize)] false

end Summary

end NodeRpc
