import NodeRpc.Client.Question

/-!
# Typed calls

The calls that a client knows how to make and to read, as data. What is read is written out again as
a JSON value.
-/

namespace NodeRpc

/-- As what the result of a call is read. -/
inductive Shape where
  | number
  | text
  | texts
  /-- A truth value, or null. -/
  | flag
  | anything
  deriving DecidableEq, Inhabited

/-- A call whose answer is read. -/
inductive TypedCall where
  | request (method : String) (params : Json) (shape : Shape)
  | slot
  | accountInfo (address : String) (options : AccountOptions)
  | multipleAccounts (addresses : List String) (options : AccountOptions)
  | transaction (signature : String) (options : TransactionOptions)
  | block (slot : Nat) (options : BlockOptions)
  deriving DecidableEq, Inhabited

/-- A value, or null if there is none. -/
def orNull (v : Option Json) : Json := v.getD .null

namespace Client

/-- Asks for `method`, whose result is read as `shape`. -/
def askFor (c : Client) (shape : Shape) (method : String) (params : Json) : Question Json :=
  match shape with
  | .number => (c.ask Json.nat? method params).map .ofNat
  | .text => (c.ask Json.str? method params).map .str
  | .texts => (c.ask (Json.list? Json.str?) method params).map fun l => .arr (l.map .str)
  | .flag => (c.ask (Json.nullable Json.bool?) method params).map fun b => b.elim .null .bool
  | .anything => c.ask some method params

/-- The question of a typed call. -/
def question (c : Client) : TypedCall → Question Json
  | .request method params shape => c.askFor shape method params
  | .slot => c.slot.map .ofNat
  | .accountInfo address o => (c.accountInfo address o).map (AtSlot.toJson orNull)
  | .multipleAccounts addresses o =>
    (c.multipleAccounts addresses o).map (AtSlot.toJson fun l => .arr (l.map orNull))
  | .transaction signature o => (c.transaction signature o).map orNull
  | .block slot o => (c.block slot o).map orNull

end Client

end NodeRpc
