import NodeRpc.Json.Decode

/-!
# Frames

A frame is one text exchanged with the node. The client writes calls and batches of calls; the node
writes responses, batches of responses, and notifications of subscriptions. Only what routes a
frame is interpreted: results and payloads are carried as they are.
-/

namespace NodeRpc

instance decidableEqExcept {ε α : Type} [DecidableEq ε] [DecidableEq α] : DecidableEq (Except ε α)
  | .ok a, .ok b => decidable_of_iff (a = b) ⟨congrArg _, Except.ok.inj⟩
  | .error a, .error b => decidable_of_iff (a = b) ⟨congrArg _, Except.error.inj⟩
  | .ok _, .error _ => .isFalse nofun
  | .error _, .ok _ => .isFalse nofun

/-- The id that the node gave to a subscription. -/
inductive SubscriptionId where
  | number (value : Nat)
  | text (value : String)
  deriving DecidableEq, Inhabited

namespace SubscriptionId

/-- An id is an unsigned 64-bit integer or a text. -/
def ofJson? : Json → Option SubscriptionId
  | .str s => some (.text s)
  | v => v.nat?.map .number

/-- The id as a value. -/
def toJson : SubscriptionId → Json
  | .number n => .ofNat n
  | .text s => .str s

/-- The id as plain text. -/
def display : SubscriptionId → String
  | .number n => String.ofList (Nat.toDigits 10 n)
  | .text s => s

end SubscriptionId

/-- What the node answers to a call that it could not do. -/
structure ErrorObject where
  code : Int
  message : String
  data : Option Json
  deriving DecidableEq, Inhabited

namespace ErrorObject

/-- Reads an error object; null data is no data. -/
def ofJson? (v : Json) : Option ErrorObject :=
  match v.members? ["code", "message", "data"] 2 with
  | some [code, message, data] => do
    let code ← Json.required Json.int? code
    let message ← Json.required Json.str? message
    let data ← Json.optional some data
    some ⟨code, message, data⟩
  | _ => none

/-- Writes an error object, without a data field if there is no data. -/
def toJson (e : ErrorObject) : Json :=
  .obj ([("code", .int e.code), ("message", .str e.message)] ++ Json.given "data" e.data)

end ErrorObject

/-- A method with its parameters. -/
structure Call where
  method : String
  params : Json
  deriving DecidableEq, Inhabited

/-- A call under the id that its response will carry. -/
structure Request where
  id : Nat
  call : Call
  deriving DecidableEq, Inhabited

/-- The node's answer to the request `id`. -/
structure Response where
  id : Nat
  outcome : Except ErrorObject Json
  deriving DecidableEq

/-- A payload for the subscription `subscription`. -/
structure Notification where
  method : String
  subscription : SubscriptionId
  result : Json
  deriving DecidableEq, Inhabited

/-- A frame written by the client. -/
inductive Outgoing where
  | single (request : Request)
  | batch (requests : List Request)
  deriving DecidableEq, Inhabited

/-- A frame written by the node, as far as it can be routed. -/
inductive Incoming where
  | response (response : Response)
  | batch (responses : List Response)
  | notification (notification : Notification)
  /-- An error without an id: the node could not tell which call it answers. -/
  | rejected (error : ErrorObject)
  deriving DecidableEq

namespace Outgoing

/-- The requests of a frame, in order. -/
def requests : Outgoing → List Request
  | .single r => [r]
  | .batch rs => rs

end Outgoing

end NodeRpc
