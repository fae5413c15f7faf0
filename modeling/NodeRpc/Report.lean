import NodeRpc.Http.Basic
import NodeRpc.Lookup.Inquiry
import NodeRpc.Session.Node

/-!
# Reports

Results, errors and the states of subscriptions as JSON values, for logs and for comparing runs. An
error is reported by its kind and, where its wording is fixed, by its text.
-/

namespace NodeRpc

/-- A successful result. -/
def reportOk (v : Json) : Json := .obj [("ok", v)]

/-- The name of the kind of a call error. -/
def CallError.kind : CallError → String
  | .connectionFailed .. => "ConnectionFailed"
  | .invalidEndpoint _ => "InvalidEndpoint"
  | .protocol _ => "Protocol"
  | .transportClosed => "TransportClosed"
  | .cancelled => "Cancelled"
  | .unsupportedOperation _ => "UnsupportedOperation"
  | .malformed _ => "Malformed"
  | .serialization _ => "Serialization"
  | .transport _ => "Transport"

/-- A call error; the text of a payload of the wrong shape is not fixed. -/
def CallError.report (e : CallError) : Json :=
  let message :=
    match e with
    | .serialization _ => []
    | _ => [("message", Json.str e.message)]
  let details :=
    match e with
    | .protocol error => ("code", Json.int error.code) :: Json.given "data" error.data
    | _ => []
  .obj (("error", .str e.kind) :: message ++ details)

/-- A lookup error. -/
def LookupError.report (e : LookupError) : Json :=
  let named (kind : String) (fields : List (String × Json)) : Json :=
    .obj (("error", .str kind) :: fields)
  let message := ("message", Json.str e.message)
  match e with
  | .call (.serialization reason) =>
    named "Rpc" [("cause", (CallError.serialization reason).report)]
  | .call cause => named "Rpc" [("cause", cause.report), message]
  | .batchMismatch .. => named "BatchMismatch" [message]
  | .decode .. => named "Decode" [message]
  | .cancelled => named "Cancelled" [message]

/-- The outcome of a call. -/
def reportOutcome : Outcome → Json
  | .ok v => reportOk v
  | .error e => e.report

/-- The results of a batch. -/
def reportBatch : Except CallError (List Outcome) → Json
  | .ok outcomes => reportOk (.arr (outcomes.map reportOutcome))
  | .error e => e.report

/-- The outcome of a lookup. -/
def reportLookup : Except LookupError Json → Json
  | .ok v => reportOk v
  | .error e => e.report

/-- A subscription id, with the form that it has on the wire. -/
def SubscriptionId.report : SubscriptionId → Json
  | .number n => .obj [("number", .ofNat n)]
  | .text s => .obj [("str", .str s)]

/-- A response. -/
def Response.report (r : Response) : Json :=
  match r.outcome with
  | .ok v => .obj [("id", .ofNat r.id), ("result", v)]
  | .error e => .obj [("id", .ofNat r.id), ("rpc_error", e.toJson)]

/-- A classified frame. -/
def Incoming.report : Incoming → Json
  | .response r => .obj [("response", r.report)]
  | .batch rs => .obj [("batch", .arr (rs.map Response.report))]
  | .notification n =>
    .obj [("notification", .obj [("method", .str n.method),
      ("subscription", n.subscription.report), ("result", n.result)])]
  | .rejected e => .obj [("rejected", e.toJson)]

/-- A request as its receiver sees it. -/
def Request.report (r : Request) : Json :=
  .obj [("id", .ofNat r.id), ("method", .str r.call.method), ("params", r.call.params)]

/-- The name of a phase. -/
def Phase.name : Phase → String
  | .pending => "Pending"
  | .active _ => "Active"
  | .closed => "Closed"

/-- The state of a stream; the id too if it is `raw`. -/
def Stream.report (s : Stream) (raw : Bool) : Json :=
  let id := if raw then [("id", (s.id?.map SubscriptionId.report).getD .null)] else []
  .obj (("state", .str s.phase.name) :: id)

/-- What a poll has found; items are reported by `item`. -/
def Polled.report (item : Json → Json) : Polled → Json
  | .pending => .str "pending"
  | .ended => .str "end"
  | .item v => item v
  | .failed e => e.report

/-- A call, by method and parameters. -/
def Call.report (c : Call) : Json := .arr [.str c.method, c.params]

/-- What is asked of a node. -/
def Ask.report : Ask → Json
  | .calls [c] => .obj [("call", c.report)]
  | .calls cs => .obj [("calls", .arr (cs.map Call.report))]
  | .batch cs => .obj [("batch", .arr (cs.map Call.report))]

/-- What an inquiry has found; each entity is reported by `entity`. -/
def Finding.report (entity : Json → Json) : Finding → Json
  | .entity v => (v.map entity).getD .null
  | .chain accounts => .arr (accounts.map entity)

/-- What a node has read. -/
def Received.report : Received → Json
  | .frame v => .obj [("got", v)]
  | .request r => .obj [("got", r.report)]
  | .batch rs => .obj [("got", .arr (rs.map Request.report))]
  | .pending => .str "pending"
  | .nothing => .str "none"

/-- A posted request. -/
def HttpRequest.report (r : HttpRequest) : Json :=
  .obj [("line", .str r.line), ("host", .str r.host), ("content_type", .str r.contentType),
    ("body", .str r.body)]

end NodeRpc
