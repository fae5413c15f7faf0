import NodeRpc.Json.Decode
import NodeRpc.Json.Printer
import NodeRpc.Json.Reader
import NodeRpc.Frame.Basic

/-!
# Writing frames

The client's side writes requests; the node's side reads them back, and writes responses and
notifications. Every frame is an object that starts with the version of the protocol.
-/

namespace NodeRpc

/-- The object with the given fields behind the version. -/
def envelope (fields : List (String × Json)) : Json := .obj (("jsonrpc", .str "2.0") :: fields)

namespace Request

/-- A request as a value. -/
def toJson (r : Request) : Json :=
  envelope [("id", .ofNat r.id), ("method", .str r.call.method), ("params", r.call.params)]

/-- Reads a request; missing parameters count as null. -/
def ofJson? (v : Json) : Option Request :=
  match v.members? ["id", "method", "params"] 2 with
  | some [id, method, params] => do
    let id ← Json.required Json.nat? id
    let method ← Json.required Json.str? method
    some ⟨id, ⟨method, params.getD .null⟩⟩
  | _ => none

end Request

namespace Outgoing

/-- A frame of the client as a value. -/
def toJson : Outgoing → Json
  | .single r => r.toJson
  | .batch rs => .arr (rs.map Request.toJson)

/-- A frame of the client as text. -/
def text (f : Outgoing) : String := f.toJson.compact

end Outgoing

namespace Response

/-- A response as a value. -/
def toJson (r : Response) : Json :=
  match r.outcome with
  | .ok result => envelope [("id", .ofNat r.id), ("result", result)]
  | .error error => envelope [("id", .ofNat r.id), ("error", error.toJson)]

end Response

namespace Notification

/-- A notification as a value. -/
def toJson (n : Notification) : Json :=
  envelope [("method", .str n.method),
    ("params", .obj [("subscription", n.subscription.toJson), ("result", n.result)])]

end Notification

/-- What the node makes of a text that the client wrote; a text that is no JSON stays a text. -/
def readFrame (text : String) : Json := (Json.parse text).getD (.str text)

/-- The single call that the node reads from a text. -/
def readRequest? (text : String) : Option Request := Request.ofJson? (readFrame text)

/-- The batch that the node reads from a text. -/
def readBatch? (text : String) : Option (List Request) := Json.list? Request.ofJson? (readFrame text)

end NodeRpc
