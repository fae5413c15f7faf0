import NodeRpc.Error
import NodeRpc.Json.Reader

/-!
# Classifying the node's frames

A frame with an id is a response. Without an id (or with a null one) it is a rejection if it has an
error and a notification otherwise. An array is a batch of responses: its entries that are no
responses are left out, and never make the batch fail.
-/

namespace NodeRpc

/-- Reads the error of a frame. -/
def errorOf (frame : Json) : Except FrameError ErrorObject :=
  match (frame.get? "error").bind ErrorObject.ofJson? with
  | some error => .ok error
  | none => .error .invalidError

/-- Reads a frame with the id `id` as a response. An error wins over a result. -/
def Response.ofJson (id frame : Json) : Except FrameError Response :=
  match id.nat? with
  | none => .error (.unexpectedId id)
  | some n =>
    match frame.get? "error", frame.get? "result" with
    | some _, _ => (errorOf frame).map fun error => ⟨n, .error error⟩
    | none, some result => .ok ⟨n, .ok result⟩
    | none, none => .error (.neitherResultNorError n)

/-- Reads a frame without an id as a notification; a missing result counts as null. -/
def Notification.ofJson (frame : Json) : Except FrameError Notification :=
  match frame.get? "method" with
  | some (.str method) =>
    match frame.get? "params" with
    | some (.obj params) =>
      match (Table.get? params "subscription").bind SubscriptionId.ofJson? with
      | some id => .ok ⟨method, id, (Table.get? params "result").getD .null⟩
      | none => .error (.noSubscriptionId method)
    | _ => .error (.noParams method)
  | _ => .error .neitherIdNorMethod

namespace Incoming

/-- Classifies a frame that is not a batch. -/
def ofObject (frame : Json) : Except FrameError Incoming :=
  match frame with
  | .obj _ =>
    match frame.get? "id" with
    | none | some .null =>
      match frame.get? "error" with
      | some _ => (errorOf frame).map .rejected
      | none => (Notification.ofJson frame).map .notification
    | some id => (Response.ofJson id frame).map .response
  | _ => .error .notAnObject

/-- The response that an entry of a batch is, if it is one. -/
def response? (entry : Json) : Option Response :=
  match ofObject entry with
  | .ok (.response r) => some r
  | _ => none

/-- Classifies a frame. -/
def ofJson (frame : Json) : Except FrameError Incoming :=
  match frame with
  | .arr entries => .ok (.batch (entries.filterMap response?))
  | frame => ofObject frame

/-- Classifies the text of a frame. -/
def parse (text : String) : Except FrameError Incoming :=
  match Json.parse text with
  | some frame => ofJson frame
  | none => .error .invalidJson

end Incoming

end NodeRpc
