import NodeRpc.Client.Dialogue
import NodeRpc.Endpoint.Url
import NodeRpc.Frame.Incoming
import NodeRpc.Frame.Writer
import NodeRpc.Http.Status

/-!
# One exchange per call

Over HTTP each call, and each batch, is an exchange of its own: a request is posted, and the reply
to it answers the call or every entry of the batch. Nothing but the next id is kept between
exchanges.

An error object answers, whatever the status of the reply is. Otherwise a reply that is no frame is
reported by its status if that is no success, and as the frame that it is not if it is.
-/

namespace NodeRpc

/-- What becomes of a posted request. -/
inductive HttpReply where
  | replied (status : Nat) (body : String)
  /-- The connection could not be made. -/
  | refused (reason : String)
  /-- The connection ended before the reply did. -/
  | lost (reason : String)
  /-- The caller gave up before the reply was there. -/
  | cancelled
  deriving DecidableEq

/-- A complete reply; with some status codes no body is sent. -/
def HttpReply.complete (status : Nat) (body : String) : HttpReply :=
  .replied status (if Http.isBodiless status then "" else body)

/-- A posted request. -/
structure HttpRequest where
  line : String
  host : String
  contentType : String
  body : String
  deriving DecidableEq

/-- Who posts to an endpoint. -/
structure HttpClient where
  endpoint : Url
  nextId : Nat := 1
  deriving DecidableEq

namespace HttpClient

/-- The request that carries a frame. -/
def post (h : HttpClient) (frame : Outgoing) : HttpRequest where
  line := "POST " ++ h.endpoint.target ++ " HTTP/1.1"
  host := (h.endpoint.authority.map Authority.hostAndPort).getD ""
  contentType := "application/json"
  body := frame.text

/-- The requests of some calls, with ids of their own. -/
def number (h : HttpClient) (calls : List Call) : List Request × HttpClient :=
  (List.zipWith Request.mk (List.range' h.nextId calls.length) calls,
    { h with nextId := h.nextId + calls.length })

/-- The frame that a reply is. -/
def frameOf (h : HttpClient) : HttpReply → Except CallError Incoming
  | .replied status body =>
    match Incoming.parse body with
    | .ok frame => .ok frame
    | .error cause =>
      if Http.isSuccess status then .error (.malformed cause)
      else .error (.transport (.status (Http.statusLine status) body))
  | .refused reason => .error (.connectionFailed h.endpoint.text reason)
  | .lost reason => .error (.transport (.failed reason))
  | .cancelled => .error .cancelled

/-- What call `id` comes to by a frame. -/
def callOutcome (id : Nat) : Incoming → Outcome
  | .response r => if r.id = id then r.result else .error (.malformed (.noResponse id))
  | .rejected error => .error (.protocol error)
  | .batch _ | .notification _ => .error (.malformed (.noResponse id))

/-- What entry `id` of a batch comes to by the responses to it; the last one counts. -/
def entryOutcome (responses : List Response) (id : Nat) : Outcome :=
  match (responses.filter fun r => r.id = id).getLast? with
  | some r => r.result
  | none => .error (.malformed (.missingFromBatch id))

/-- What a batch comes to by a frame. -/
def batchOutcome (ids : List Nat) : Incoming → Answer
  | .batch responses => .ok (ids.map (entryOutcome responses))
  | .rejected error => .error (.protocol error)
  | .response r =>
    match r.outcome with
    | .error error => .error (.protocol error)
    | .ok _ => .error (.malformed .notABatch)
  | .notification _ => .error (.malformed .notABatch)

/-- Makes a call: the request, what the call comes to by a reply, and the client behind it. -/
def call (h : HttpClient) (c : Call) : HttpRequest × (HttpReply → Outcome) × HttpClient :=
  (h.post (.single ⟨h.nextId, c⟩), fun reply => (h.frameOf reply).bind (callOutcome h.nextId),
    { h with nextId := h.nextId + 1 })

/-- Makes a batch of calls; nothing is posted if there are none. -/
def batch (h : HttpClient) (calls : List Call) :
    Option HttpRequest × (HttpReply → Answer) × HttpClient :=
  if calls.isEmpty then (none, fun _ => .ok [], h)
  else
    let (requests, h') := h.number calls
    (some (h.post (.batch requests)),
      fun reply => (h.frameOf reply).bind (batchOutcome (requests.map Request.id)), h')

/-- Subscriptions need a connection that stays. -/
def subscribe : CallError := .unsupportedOperation "subscribe"

end HttpClient

end NodeRpc
