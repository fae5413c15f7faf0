import NodeRpc.Frame.Basic
import NodeRpc.Endpoint.Host

/-!
# Errors and their texts

Each type lists causes; each has one function that words them.
-/

namespace NodeRpc

/-- Why an endpoint is not served. -/
inductive EndpointError where
  /-- The text is no URL, for the cause given. -/
  | notAnUrl (endpoint : String) (cause : UrlError)
  | unknownScheme (scheme : String)
  deriving DecidableEq

/-- The text of an endpoint error. -/
def EndpointError.message : EndpointError → String
  | .notAnUrl endpoint cause => endpoint ++ ": " ++ cause.message
  | .unknownScheme scheme => scheme

/-- Why a frame cannot be routed, or does not answer what it should. -/
inductive FrameError where
  | invalidJson
  | notAnObject
  | unexpectedId (id : Json)
  | neitherResultNorError (id : Nat)
  | invalidError
  | neitherIdNorMethod
  | noParams (method : String)
  | noSubscriptionId (method : String)
  | invalidSubscriptionId (value : Json)
  | missingFromBatch (id : Nat)
  | noResponse (id : Nat)
  | notABatch
  | notText
  | other (reason : String)
  deriving DecidableEq

/-- A number in decimal digits. -/
def digits (n : Nat) : String := String.ofList (Decimal.ofNat n)

/-- The text of a frame error. -/
def FrameError.message : FrameError → String
  | .invalidJson => "invalid JSON"
  | .notAnObject => "expected a JSON object"
  | .unexpectedId id => "unexpected request id " ++ id.compact
  | .neitherResultNorError id => "response " ++ digits id ++ " carries neither result nor error"
  | .invalidError => "invalid error object"
  | .neitherIdNorMethod => "frame has neither id nor method"
  | .noParams method => "notification `" ++ method ++ "` has no params"
  | .noSubscriptionId method => "notification `" ++ method ++ "` has no subscription id"
  | .invalidSubscriptionId value =>
    "invalid subscription id " ++ value.compact ++
      ": data did not match any variant of untagged enum SubscriptionId"
  | .missingFromBatch id => "response " ++ digits id ++ " missing from batch"
  | .noResponse id => "no response to request " ++ digits id
  | .notABatch => "expected a batch response"
  | .notText => "binary frame is not UTF-8"
  | .other reason => reason

/-- What went wrong below the frames. -/
inductive TransportFault where
  /-- A reply with the status `line` and a body that is no frame. -/
  | status (line body : String)
  | failed (reason : String)
  deriving DecidableEq

/-- The text of a transport fault. -/
def TransportFault.message : TransportFault → String
  | .status line body => "HTTP " ++ line ++ ": " ++ body
  | .failed reason => reason

/-- Why a call, a batch or a subscription failed. -/
inductive CallError where
  | connectionFailed (endpoint message : String)
  | invalidEndpoint (cause : EndpointError)
  /-- The node answered with an error object. -/
  | protocol (error : ErrorObject)
  | transportClosed
  | cancelled
  | unsupportedOperation (operation : String)
  | malformed (cause : FrameError)
  /-- A payload does not have the shape that was asked for. -/
  | serialization (reason : String)
  | transport (fault : TransportFault)
  deriving DecidableEq

/-- The text of a call error. -/
def CallError.message : CallError → String
  | .connectionFailed endpoint message => "Failed to connect to " ++ endpoint ++ ": " ++ message
  | .invalidEndpoint cause => "Unsupported endpoint scheme: " ++ cause.message
  | .protocol error =>
    "RPC error " ++ String.ofList (Decimal.ofInt error.code) ++ ": " ++ error.message
  | .transportClosed => "Transport closed"
  | .cancelled => "Request cancelled"
  | .unsupportedOperation operation =>
    "Operation `" ++ operation ++ "` is not supported by this transport"
  | .malformed cause => "Malformed frame: " ++ cause.message
  | .serialization reason => "Serialization error: " ++ reason
  | .transport fault => "Transport error: " ++ fault.message

/-- What a single request comes to. -/
abbrev Outcome := Except CallError Json

/-- The error for a payload of the wrong shape. -/
def CallError.unexpectedShape : CallError := .serialization "unexpected shape"

/-- Decodes a payload, or fails for its shape. -/
def decodeAs {α : Type} (decode : Json → Option α) (v : Json) : Except CallError α :=
  match decode v with
  | some a => .ok a
  | none => .error .unexpectedShape

/-- The outcome that a response stands for. -/
def Response.result (r : Response) : Outcome := r.outcome.mapError .protocol

/-- Why a lookup failed. -/
inductive LookupError where
  | call (cause : CallError)
  /-- A batch returned another number of entries than it was asked for. -/
  | batchMismatch (expected received : Nat)
  | decode (entity message : String)
  /-- The batch that carried the lookup was abandoned. -/
  | cancelled
  deriving DecidableEq

/-- The text of a lookup error. -/
def LookupError.message : LookupError → String
  | .call cause => "RPC error: " ++ cause.message
  | .batchMismatch expected received =>
    "Batch returned " ++ digits received ++ " entries for " ++ digits expected ++ " keys"
  | .decode entity message => "Failed to decode " ++ entity ++ ": " ++ message
  | .cancelled => "Resolution cancelled"

end NodeRpc
