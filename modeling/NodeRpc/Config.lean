import NodeRpc.Backpressure
import NodeRpc.Endpoint.Url
import NodeRpc.Error
import NodeRpc.Options

/-!
# Configuration of a client

The scheme of the endpoint selects how the node is reached: by one exchange per call, or by a
connection that stays open and carries subscriptions too.
-/

namespace NodeRpc

/-- How a session treats its subscriptions. -/
structure SessionOptions where
  buffer : Nat
  policy : Backpressure
  deriving DecidableEq, Inhabited

/-- How a node is reached. -/
inductive Reach where
  /-- One exchange per call. -/
  | http
  /-- One connection for all calls and subscriptions. -/
  | duplex
  deriving DecidableEq, Inhabited

/-- What a client is configured with. -/
structure Config where
  endpoint : Url
  notificationBuffer : Nat
  backpressure : Backpressure
  maxBatchSize : Nat
  commitment : Commitment
  deriving DecidableEq, Inhabited

namespace Config

/-- How many notifications are buffered where nothing is asked for. -/
def standardBuffer : Nat := 256

/-- How many keys one batch carries where nothing is asked for. -/
def standardBatchSize : Nat := 100

/-- A node on the local host. -/
def standardEndpoint : Url :=
  ⟨"http", some ⟨"", "", .ipv4 0x7f000001, some 8899⟩, "/", none, none⟩

/-- The configuration that is used where nothing is asked for. -/
def standard : Config :=
  { endpoint := standardEndpoint
    notificationBuffer := standardBuffer
    backpressure := .standard
    maxBatchSize := standardBatchSize
    commitment := .standard }

/-- The standard configuration for the endpoint `text`. -/
def ofEndpoint (text : String) : Except CallError Config :=
  match Url.parse text with
  | .ok url => .ok { standard with endpoint := url }
  | .error cause => .error (.invalidEndpoint (.notAnUrl text cause))

/-- Batches of at most `size` keys; of one key if `size` is zero. -/
def withMaxBatchSize (c : Config) (size : Nat) : Config := { c with maxBatchSize := max size 1 }

/-- Reads an endpoint. -/
def url? (v : Json) : Option Url := v.str?.bind fun s => (Url.parse s).toOption

/-- Reads a configuration; what is missing is standard. -/
def ofJson? (v : Json) : Option Config :=
  match v.members?
    ["endpoint", "notificationBuffer", "backpressure", "maxBatchSize", "commitment"] 0 with
  | some [endpoint, buffer, backpressure, size, commitment] => do
    let endpoint ← Json.defaulted standard.endpoint url? endpoint
    let buffer ← Json.defaulted standardBuffer Json.nat? buffer
    let backpressure ← Json.defaulted .standard Backpressure.ofJson? backpressure
    let size ← Json.defaulted standardBatchSize Json.nat? size
    let commitment ← Json.defaulted .standard Commitment.ofJson? commitment
    some ⟨endpoint, buffer, backpressure, size, commitment⟩
  | _ => none

/-- The options of a session. -/
def session (c : Config) : SessionOptions := ⟨c.notificationBuffer, c.backpressure⟩

/-- How the node is reached. -/
def reach (c : Config) : Except CallError Reach :=
  match c.endpoint.scheme with
  | "http" | "https" => .ok .http
  | "ws" | "wss" => .ok .duplex
  | scheme => .error (.invalidEndpoint (.unknownScheme scheme))

end Config

end NodeRpc
