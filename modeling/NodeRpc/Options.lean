import NodeRpc.Json.Decode

/-!
# Request options and typed payloads

The options of each lookup are records of optional fields; an option that is not set is not
written. `normalized` fills in what a lookup needs, and leaves alone what is set.
-/

namespace NodeRpc

/-- How settled the state is that a node answers from. -/
inductive Commitment where
  | processed | confirmed | finalized
  deriving DecidableEq, Inhabited

namespace Commitment

/-- The commitment that is used where none is asked for. -/
def standard : Commitment := .confirmed

/-- The name of a commitment. -/
def name : Commitment → String
  | .processed => "processed"
  | .confirmed => "confirmed"
  | .finalized => "finalized"

/-- The commitment of that name. -/
def ofName? : String → Option Commitment
  | "processed" => some .processed
  | "confirmed" => some .confirmed
  | "finalized" => some .finalized
  | _ => none

/-- Reads a commitment. -/
def ofJson? (v : Json) : Option Commitment := v.name?.bind ofName?

/-- Writes a commitment. -/
def toJson (c : Commitment) : Json := .str c.name

end Commitment

/-- The form in which a node gives account data and transactions. -/
inductive Encoding where
  | base58 | base64 | base64Zstd | json | jsonParsed
  deriving DecidableEq, Inhabited

namespace Encoding

/-- The name of an encoding. -/
def name : Encoding → String
  | .base58 => "base58"
  | .base64 => "base64"
  | .base64Zstd => "base64+zstd"
  | .json => "json"
  | .jsonParsed => "jsonParsed"

/-- The encoding of that name. -/
def ofName? : String → Option Encoding
  | "base58" => some .base58
  | "base64" => some .base64
  | "base64+zstd" => some .base64Zstd
  | "json" => some .json
  | "jsonParsed" => some .jsonParsed
  | _ => none

/-- Reads an encoding. -/
def ofJson? (v : Json) : Option Encoding := v.name?.bind ofName?

/-- Writes an encoding. -/
def toJson (e : Encoding) : Json := .str e.name

end Encoding

/-- A range of account data. -/
structure DataSlice where
  offset : Nat
  length : Nat
  deriving DecidableEq, Inhabited

namespace DataSlice

/-- Reads a range. -/
def ofJson? (v : Json) : Option DataSlice :=
  match v.members? ["offset", "length"] 2 with
  | some [offset, length] => do
    some ⟨← Json.required Json.nat? offset, ← Json.required Json.nat? length⟩
  | _ => none

/-- Writes a range. -/
def toJson (s : DataSlice) : Json := .obj [("offset", .ofNat s.offset), ("length", .ofNat s.length)]

end DataSlice

/-- The natural number below 256 that a value is. -/
def Json.byte? (v : Json) : Option Nat := v.nat?.filter (· < 256)

/-- Options of account lookups. -/
structure AccountOptions where
  commitment : Option Commitment := none
  encoding : Option Encoding := none
  dataSlice : Option DataSlice := none
  minContextSlot : Option Nat := none
  deriving DecidableEq, Inhabited

namespace AccountOptions

/-- Reads account options. -/
def ofJson? (v : Json) : Option AccountOptions :=
  match v.members? ["commitment", "encoding", "dataSlice", "minContextSlot"] 4 with
  | some [commitment, encoding, dataSlice, minContextSlot] => do
    let commitment ← Json.optional Commitment.ofJson? commitment
    let encoding ← Json.optional Encoding.ofJson? encoding
    let dataSlice ← Json.optional DataSlice.ofJson? dataSlice
    let minContextSlot ← Json.optional Json.nat? minContextSlot
    some ⟨commitment, encoding, dataSlice, minContextSlot⟩
  | _ => none

/-- Writes the options that are set. -/
def toJson (o : AccountOptions) : Json :=
  .obj (Json.given "commitment" (o.commitment.map Commitment.toJson)
    ++ Json.given "encoding" (o.encoding.map Encoding.toJson)
    ++ Json.given "dataSlice" (o.dataSlice.map DataSlice.toJson)
    ++ Json.given "minContextSlot" (o.minContextSlot.map Json.ofNat))

/-- Reads at `c` unless a commitment is set. -/
def normalized (o : AccountOptions) (c : Commitment) : AccountOptions :=
  { o with commitment := some (o.commitment.getD c) }

end AccountOptions

/-- Options of transaction lookups. -/
structure TransactionOptions where
  commitment : Option Commitment := none
  encoding : Option Encoding := none
  maxSupportedVersion : Option Nat := none
  deriving DecidableEq, Inhabited

namespace TransactionOptions

/-- Reads transaction options. -/
def ofJson? (v : Json) : Option TransactionOptions :=
  match v.members? ["commitment", "encoding", "maxSupportedTransactionVersion"] 3 with
  | some [commitment, encoding, version] => do
    let commitment ← Json.optional Commitment.ofJson? commitment
    let encoding ← Json.optional Encoding.ofJson? encoding
    let version ← Json.optional Json.byte? version
    some ⟨commitment, encoding, version⟩
  | _ => none

/-- Writes the options that are set. -/
def toJson (o : TransactionOptions) : Json :=
  .obj (Json.given "commitment" (o.commitment.map Commitment.toJson)
    ++ Json.given "encoding" (o.encoding.map Encoding.toJson)
    ++ Json.given "maxSupportedTransactionVersion" (o.maxSupportedVersion.map Json.ofNat))

/-- Reads at `c`, parsed, and with versions up to 0, unless set otherwise. -/
def normalized (o : TransactionOptions) (c : Commitment) : TransactionOptions :=
  { commitment := some (o.commitment.getD c)
    encoding := some (o.encoding.getD .jsonParsed)
    maxSupportedVersion := some (o.maxSupportedVersion.getD 0) }

/-- The same options, parsed. -/
def parsed (o : TransactionOptions) : TransactionOptions := { o with encoding := some .jsonParsed }

end TransactionOptions

/-- Options of block lookups. -/
structure BlockOptions where
  commitment : Option Commitment := none
  encoding : Option Encoding := none
  transactionDetails : Option String := none
  rewards : Option Bool := none
  maxSupportedVersion : Option Nat := none
  deriving DecidableEq, Inhabited

namespace BlockOptions

/-- Reads block options. -/
def ofJson? (v : Json) : Option BlockOptions :=
  match v.members?
    ["commitment", "encoding", "transactionDetails", "rewards", "maxSupportedTransactionVersion"] 5
  with
  | some [commitment, encoding, details, rewards, version] => do
    let commitment ← Json.optional Commitment.ofJson? commitment
    let encoding ← Json.optional Encoding.ofJson? encoding
    let details ← Json.optional Json.str? details
    let rewards ← Json.optional Json.bool? rewards
    let version ← Json.optional Json.byte? version
    some ⟨commitment, encoding, details, rewards, version⟩
  | _ => none

/-- Writes the options that are set. -/
def toJson (o : BlockOptions) : Json :=
  .obj (Json.given "commitment" (o.commitment.map Commitment.toJson)
    ++ Json.given "encoding" (o.encoding.map Encoding.toJson)
    ++ Json.given "transactionDetails" (o.transactionDetails.map Json.str)
    ++ Json.given "rewards" (o.rewards.map Json.bool)
    ++ Json.given "maxSupportedTransactionVersion" (o.maxSupportedVersion.map Json.ofNat))

/-- Reads at `c`, parsed, and with versions up to 0, unless set otherwise. -/
def normalized (o : BlockOptions) (c : Commitment) : BlockOptions :=
  { o with
    commitment := some (o.commitment.getD c)
    encoding := some (o.encoding.getD .jsonParsed)
    maxSupportedVersion := some (o.maxSupportedVersion.getD 0) }

end BlockOptions

/-- A value with the slot at which the node answered. -/
structure AtSlot (α : Type) where
  slot : Nat
  value : α
  deriving DecidableEq

namespace AtSlot

/-- Reads the slot of an answer. -/
def slotOf? (v : Json) : Option Nat :=
  match v.members? ["slot"] 1 with
  | some [slot] => Json.required Json.nat? slot
  | _ => none

/-- Reads an answer whose value is read by `decode`, which is given nothing if there is no value. -/
def ofJson? {α : Type} (decode : Option Json → Option α) (v : Json) : Option (AtSlot α) :=
  match v.members? ["context", "value"] 2 with
  | some [context, value] => do some ⟨← Json.required slotOf? context, ← decode value⟩
  | _ => none

/-- Writes an answer. -/
def toJson {α : Type} (encode : α → Json) (a : AtSlot α) : Json :=
  .obj [("context", .obj [("slot", .ofNat a.slot)]), ("value", encode a.value)]

end AtSlot

end NodeRpc
