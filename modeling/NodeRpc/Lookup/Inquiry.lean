import NodeRpc.Lookup.Key
import NodeRpc.Lookup.Loaders
import NodeRpc.Lookup.Selection

/-!
# Inquiries

An inquiry seeks one entity after the other: an account, a transaction or a block by itself, the
owner of an account, or an account followed by its owner, the owner's owner and so on. If nothing
but the identity of the last entity is wanted, it is answered without being sought.
-/

namespace NodeRpc

/-- Something that can be looked up, with options filled in. -/
inductive Entity where
  | account (key : AccountKey)
  | transaction (key : TransactionKey)
  | block (slot : Nat) (options : BlockOptions)
  deriving DecidableEq, Inhabited

namespace Entity

/-- The field that holds the identity. -/
def field : Entity → String
  | .account _ => "address"
  | .transaction _ => "signature"
  | .block .. => "slot"

/-- The identity. -/
def id : Entity → Json
  | .account k => .str k.address
  | .transaction k => .str k.signature
  | .block slot _ => .ofNat slot

/-- The entity reduced to its identity. -/
def bare (e : Entity) : Json := .obj [(e.field, e.id)]

/-- Entities with the same key are loaded once. -/
def key : Entity → LookupKey
  | .account k => .make "getAccountInfo" (.arr [.str k.address, k.options.toJson])
  | .transaction k => .make "getTransaction" (.arr [.str k.signature, k.options.toJson])
  | .block slot o => .make "getBlock" (.arr [.ofNat slot, o.toJson])

/-- An account, with options filled in for the client's commitment. -/
def ofAccount (c : Client) (address : String) (o : AccountOptions) : Entity :=
  .account ⟨address, o.normalized c.commitment⟩

/-- A transaction, with options filled in. -/
def ofTransaction (c : Client) (signature : String) (o : TransactionOptions) : Entity :=
  .transaction ⟨signature, o.normalized c.commitment⟩

/-- A block, with options filled in. -/
def ofBlock (c : Client) (slot : Nat) (o : BlockOptions) : Entity :=
  .block slot (o.normalized c.commitment)

end Entity

/-- What an inquiry comes to. -/
inductive Finding where
  | entity (v : Option Json)
  | chain (accounts : List Json)
  deriving DecidableEq

/-- What is done with the entity that is sought. -/
inductive Goal where
  /-- It is the answer. -/
  | itself
  /-- Its owner is the answer. -/
  | owner (options : AccountOptions) (selection : Selection)
  /-- It is put behind the accounts `found`, and its owner is next unless it is one of `seen`. -/
  | chain (options : AccountOptions) (found : List Json) (seen : List String)
  deriving DecidableEq

/-- How far an inquiry has come. -/
inductive Inquiry where
  | seeks (e : Entity) (goal : Goal)
  | ended (result : Except LookupError Finding)
  deriving DecidableEq

/-- The owner of an account, if it has one. -/
def ownerOf (account : Json) : Except LookupError (Option String) :=
  match account.get? "owner" with
  | none | some .null => .ok none
  | some (.str owner) => .ok (some owner)
  | some v => .error (.decode "account" ("owner is not an address: " ++ v.compact))

namespace Inquiry

/-- Looks up one entity. -/
def select (e : Entity) (selection : Selection) : Inquiry :=
  if selection.only e.field then .ended (.ok (.entity (some e.bare))) else .seeks e .itself

/-- Looks up the owner of an account. -/
def owner (c : Client) (address : String) (o : AccountOptions) (selection : Selection) : Inquiry :=
  .seeks (.ofAccount c address o) (.owner o selection)

/-- Looks up an account and all its owners. -/
def chain (c : Client) (address : String) (o : AccountOptions) : Inquiry :=
  .seeks (.ofAccount c address o) (.chain o [] [address])

/-- How an inquiry goes on with the account that was found, whose owner is read. -/
def afterOwner (c : Client) (account : Json) (owner : Option String) : Goal → Inquiry
  | .itself => .ended (.ok (.entity (some account)))
  | .owner o selection =>
    match owner with
    | some owner => select (.ofAccount c owner o) selection
    | none => .ended (.ok (.entity none))
  | .chain o found seen =>
    let found := found ++ [account]
    match owner with
    | some owner =>
      if owner ∈ seen then .ended (.ok (.chain found))
      else .seeks (.ofAccount c owner o) (.chain o found (owner :: seen))
    | none => .ended (.ok (.chain found))

/-- How an inquiry goes on when the entity that it seeks has come to `loaded`. -/
def after (c : Client) (goal : Goal) (loaded : KeyResult) : Inquiry :=
  match loaded, goal with
  | .error cause, _ => .ended (.error cause)
  | .ok .null, .itself | .ok .null, .owner .. => .ended (.ok (.entity none))
  | .ok .null, .chain _ found _ => .ended (.ok (.chain found))
  | .ok v, .itself => .ended (.ok (.entity (some v)))
  | .ok v, goal =>
    match ownerOf v with
    | .ok owner => afterOwner c v owner goal
    | .error cause => .ended (.error cause)

end Inquiry

end NodeRpc
