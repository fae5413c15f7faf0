import NodeRpc.Json.Canonical
import NodeRpc.Json.Printer

/-!
# Lookup keys

Lookups that ask the node for the same thing have the same key: the method, and the canonical text
of the parameters.
-/

namespace NodeRpc

/-- What a lookup asks for. -/
structure LookupKey where
  text : String
  deriving DecidableEq, Inhabited

namespace LookupKey

/-- The key of a call of `method`. -/
def make (method : String) (params : Json) : LookupKey := ⟨method ++ ":" ++ params.canonical.compact⟩

/-- The keys in the order of their texts, each once. -/
def sort (keys : List LookupKey) : List LookupKey :=
  (keys.mergeSort fun a b => decide (a.text ≤ b.text)).eraseReps

end LookupKey

end NodeRpc
