import NodeRpc.Json.Basic

/-!
# Canonical JSON

Two values that differ only in the order of fields and in fields that are null, at any depth, have
one canonical form: null fields are dropped and the others sorted by key. Arrays keep their order
and their nulls.
-/

namespace NodeRpc.Json

/-- The fields in the order of their keys. -/
def sortFields (fields : List (String × Json)) : List (String × Json) :=
  fields.mergeSort fun p q => decide (p.1 ≤ q.1)

mutual

/-- The canonical form of a value. -/
def canonical : Json → Json
  | .arr items => .arr (canonicalItems items)
  | .obj fields => .obj (sortFields (canonicalFields fields))
  | v => v

/-- The canonical forms of the items of an array. -/
def canonicalItems : List Json → List Json
  | [] => []
  | v :: vs => canonical v :: canonicalItems vs

/-- The fields that are not null, in canonical form. -/
def canonicalFields : List (String × Json) → List (String × Json)
  | [] => []
  | (k, v) :: vs => if v.isNull then canonicalFields vs else (k, canonical v) :: canonicalFields vs

end

end NodeRpc.Json
