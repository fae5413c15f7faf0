import NodeRpc.Json.Basic

/-!
# Decoding records and names

A record is written as an object with its fields, or as an array of its fields in their order of
declaration. Unknown fields of an object are ignored. An optional field may be missing or null. A
name of a fixed set is written as a text, or as an object whose only field has that name and the
value null.
-/

namespace NodeRpc.Json

/-- What is given for each of the declared fields `names`; an array has to give the first `least`
of them, and no more than there are. -/
def members? (names : List String) (least : Nat) (v : Json) : Option (List (Option Json)) :=
  match v with
  | .obj fields => some (names.map fun k => Table.get? fields k)
  | .arr items =>
    if least ≤ items.length ∧ items.length ≤ names.length then
      some (items.map some ++ List.replicate (names.length - items.length) none)
    else none
  | _ => none

/-- A field that may be missing or null. -/
def optional {α : Type} (decode : Json → Option α) : Option Json → Option (Option α)
  | none | some .null => some none
  | some v => (decode v).map some

/-- A field that has to be there. -/
def required {α : Type} (decode : Json → Option α) (v : Option Json) : Option α := v.bind decode

/-- A field that has the value `fallback` if it is missing. -/
def defaulted {α : Type} (fallback : α) (decode : Json → Option α) : Option Json → Option α
  | none => some fallback
  | some v => decode v

/-- The name that a value gives. -/
def name? : Json → Option String
  | .str s => some s
  | .obj [(s, .null)] => some s
  | _ => none

/-- The list that an array decodes to. -/
def list? {α : Type} (decode : Json → Option α) (v : Json) : Option (List α) :=
  v.items?.bind fun items => items.mapM decode

/-- A value that may be null. -/
def nullable {α : Type} (decode : Json → Option α) (v : Json) : Option (Option α) :=
  optional decode (some v)

/-- A field that is written only if it has a value. -/
def given (key : String) (v : Option Json) : List (String × Json) :=
  match v with
  | some v => [(key, v)]
  | none => []

end NodeRpc.Json
