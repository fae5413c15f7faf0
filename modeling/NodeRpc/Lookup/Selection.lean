/-!
# Selections

What a resolver wants of an entity: everything, or certain fields.
-/

namespace NodeRpc

/-- The fields asked for. -/
inductive Selection where
  | all
  | fields (names : List String)
  deriving DecidableEq, Inhabited

/-- Whether nothing but `field` is asked for; so also if no field is. -/
def Selection.only (s : Selection) (field : String) : Bool :=
  match s with
  | .all => false
  | .fields names => names.all (· == field)

end NodeRpc
