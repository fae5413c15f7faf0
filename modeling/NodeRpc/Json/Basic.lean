import NodeRpc.Table
import NodeRpc.Decimal.Binary64

/-!
# JSON values

Objects keep the order in which their keys first came. A number is an integer where its text is an
integer literal between `-2 ^ 63` and `2 ^ 64 - 1`, and a double otherwise; the two never stand
for each other.
-/

namespace NodeRpc

/-- A JSON value. -/
inductive Json where
  | null
  | bool (value : Bool)
  | int (value : Int)
  | float (value : Binary64)
  | str (value : String)
  | arr (items : List Json)
  | obj (fields : List (String × Json))
  deriving Inhabited

namespace Json

mutual

/-- Whether two values are equal, the order of fields included. -/
def same : Json → Json → Bool
  | .null, .null => true
  | .bool a, .bool b => a == b
  | .int a, .int b => a == b
  | .float a, .float b => decide (a = b)
  | .str a, .str b => a == b
  | .arr a, .arr b => sameItems a b
  | .obj a, .obj b => sameFields a b
  | _, _ => false

/-- Whether two lists of items are equal. -/
def sameItems : List Json → List Json → Bool
  | [], [] => true
  | a :: as, b :: bs => same a b && sameItems as bs
  | _, _ => false

/-- Whether two lists of fields are equal. -/
def sameFields : List (String × Json) → List (String × Json) → Bool
  | [], [] => true
  | (k, a) :: as, (l, b) :: bs => k == l && same a b && sameFields as bs
  | _, _ => false

end

mutual

theorem same_iff : ∀ a b : Json, same a b = true ↔ a = b
  | .null, b => by cases b <;> simp [same]
  | .bool _, b => by cases b <;> simp [same]
  | .int _, b => by cases b <;> simp [same]
  | .float _, b => by cases b <;> simp [same]
  | .str _, b => by cases b <;> simp [same]
  | .arr as, b => by cases b <;> simp [same, sameItems_iff as]
  | .obj as, b => by cases b <;> simp [same, sameFields_iff as]

theorem sameItems_iff : ∀ as bs : List Json, sameItems as bs = true ↔ as = bs
  | [], bs => by cases bs <;> simp [sameItems]
  | a :: as, bs => by cases bs <;> simp [sameItems, same_iff a, sameItems_iff as]

theorem sameFields_iff : ∀ as bs : List (String × Json), sameFields as bs = true ↔ as = bs
  | [], bs => by cases bs <;> simp [sameFields]
  | (k, a) :: as, bs => by
    cases bs with
    | nil => simp [sameFields]
    | cons p bs =>
      obtain ⟨l, b⟩ := p
      simp [sameFields, same_iff a, sameFields_iff as]

end

instance : DecidableEq Json := fun a b => decidable_of_iff _ (same_iff a b)

/-- The fields of an object, and no fields for any other value. -/
def fields : Json → Table String Json
  | .obj fields => fields
  | _ => []

/-- The field `k` of an object. -/
def get? (v : Json) (k : String) : Option Json := Table.get? v.fields k

/-- Whether the value is `null`. -/
def isNull : Json → Bool
  | .null => true
  | _ => false

/-- The unsigned 64-bit integer that the value is. -/
def nat? : Json → Option Nat
  | .int n => if 0 ≤ n ∧ n < Nat.pow 2 64 then some n.toNat else none
  | _ => none

/-- The signed 64-bit integer that the value is. -/
def int? : Json → Option Int
  | .int n => if -Nat.pow 2 63 ≤ n ∧ n < Nat.pow 2 63 then some n else none
  | _ => none

/-- The text that the value is. -/
def str? : Json → Option String
  | .str s => some s
  | _ => none

/-- The truth value that the value is. -/
def bool? : Json → Option Bool
  | .bool b => some b
  | _ => none

/-- The items of an array. -/
def items? : Json → Option (List Json)
  | .arr items => some items
  | _ => none

/-- A natural number as a value. -/
def ofNat (n : Nat) : Json := .int n

/-- Sets field `k` of an object to `v`; any other value is returned as it is. -/
def set (w : Json) (k : String) (v : Json) : Json :=
  match w with
  | .obj fields => .obj (Table.put fields k v)
  | w => w

mutual

/-- Whether the keys of every object in the value are pairwise distinct. -/
def WellFormed : Json → Prop
  | .arr items => WellFormedItems items
  | .obj fields => (fields.map (·.1)).Nodup ∧ WellFormedFields fields
  | _ => True

/-- `WellFormed` for every item of an array. -/
def WellFormedItems : List Json → Prop
  | [] => True
  | v :: vs => WellFormed v ∧ WellFormedItems vs

/-- `WellFormed` for the value of every field. -/
def WellFormedFields : List (String × Json) → Prop
  | [] => True
  | (_, v) :: vs => WellFormed v ∧ WellFormedFields vs

end

mutual

/-- How many arrays and objects lie around the innermost value, counting this one. -/
def depth : Json → Nat
  | .arr items => depthItems items + 1
  | .obj fields => depthFields fields + 1
  | _ => 0

/-- The greatest depth of an item. -/
def depthItems : List Json → Nat
  | [] => 0
  | v :: vs => max (depth v) (depthItems vs)

/-- The greatest depth of a field's value. -/
def depthFields : List (String × Json) → Nat
  | [] => 0
  | (_, v) :: vs => max (depth v) (depthFields vs)

end

mutual

/-- How many values there are in the value, counting this one. -/
def size : Json → Nat
  | .arr items => sizeItems items + 1
  | .obj fields => sizeFields fields + 1
  | _ => 1

/-- How many values there are in the items. -/
def sizeItems : List Json → Nat
  | [] => 0
  | v :: vs => size v + sizeItems vs

/-- How many values there are in the fields. -/
def sizeFields : List (String × Json) → Nat
  | [] => 0
  | (_, v) :: vs => size v + sizeFields vs

end

end Json

end NodeRpc
