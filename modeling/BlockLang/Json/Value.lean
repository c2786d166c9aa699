import BlockLang.Decimal.Double

/-! # JSON values

A number keeps its form: a whole number that fits 64 bits, or a double. An object maps each key
to one value and keeps its keys in order.
-/

namespace BlockLang

inductive Json where
  | null
  | bool (value : Bool)
  | whole (value : Int)
  | double (value : Double)
  | text (value : String)
  | array (items : List Json)
  | object (members : List (String × Json))
  deriving Inhabited, Repr

namespace Json

/-- A map from keys to values, in the order of its keys. The order is what makes
two equal maps equal lists. -/
abbrev Members := List (String × Json)

def Members.insert (key : String) (value : Json) : Members → Members
  | [] => [(key, value)]
  | (k, v) :: rest =>
    if key < k then (key, value) :: (k, v) :: rest
    else if key = k then (key, value) :: rest
    else (k, v) :: Members.insert key value rest

/-- The object with the given members, the last of a repeated key counting. -/
def ofMembers (members : List (String × Json)) : Json :=
  .object (members.foldl (fun m (k, v) => Members.insert k v m) [])

def get? (value : Json) (key : String) : Option Json :=
  match value with
  | .object members => members.lookup key
  | _ => none

end Json

end BlockLang
