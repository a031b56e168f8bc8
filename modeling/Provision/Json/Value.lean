import Provision.Data.OrderedMap
import Provision.Data.Sorting
import Provision.Number.Layout

/-! Structured values of generated documents.

Objects keep the order of their members as it is given. Where a format wants the
members arranged by name, the object is made with `Json.sorted`. -/
namespace Provision

inductive Json where
  | null
  | bool (b : Bool)
  | integer (i : Int)
  | double (x : Double)
  | string (s : String)
  | array (items : List Json)
  | object (members : List (String × Json))
  deriving Inhabited

namespace Json

/-- An object with its members arranged by name; of two members with one name the later
one counts. -/
def sorted (members : List (String × Json)) : Json :=
  .object (sort (fun a b => !(decide (b.1 < a.1))) (OrderedMap.ofList members).toList)

mutual

/-- A value with the members of all its objects arranged by name. -/
def arranged : Json → Json
  | .array items => .array (arrangedItems items)
  | .object members => .sorted (arrangedMembers members)
  | v => v

def arrangedItems : List Json → List Json
  | [] => []
  | v :: rest => v.arranged :: arrangedItems rest

def arrangedMembers : List (String × Json) → List (String × Json)
  | [] => []
  | (k, v) :: rest => (k, v.arranged) :: arrangedMembers rest

end

def natural (n : Nat) : Json := .integer n

def strings (l : List String) : Json := .array (l.map .string)

/-- An object of texts, in the order of the map. -/
def texts (m : OrderedMap String String) : Json :=
  .object (m.toList.map fun (k, v) => (k, .string v))

end Json
end Provision
