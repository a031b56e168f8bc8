import Provision.Json.Value
import Provision.Output.Graph

/-! Generated resources. -/
namespace Provision

/-- A resource of a generated document. -/
structure Resource where
  name : String
  type : String
  properties : OrderedMap String Json := .empty
  deriving Inhabited

namespace Resource

instance : Named Resource := ⟨Resource.name⟩

def ofProperties (name type : String) (properties : List (String × Json)) : Resource :=
  { name, type, properties := .ofList properties }

def set (r : Resource) (key : String) (v : Json) : Resource :=
  { r with properties := r.properties.insert key v }

end Resource
end Provision
