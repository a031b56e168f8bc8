import Provision.Data.OrderedMap
import Provision.Scalar

/-! The entity graph of a model document.

Every node of a document is an entity: it has a name, its parent, named children and
perhaps a scalar value. Entities are numbered in the order in which they were added
and the root is number 0. An instance refers to its type, and the two namespaces of
types are indexed by name. -/
namespace Provision

/-! ### The names that have a meaning in a model document -/

namespace Key

def components : String := "components"
def componentTypes : String := "component_types"
def relationTypes : String := "relation_types"
def description : String := "description"
def type : String := "type"
def supertype : String := "extends"
def properties : String := "properties"
def operations : String := "operations"
def relations : String := "relations"
def artifacts : String := "artifacts"
def defaultValue : String := "default_value"
def value : String := "value"
def target : String := "target"

end Key

/-! ### Entities -/

/-- The number of an entity. -/
abbrev EntityId := Nat

structure Entity where
  name : String
  parent : Option EntityId := none
  children : OrderedMap String EntityId := .empty
  value : Option Scalar := none
  /-- The entity that is this one's type. -/
  typeRef : Option EntityId := none
  deriving Inhabited

structure EntityGraph where
  entities : Array Entity
  componentTypes : OrderedMap String EntityId
  relationTypes : OrderedMap String EntityId
  deriving Inhabited

namespace EntityGraph

def root : EntityId := 0

/-- The entity with a number; beyond the last one, an entity without anything. -/
def entity (g : EntityGraph) (id : EntityId) : Entity := g.entities[id]?.getD default

def size (g : EntityGraph) : Nat := g.entities.size

/-- Whether there is nothing below the root. -/
def isEmpty (g : EntityGraph) : Bool := g.size ≤ 1

def child? (g : EntityGraph) (id : EntityId) (name : String) : Option EntityId :=
  (g.entity id).children.get? name

def children (g : EntityGraph) (id : EntityId) : List EntityId := (g.entity id).children.values

def childValue? (g : EntityGraph) (id : EntityId) (name : String) : Option Scalar :=
  (g.child? id name).bind fun c => (g.entity c).value

/-- The text of the value of a child. -/
def childText? (g : EntityGraph) (id : EntityId) (name : String) : Option String :=
  (g.childValue? id name).map Scalar.text

def componentType? (g : EntityGraph) (name : String) : Option EntityId :=
  g.componentTypes.get? name

def relationType? (g : EntityGraph) (name : String) : Option EntityId :=
  g.relationTypes.get? name

/-- A type by name, in the namespace in which `sibling` stands. -/
def typeLike? (g : EntityGraph) (sibling : EntityId) (name : String) : Option EntityId :=
  match (g.entity sibling).parent with
  | none => none
  | some parent =>
    let space := (g.entity parent).name
    if space = Key.componentTypes then g.componentType? name
    else if space = Key.relationTypes then g.relationType? name
    else none

/-- The entity reached from another by a path of names. -/
def descend? (g : EntityGraph) : EntityId → List String → Option EntityId
  | id, [] => some id
  | id, name :: rest => (g.child? id name).bind fun c => g.descend? c rest

end EntityGraph
end Provision
