import Provision.Entity.Inheritance
import Provision.Model.Operation
import Provision.Model.Property

/-! What an entity has by itself and by inheritance.

The declarations of an instance come first, then those of its types from the nearest
to the farthest. Properties merge field by field; of an operation the nearest
declaration counts as a whole. -/
namespace Provision.EntityGraph

/-- The chain of an entity's type. -/
def chainOf (g : EntityGraph) (id : EntityId) : Except Fault (List EntityId) :=
  match (g.entity id).typeRef with
  | some t => g.typeChain t
  | none => .error (.unresolvableType (g.entity id).name (g.childText? id Key.type))

/-- What an entity declares below one of its children. -/
def declared (g : EntityGraph) (id : EntityId) (container : String) : List EntityId :=
  match g.child? id container with
  | some c => g.children c
  | none => []

/-- What a list of owners declares, nearest owner first. -/
def declaredBy (g : EntityGraph) (owners : List EntityId) (container : String) : List EntityId :=
  owners.flatMap fun o => g.declared o container

/-- Merges one more declaration of a property, farther than all before. -/
def mergeProperty (m : OrderedMap String Property) (p : Property) : OrderedMap String Property :=
  match m.get? p.name with
  | some near => m.insert p.name (near.inherit p)
  | none => m.insert p.name p

/-- The properties that a list of owners declares, nearest owner first. -/
def propertiesOf (g : EntityGraph) (owners : List EntityId) : OrderedMap String Property :=
  ((g.declaredBy owners Key.properties).map (Property.ofEntity g)).foldl mergeProperty .empty

/-- The operations that a list of owners declares, nearest owner first. -/
def operationsOf (g : EntityGraph) (owners : List EntityId) : OrderedMap String Operation :=
  ((g.declaredBy owners Key.operations).map (Operation.ofEntity g)).foldl
    (fun m o => m.insertNew o.name o) .empty

def properties (g : EntityGraph) (id : EntityId) : Except Fault (OrderedMap String Property) := do
  return g.propertiesOf (id :: (← g.chainOf id))

def operations (g : EntityGraph) (id : EntityId) : Except Fault (OrderedMap String Operation) := do
  return g.operationsOf (id :: (← g.chainOf id))

end Provision.EntityGraph

namespace Provision

/-- The values of properties as text; those without a value are left out. -/
def propertyTexts (properties : OrderedMap String Property) : OrderedMap String String :=
  .ofList (properties.toList.filterMap fun (name, p) => p.value.map fun v => (name, v.text))

/-- Reads a property of an entity as a value of a type. A property that is absent or has
no value reads as nothing. -/
def readProperty {α : Type} (entity : String) (properties : OrderedMap String Property)
    (name : String) (as : Reading α) : Except Fault (Option α) :=
  match (properties.get? name).bind Property.value with
  | none => .ok none
  | some v =>
    match as.read v with
    | some x => .ok (some x)
    | none => .error (.typeMismatch entity name as.expected v.text)

/-- Reads a property of an entity as a value of a type. -/
def EntityGraph.propertyAs {α : Type} (g : EntityGraph) (id : EntityId) (property : String)
    (as : Reading α) : Except Fault (Option α) := do
  readProperty (g.entity id).name (← g.properties id) property as

/-- The operations in the order in which they run. -/
def orderedOperations (operations : OrderedMap String Operation) : List Operation :=
  Operation.inOrder operations.values

end Provision
