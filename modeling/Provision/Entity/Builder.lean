import Provision.Entity.Graph

/-! Building an entity graph.

Entities are added one below another. A second child of the same name takes the place
of the first, which stays where it was numbered but can no longer be reached from the
root. Finishing the graph indexes the types and gives every instance below
`components`, and every relation of such an instance, the type it names if there is
one. -/
namespace Provision

structure EntityGraph.Builder where
  entities : Array Entity

namespace EntityGraph.Builder

/-- Only the root. -/
def start : Builder := ⟨#[{ name := "" }]⟩

def entity (b : Builder) (id : EntityId) : Entity := b.entities[id]?.getD default

def child? (b : Builder) (id : EntityId) (name : String) : Option EntityId :=
  (b.entity id).children.get? name

/-- The number that the next entity gets. -/
def next (b : Builder) : EntityId := b.entities.size

/-- Adds an entity below another and returns its number. -/
def add (b : Builder) (parent : EntityId) (name : String) (value : Option Scalar) :
    EntityId × Builder :=
  let id := b.next
  let entities := b.entities.push { name, parent := some parent, value }
  (id, ⟨entities.modify parent fun p => { p with children := p.children.insert name id }⟩)

/-- The children of a child of the root. -/
def namespaceIndex (b : Builder) (name : String) : OrderedMap String EntityId :=
  match b.child? EntityGraph.root name with
  | some id => (b.entity id).children
  | none => .empty

/-- The types of an instance's relations: a relation is a child of an entry below
`relations` and has the name of its type. -/
def relationRefs (b : Builder) (types : OrderedMap String EntityId) (instanceId : EntityId) :
    List (EntityId × EntityId) :=
  match b.child? instanceId Key.relations with
  | none => []
  | some relations =>
    (b.entity relations).children.values.flatMap fun entry =>
      (b.entity entry).children.toList.filterMap fun (name, relation) =>
        (types.get? name).map fun t => (relation, t)

/-- The type of an instance: the one that its `type` names. -/
def instanceRef (b : Builder) (types : OrderedMap String EntityId) (instanceId : EntityId) :
    List (EntityId × EntityId) :=
  ((b.child? instanceId Key.type).bind fun t => (b.entity t).value).toList.flatMap fun name =>
    (types.get? name.text).toList.map fun t => (instanceId, t)

/-- Every entity that has a type, with its type. -/
def typeRefs (b : Builder) : List (EntityId × EntityId) :=
  (b.namespaceIndex Key.components).values.flatMap fun i =>
    b.instanceRef (b.namespaceIndex Key.componentTypes) i ++
      b.relationRefs (b.namespaceIndex Key.relationTypes) i

def assign (entities : Array Entity) (ref : EntityId × EntityId) : Array Entity :=
  entities.modify ref.1 fun e => { e with typeRef := some ref.2 }

def build (b : Builder) : EntityGraph :=
  { entities := b.typeRefs.foldl assign b.entities
    componentTypes := b.namespaceIndex Key.componentTypes
    relationTypes := b.namespaceIndex Key.relationTypes }

theorem size_add (b : Builder) (parent : EntityId) (name : String) (value : Option Scalar) :
    (b.add parent name value).2.entities.size = b.entities.size + 1 := by
  simp [add]

end EntityGraph.Builder
end Provision
