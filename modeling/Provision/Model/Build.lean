import Provision.Topology.Graph

/-! From an entity graph to a deployment model.

Every instance below `components` becomes a component and every entry below its
`relations` an edge. A model is only built if every type resolves, every relation has a
target that exists, and no component has two hosts. Targets are looked up after all
components are known, so the order of declaration does not matter. -/
namespace Provision

/-- A deployment model: a name, a description, and what is to be deployed. -/
structure Model where
  name : String
  description : Option String := none
  topology : Topology := .empty
  deriving Inhabited

def Model.identifier (m : Model) : String := Text.identifier m.name

namespace Model

/-- A relation whose target is still a name. -/
structure Pending where
  source : ComponentId
  relation : Relation

/-- A relation: an entity with the name of its type. Its own value is the target, else
its child `target`. -/
def relationOf (g : EntityGraph) (source : String) (id : EntityId) : Except Fault Relation := do
  let e := g.entity id
  let some target := (e.value.map Scalar.text).or (g.childText? id Key.target)
    | throw (.unknownComponent source e.name "")
  let types ← g.chainOf id
  return {
    name := e.name
    kind := Kind.resolve (g.names types)
    source
    target
    properties := g.propertiesOf (id :: types) }

/-- The relations of one entry; an entry without relations is malformed. -/
def relationsOfEntry (g : EntityGraph) (source : String) (entry : EntityId) :
    Except Fault (List Relation) :=
  match g.children entry with
  | [] =>
    let found :=
      match (g.entity entry).value with
      | some v => " (found '" ++ v.text ++ "')"
      | none => ""
    .error (.invalid ("relation entry of '" ++ source ++
      "' must map a relation type to a target, e.g. '- hosted_on: <component>'" ++ found))
  | relations => relations.mapM (relationOf g source)

/-- The relations of an instance, in order. -/
def relationsOf (g : EntityGraph) (source : String) (id : EntityId) :
    Except Fault (List Relation) := do
  match g.child? id Key.relations with
  | none => return []
  | some relations =>
    return (← (g.children relations).mapM (relationsOfEntry g source)).flatten

/-- Adds an instance and notes its relations. -/
def addInstance (g : EntityGraph) (state : Topology × List Pending) (id : EntityId) :
    Except Fault (Topology × List Pending) := do
  let c ← Component.ofEntity g id
  let (source, topology) := state.1.addComponent c
  let relations ← relationsOf g c.name id
  return (topology, state.2 ++ relations.map fun relation => { source, relation })

/-- Adds the edge of a relation whose target is a component. -/
def connect (t : Topology) (p : Pending) : Except Fault Topology :=
  match t.find? p.relation.target with
  | some target => .ok (t.addRelation p.source target p.relation).2
  | none => .error (.unknownComponent p.relation.source p.relation.name p.relation.target)

/-- The names of a component's hosts, one for each hosting edge. -/
def hostNames (t : Topology) (id : ComponentId) : List String :=
  ((t.outgoing id).filter fun e => e.isA .hostedOn).map fun e => (t.component e.target).name

/-- No component may have two hosts. -/
def checkHosts (t : Topology) : Except Fault Unit :=
  t.ids.forM fun id =>
    if 1 < (hostNames t id).length then
      throw (.multipleHosts (t.component id).name (hostNames t id))
    else return ()

def build (name : String) (g : EntityGraph) : Except Fault Model := do
  let instances :=
    match g.child? EntityGraph.root Key.components with
    | some components => g.children components
    | none => []
  let (components, pending) ← instances.foldlM (addInstance g) (.empty, [])
  let topology ← pending.foldlM connect components
  checkHosts topology
  return { name, description := g.childText? EntityGraph.root Key.description, topology }

end Model
end Provision
