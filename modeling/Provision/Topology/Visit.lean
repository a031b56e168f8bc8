import Provision.Topology.Hosting

/-! Visiting a topology.

A visitor has handlers for some of the kinds. An element goes to the handler of its kind;
a kind without one passes it on to the handler of the kind that it refines, and the generic
kind rejects it as not supported by the visitor's target. A visit takes the components in
hosting order and then the edges in the order of declaration, and stops at the first
fault. -/
namespace Provision

/-- Handlers for some kinds of components and relations. -/
structure Visitor (m : Type → Type) where
  /-- The name of the target in messages. -/
  target : String
  component? : ComponentKind → Option (ComponentId → Component → m Unit) := fun _ => none
  relation? : RelationKind → Option (Edge → m Unit) := fun _ => none

namespace Visitor

variable {m : Type → Type}

/-- The handler of each kind of component: the one given for it, else the one that it passes
its components on to. -/
def componentHandler {α : Type} (given? : ComponentKind → Option α) (reject : α) :
    ComponentKind → α :=
  let handler (k : ComponentKind) (next : α) : α := (given? k).getD next
  let generic := handler .generic reject
  let software := handler .softwareComponent generic
  let dbms := handler .dbms software
  let database := handler .database generic
  let webServer := handler .webServer software
  fun
  | .generic => generic
  | .compute => handler .compute generic
  | .softwareComponent => software
  | .dbms => dbms
  | .mysqlDbms => handler .mysqlDbms dbms
  | .database => database
  | .mysqlDatabase => handler .mysqlDatabase database
  | .webServer => webServer
  | .tomcat => handler .tomcat webServer
  | .webApplication => handler .webApplication generic

/-- The handler of each kind of relation, by the same rule. -/
def relationHandler {α : Type} (given? : RelationKind → Option α) (reject : α) :
    RelationKind → α :=
  let handler (k : RelationKind) (next : α) : α := (given? k).getD next
  let generic := handler .generic reject
  let dependsOn := handler .dependsOn generic
  fun
  | .generic => generic
  | .dependsOn => dependsOn
  | .hostedOn => handler .hostedOn dependsOn
  | .connectsTo => handler .connectsTo dependsOn

variable [Monad m] [MonadExceptOf Fault m]

/-- Rejects a component, whose kind no handler is for. -/
def rejectComponent (v : Visitor m) (_ : ComponentId) (c : Component) : m Unit :=
  throw (Fault.unsupportedKind v.target (Kind.typeName c.kind) c.name)

/-- Rejects an edge, whose kind no handler is for. -/
def rejectRelation (v : Visitor m) (e : Edge) : m Unit :=
  throw (Fault.unsupportedKind v.target (Kind.typeName e.kind)
    (e.relation.source ++ " -> " ++ e.relation.target))

def acceptComponent (v : Visitor m) (id : ComponentId) (c : Component) : m Unit :=
  componentHandler v.component? v.rejectComponent c.kind id c

def acceptRelation (v : Visitor m) (e : Edge) : m Unit :=
  relationHandler v.relation? v.rejectRelation e.kind e

/-- Every component once, hosts first. A hosting cycle is a fault before any visit. -/
def visitComponents (v : Visitor m) (t : Topology) : m Unit := do
  let order ← ofExcept t.hostingOrder
  order.forM fun id => v.acceptComponent id (t.component id)

/-- Every edge once, in the order of declaration. -/
def visitRelations (v : Visitor m) (t : Topology) : m Unit :=
  t.edges.toList.forM v.acceptRelation

def visit (v : Visitor m) (t : Topology) : m Unit := do
  v.visitComponents t
  v.visitRelations t

end Visitor
end Provision
