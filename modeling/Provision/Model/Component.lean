import Provision.Model.Kind
import Provision.Model.Resolution

/-! Components and relations.

A component is an instance with everything its types give it, already resolved: its
kind, its properties and its operations. A relation connects two components by name. -/
namespace Provision

structure Component where
  name : String
  kind : ComponentKind := .generic
  /-- The names of its types, nearest first. -/
  chain : List String := []
  description : Option String := none
  properties : OrderedMap String Property := .empty
  operations : OrderedMap String Operation := .empty
  deriving Inhabited

namespace Component

/-- The component that an instance stands for. -/
def ofEntity (g : EntityGraph) (id : EntityId) : Except Fault Component := do
  let types ← g.chainOf id
  let chain := g.names types
  return {
    name := (g.entity id).name
    kind := Kind.resolve chain
    chain
    description := g.childText? id Key.description
    properties := g.propertiesOf (id :: types)
    operations := g.operationsOf (id :: types) }

/-- The name by which generated documents know the component. -/
def identifier (c : Component) : String := Text.identifier c.name

def isA (c : Component) (k : ComponentKind) : Bool := Kind.isA c.kind k

def propertyTexts (c : Component) : OrderedMap String String := Provision.propertyTexts c.properties

def orderedOperations (c : Component) : List Operation :=
  Provision.orderedOperations c.operations

/-- The operations that run a script, in the order in which they run. -/
def scriptedOperations (c : Component) : List Operation :=
  c.orderedOperations.filter Operation.hasArtifacts

def read {α : Type} (c : Component) (property : String) (as : Reading α) :
    Except Fault (Option α) :=
  readProperty c.name c.properties property as

/-! ### The properties of the kinds -/

def osFamily (c : Component) : Except Fault (Option String) := c.read "os_family" .string
def machineImage (c : Component) : Except Fault (Option String) := c.read "machine_image" .string
def instanceType (c : Component) : Except Fault (Option String) := c.read "instance_type" .string
def keyName (c : Component) : Except Fault (Option String) := c.read "key_name" .string
def publicKey (c : Component) : Except Fault (Option String) := c.read "public_key" .string
def port (c : Component) : Except Fault (Option UInt16) := c.read "port" .port
def rootPassword (c : Component) : Except Fault (Option String) := c.read "root_password" .string
def schemaName (c : Component) : Except Fault (Option String) := c.read "schema_name" .string
def user (c : Component) : Except Fault (Option String) := c.read "user" .string
def password (c : Component) : Except Fault (Option String) := c.read "password" .string

/-- The port that a database system or a web server listens on. -/
def servicePort (c : Component) : Except Fault (Option UInt16) :=
  if c.isA .dbms || c.isA .webServer then c.port else .ok none

end Component

structure Relation where
  /-- The name of its type, as the model writes it. -/
  name : String
  kind : RelationKind := .generic
  source : String
  target : String
  properties : OrderedMap String Property := .empty
  deriving Inhabited

end Provision
