import Provision.Azure.Expression
import Provision.Output.Derived

/-! Azure resources and templates.

A resource requires parameters and variables of its template, and may own other
resources. A template has what its resources require, and lists the resources, each
behind those that it owns. -/
namespace Provision.Azure

/-- What a resource requires of its template. -/
inductive Requirement where
  | parameter (definition : Content)
  | variableOf (value : Content)
  deriving Inhabited

/-- The definition of a parameter, perhaps with a default. -/
def parameterDefinition (type : String) (fallback : Option Content := none) : Content :=
  .object (("type", .text type) :: (fallback.map (("defaultValue", ·))).toList)

structure Resource where
  type : String
  apiVersion : String
  name : Term
  properties : Content := .object []
  dependsOn : List Term := []
  requirements : OrderedMap String Requirement := .empty
  deriving Inhabited

namespace Resource

/-- A resource as every one starts: it requires to know its location. -/
def start (type apiVersion : String) (name : Term) : Resource :=
  { type, apiVersion, name
    requirements := .ofList
      [("location", .parameter
        (parameterDefinition "string" (some (.expression (.code "resourceGroup().location")))))] }

/-- Adds to what a resource requires. -/
def requiring (r : Resource) (needed : List (String × Requirement)) : Resource :=
  { r with requirements := r.requirements.extend needed }

/-- The expression by which other resources refer to a resource. -/
def id (r : Resource) : Term :=
  .expression (.call "resourceId" [.literal r.type, r.name.asExpression])

/-- A resource as a member of the template's list. -/
def content (r : Resource) : Content :=
  .object <|
    [("type", .text r.type), ("apiVersion", .text r.apiVersion), ("name", .term r.name),
      ("location", .expression (.parameterValue "location")), ("properties", r.properties)] ++
      if r.dependsOn.isEmpty then [] else [("dependsOn", .array (r.dependsOn.map .term))]

end Resource

/-! ### Templates -/

/-- A resource with the resources that it owns. -/
abbrev ResourceTree := Composite Resource

namespace ResourceTree

def resource (t : ResourceTree) : Resource := t.value

/-- What a resource and those that it owns require. -/
def requirements (t : ResourceTree) : OrderedMap String Requirement :=
  t.collect Resource.requirements

/-- The resources, each behind those that it owns. -/
def flatten (t : ResourceTree) : List Resource := t.postorder

end ResourceTree

structure Template where
  parameters : OrderedMap String Content := .empty
  variableValues : OrderedMap String Content := .empty
  resources : List Resource := []

namespace Template

/-- Adds what a resource requires. Parameters and variables have names of their own. -/
def require (t : Template) (needed : String × Requirement) : Template :=
  match needed with
  | (name, .parameter definition) => { t with parameters := t.parameters.insert name definition }
  | (name, .variableOf value) => { t with variableValues := t.variableValues.insert name value }

/-- Adds a resource with all that it owns. -/
def add (t : Template) (tree : ResourceTree) : Template :=
  let t := tree.requirements.toList.foldl require t
  { t with resources := t.resources ++ tree.flatten }

def ofTrees (trees : List ResourceTree) : Template := trees.foldl add {}

def schema : String :=
  "https://schema.management.azure.com/schemas/2019-04-01/deploymentTemplate.json#"

def contentsJson (m : OrderedMap String Content) : Json := .object (m.map Content.toJson).toList

def toJson (t : Template) : Json :=
  .object
    [("$schema", .string schema), ("contentVersion", .string "1.0.0.0"),
      ("parameters", contentsJson t.parameters), ("variables", contentsJson t.variableValues),
      ("resources", .array (t.resources.map fun r => r.content.toJson))]

end Template
end Provision.Azure
