import Provision.Output.Resource

/-! Heat templates.

A template has parameters and resources. A resource refers to others by name and lists
the names of the resources that have to be there before it. -/
namespace Provision.Heat

/-- A parameter, perhaps with a default; all parameters are strings. -/
structure Parameter where
  value : Option String := none

structure Template where
  description : Option String := none
  parameters : OrderedMap String Parameter := .empty
  graph : OutputGraph Resource := .empty

def version : String := "2018-08-31"

/-! ### References -/

def getParam (name : String) : Json := .object [("get_param", .string name)]

def getResource (name : String) : Json := .object [("get_resource", .string name)]

/-! ### As a document -/

def Parameter.toJson (p : Parameter) : Json :=
  .object (("type", .string "string") :: (p.value.map fun v => ("default", Json.string v)).toList)

/-- A resource with the names that it depends on. Empty parts are left out. -/
def resourceJson (r : Resource) (dependsOn : List String) : Json :=
  .object <|
    [("type", .string r.type)] ++
      (if r.properties.isEmpty then [] else [("properties", .object r.properties.toList)]) ++
      (if dependsOn.isEmpty then [] else [("depends_on", .strings dependsOn)])

/-- The resources by name, in the order in which they were added. -/
def Template.resources (t : Template) : OrderedMap String Json :=
  .ofList ((t.graph.nodes.toList.zipIdx).map fun (r, id) =>
    (r.name, resourceJson r (t.graph.dependencyNames id)))

def Template.toJson (t : Template) : Json :=
  .object <|
    [("heat_template_version", .string version)] ++
      (t.description.map fun d => ("description", Json.string d)).toList ++
      [("parameters", .object (t.parameters.map Parameter.toJson).toList),
        ("resources", .object t.resources.toList)]

end Provision.Heat
