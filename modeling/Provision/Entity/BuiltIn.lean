import Provision.Entity.Graph
import Provision.Yaml.Value

/-! The built-in types.

Every model can use these types without declaring them. They form a document of their
own, which is read before the model's. -/
namespace Provision.BuiltIn
open Yaml (Value)

def entries (fields : List (String × Value)) : List (Value × Value) :=
  fields.map fun (name, v) => (.string name, v)

def mapping (fields : List (String × Value)) : Value := .mapping (entries fields)

/-- A field with the name of the supertype. -/
def refining (supertype : String) : String × Value := (Key.supertype, .string supertype)

def described (text : String) : String × Value := (Key.description, .string text)

/-- A declaration of a property: its type and perhaps a default. -/
def property (name type : String) (default? : Option Value := none) : String × Value :=
  (name, mapping ((Key.type, .string type) :: (default?.map (Key.defaultValue, ·)).toList))

def properties (declarations : List (String × Value)) : String × Value :=
  (Key.properties, mapping declarations)

def componentTypes : List (String × Value) :=
  [("base", mapping [described "Root of every component type"]),
    ("compute", mapping [refining "base", described "A virtual or physical machine",
      properties [property "os_family" "string" (some (.string "linux")),
        property "machine_image" "string" (some (.string "ubuntu")),
        property "instance_type" "string" (some (.string "m1.small")),
        property "key_name" "string", property "public_key" "string"]]),
    ("software_component", mapping [refining "base"]),
    ("dbms", mapping [refining "software_component",
      properties [property "port" "integer", property "root_password" "string"]]),
    ("mysql_dbms", mapping [refining "dbms",
      properties [property "port" "integer" (some (.integer 3306))]]),
    ("database", mapping [refining "base",
      properties [property "schema_name" "string", property "user" "string",
        property "password" "string"]]),
    ("mysql_database", mapping [refining "database"]),
    ("web_server", mapping [refining "software_component",
      properties [property "port" "integer" (some (.integer 80))]]),
    ("tomcat", mapping [refining "web_server",
      properties [property "port" "integer" (some (.integer 8080))]]),
    ("web_application", mapping [refining "base"])]

def relationTypes : List (String × Value) :=
  [("root_relation", mapping [described "Root of every relation type"]),
    ("depends_on", mapping [refining "root_relation"]),
    ("hosted_on", mapping [refining "depends_on"]),
    ("connects_to", mapping [refining "depends_on"])]

/-- The document of the built-in types. -/
def document : List (Value × Value) :=
  entries [(Key.componentTypes, mapping componentTypes), (Key.relationTypes, mapping relationTypes)]

end Provision.BuiltIn
