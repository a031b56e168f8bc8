/-! Kinds of components and relations.

Models declare types freely; the backends know a closed set of kinds. A kind has a
lineage: itself, then the kinds it refines up to the generic one. An instance has the
kind of the nearest type in its chain that names one, and the generic kind if none
does. -/
namespace Provision

/-- A closed set of kinds, each with its lineage. -/
class Kind (κ : Type) where
  /-- The kind and everything it refines, nearest first. -/
  lineage : κ → List κ
  /-- The name of the type that stands for the kind in a model. -/
  typeName : κ → String
  generic : κ
  /-- Every kind but the generic one. -/
  special : List κ

namespace Kind

variable {κ : Type} [Kind κ]

/-- The kind that a kind refines directly. -/
def parent (k : κ) : Option κ := (lineage k)[1]?

/-- Whether a kind is another one or refines it. -/
def isA [DecidableEq κ] (k other : κ) : Bool := decide (other ∈ lineage k)

def ofTypeName? (name : String) : Option κ :=
  (special (κ := κ)).find? fun k => typeName k == name

/-- The kind of the nearest type of a chain that names one. -/
def resolve (chain : List String) : κ := (chain.findSome? ofTypeName?).getD generic

end Kind

/-! ### Components -/

inductive ComponentKind where
  | generic
  | compute
  | softwareComponent
  | dbms
  | mysqlDbms
  | database
  | mysqlDatabase
  | webServer
  | tomcat
  | webApplication
  deriving DecidableEq, Repr, Inhabited

namespace ComponentKind

def lineage : ComponentKind → List ComponentKind
  | .generic => [.generic]
  | .compute => [.compute, .generic]
  | .softwareComponent => [.softwareComponent, .generic]
  | .dbms => [.dbms, .softwareComponent, .generic]
  | .mysqlDbms => [.mysqlDbms, .dbms, .softwareComponent, .generic]
  | .database => [.database, .generic]
  | .mysqlDatabase => [.mysqlDatabase, .database, .generic]
  | .webServer => [.webServer, .softwareComponent, .generic]
  | .tomcat => [.tomcat, .webServer, .softwareComponent, .generic]
  | .webApplication => [.webApplication, .generic]

def typeName : ComponentKind → String
  | .generic => "base"
  | .compute => "compute"
  | .softwareComponent => "software_component"
  | .dbms => "dbms"
  | .mysqlDbms => "mysql_dbms"
  | .database => "database"
  | .mysqlDatabase => "mysql_database"
  | .webServer => "web_server"
  | .tomcat => "tomcat"
  | .webApplication => "web_application"

instance : Kind ComponentKind where
  lineage := lineage
  typeName := typeName
  generic := .generic
  special :=
    [.compute, .softwareComponent, .dbms, .mysqlDbms, .database, .mysqlDatabase, .webServer,
      .tomcat, .webApplication]

theorem lineage_eq (k : ComponentKind) :
    lineage k = k :: ((Kind.parent k).map lineage).getD [] := by
  cases k <;> rfl

end ComponentKind

/-! ### Relations -/

inductive RelationKind where
  | generic
  | dependsOn
  | hostedOn
  | connectsTo
  deriving DecidableEq, Repr, Inhabited

namespace RelationKind

def lineage : RelationKind → List RelationKind
  | .generic => [.generic]
  | .dependsOn => [.dependsOn, .generic]
  | .hostedOn => [.hostedOn, .dependsOn, .generic]
  | .connectsTo => [.connectsTo, .dependsOn, .generic]

def typeName : RelationKind → String
  | .generic => "root_relation"
  | .dependsOn => "depends_on"
  | .hostedOn => "hosted_on"
  | .connectsTo => "connects_to"

instance : Kind RelationKind where
  lineage := lineage
  typeName := typeName
  generic := .generic
  special := [.dependsOn, .hostedOn, .connectsTo]

theorem lineage_eq (k : RelationKind) :
    lineage k = k :: ((Kind.parent k).map lineage).getD [] := by
  cases k <;> rfl

end RelationKind
end Provision
