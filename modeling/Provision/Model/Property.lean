import Provision.Entity.Graph

/-! Properties.

An instance assigns a value; a type declares what a property is: its type, a default
and a description. Declarations are merged from the nearest to the farthest, field by
field, and a field that is set is never set again. -/
namespace Provision

structure Property where
  name : String
  assigned : Option Scalar := none
  typeName : Option String := none
  defaultValue : Option Scalar := none
  description : Option String := none
  deriving DecidableEq, Repr

namespace Property

/-- The assigned value, else the default. -/
def value (p : Property) : Option Scalar := p.assigned.or p.defaultValue

/-- A leaf is an assignment, anything else a declaration with fields of its own. -/
def ofEntity (g : EntityGraph) (id : EntityId) : Property :=
  let e := g.entity id
  match e.value with
  | some v => { name := e.name, assigned := some v }
  | none =>
    { name := e.name
      assigned := g.childValue? id Key.value
      typeName := g.childText? id Key.type
      defaultValue := g.childValue? id Key.defaultValue
      description := g.childText? id Key.description }

/-- Takes the fields that are not set from a farther declaration. -/
def inherit (near far : Property) : Property :=
  { near with
    assigned := near.assigned.or far.assigned
    typeName := near.typeName.or far.typeName
    defaultValue := near.defaultValue.or far.defaultValue
    description := near.description.or far.description }

end Property
end Provision
