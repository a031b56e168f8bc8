import Provision.Entity.Graph
import Provision.Fault

/-! Inheritance of types.

The chain of a type starts with the type itself and follows `extends`, nearest first,
inside one namespace. It ends at a type without parent or at a type that is already in
it: a cycle of types ends the chain and is no fault. A parent that does not exist is
one, and so is a chain of more than 64 types. -/
namespace Provision.EntityGraph

/-- The most types that a chain may have. -/
def chainLimit : Nat := 64

/-- The name of a type's parent, without the blanks around it. Nothing, `null` and `~`
are no name. -/
def parentName? (g : EntityGraph) (t : EntityId) : Option String :=
  ((g.childText? t Key.supertype).map Text.trim).filter fun name =>
    name ≠ "" && name ≠ "null" && name ≠ "~"

/-- The parent of a type, if it has one. -/
def parentType? (g : EntityGraph) (t : EntityId) : Except Fault (Option EntityId) :=
  match g.parentName? t with
  | none => .ok none
  | some name =>
    match g.typeLike? t name with
    | some parent => .ok (some parent)
    | none => .error (.unresolvableType (g.entity t).name (some name))

/-- The chain from `t` on, when the types in `visited` are in it already and `room` more
may follow. -/
def chainFrom (g : EntityGraph) (start : EntityId) (visited : List EntityId) :
    Nat → EntityId → Except Fault (List EntityId)
  | room, t =>
    if t ∈ visited then .ok []
    else
      match room with
      | 0 => .error (.inheritanceTooDeep (g.entity start).name chainLimit)
      | room + 1 => do
        match ← g.parentType? t with
        | none => return [t]
        | some parent => return t :: (← g.chainFrom start (t :: visited) room parent)

/-- The chain of a type, nearest first. -/
def typeChain (g : EntityGraph) (start : EntityId) : Except Fault (List EntityId) :=
  g.chainFrom start [] chainLimit start

/-- The names of entities. -/
def names (g : EntityGraph) (ids : List EntityId) : List String :=
  ids.map fun id => (g.entity id).name

end Provision.EntityGraph
