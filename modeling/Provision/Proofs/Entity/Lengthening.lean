import Provision.Entity.Document
import Provision.Model.Operation

/-! Short and long forms of the entries of a document.

Relations, operations and properties can be written as scalars. Each of them also has long
forms, in which the scalar stands below keys of its own. What a value is, and with it which
long forms it has, follows from the names that lead to it from the top of the document. -/
namespace Provision
open Yaml (Value)

/-- What a value of a document stands for. -/
inductive Role where
  | document
  | components
  | component
  | types
  | type
  | properties
  | property
  | operations
  | operation
  | relations
  /-- An entry of a list of relations. -/
  | entry
  | relation
  | other
  deriving DecidableEq

/-- One level around a value. -/
inductive Wrap where
  | field (name : String)
  | item

namespace Wrap

/-- The name that the value gets as an entity. -/
def name : Wrap → String
  | .field name => name
  | .item => toString 0

def around : Wrap → Value → Value
  | .field name, v => BuiltIn.mapping [(name, v)]
  | .item, v => .sequence [v]

end Wrap

/-- A value with levels around it, the outermost first. -/
def wrapped (wraps : List Wrap) (v : Value) : Value := wraps.foldr Wrap.around v

namespace Role
open EntityGraph.Builder (isNamespace)

/-- What components, relations and types have under a name. -/
def declaration (name : String) : Role :=
  if name = Key.properties then .properties
  else if name = Key.operations then .operations
  else if name = Key.relations then .relations
  else .other

/-- What stands under a name. -/
def child : Role → String → Role
  | .document, name =>
    if name = Key.components then .components
    else if isNamespace name then .types
    else .other
  | .components, _ => .component
  | .types, _ => .type
  | .component, name | .type, name | .relation, name => declaration name
  | .properties, _ => .property
  | .operations, _ => .operation
  | .relations, _ => .entry
  | .entry, _ => .relation
  | .property, _ | .operation, _ | .other, _ => .other

/-- What can be written around a scalar without a change of its meaning. -/
def longForms : Role → List (List Wrap)
  | .relation => [[.field Key.target]]
  | .operation =>
    [[.field Key.artifacts, .item, .field Operation.command], [.field Key.artifacts, .item]]
  | .property => [[.field Key.value]]
  | _ => []

/-- The names with which long forms start. -/
def opening (role : Role) : List String :=
  role.longForms.filterMap fun wraps => wraps.head?.map Wrap.name

end Role

/-- Whether there is a scalar below the tags. -/
def Yaml.Value.isScalar : Value → Bool
  | .sequence _ | .mapping _ => false
  | .tagged _ v => v.isScalar
  | _ => true

/-! ### Lengthening -/

mutual

/-- The second value is the first one with some scalars in one of their long forms. -/
inductive Lengthens : Role → Value → Value → Prop where
  | same (role : Role) (v : Value) : Lengthens role v v
  | long {role : Role} {wraps : List Wrap} {v : Value} : wraps ∈ role.longForms → v.isScalar →
      Lengthens role v (wrapped wraps v)
  | tagged {role : Role} {v v' : Value} (tag : String) : Lengthens role v v' →
      Lengthens role (.tagged tag v) (.tagged tag v')
  | mapping {role : Role} {entries entries' : List (Value × Value)} :
      LengthensEntries role entries entries' → Lengthens role (.mapping entries) (.mapping entries')
  | sequence {role : Role} {items items' : List Value} : LengthensItems role 0 items items' →
      Lengthens role (.sequence items) (.sequence items')

inductive LengthensEntries : Role → List (Value × Value) → List (Value × Value) → Prop where
  | nil {role : Role} : LengthensEntries role [] []
  | keep {role : Role} {rest rest' : List (Value × Value)} (entry : Value × Value) :
      LengthensEntries role rest rest' → LengthensEntries role (entry :: rest) (entry :: rest')
  | change {role : Role} {rest rest' : List (Value × Value)} {k v v' : Value} {name : String} :
      k.text? = some name → Lengthens (role.child name) v v' → LengthensEntries role rest rest' →
      LengthensEntries role ((k, v) :: rest) ((k, v') :: rest')

inductive LengthensItems : Role → Nat → List Value → List Value → Prop where
  | nil {role : Role} {index : Nat} : LengthensItems role index [] []
  | cons {role : Role} {index : Nat} {v v' : Value} {rest rest' : List Value} :
      Lengthens (role.child (toString index)) v v' →
      LengthensItems role (index + 1) rest rest' →
      LengthensItems role index (v :: rest) (v' :: rest')

end

theorem LengthensEntries.refl {role : Role} (entries : List (Value × Value)) :
    LengthensEntries role entries entries := by
  induction entries with
  | nil => exact .nil
  | cons entry rest ih => exact .keep entry ih

theorem LengthensItems.refl {role : Role} {index : Nat} (items : List Value) :
    LengthensItems role index items items := by
  induction items generalizing index with
  | nil => exact .nil
  | cons v rest ih => exact .cons (.same _ v) ih

/-- A mapping stays a mapping. -/
theorem Lengthens.of_mapping {role : Role} {entries : List (Value × Value)} {v' : Value}
    (h : Lengthens role (.mapping entries) v') :
    ∃ entries', v' = .mapping entries' ∧ LengthensEntries role entries entries' := by
  cases h with
  | same => exact ⟨_, rfl, .refl entries⟩
  | long _ hv => cases hv
  | mapping h => exact ⟨_, rfl, h⟩

/-- A sequence stays a sequence. -/
theorem Lengthens.of_sequence {role : Role} {items : List Value} {v' : Value}
    (h : Lengthens role (.sequence items) v') :
    ∃ items', v' = .sequence items' ∧ LengthensItems role 0 items items' := by
  cases h with
  | same => exact ⟨_, rfl, .refl items⟩
  | long _ hv => cases hv
  | sequence h => exact ⟨_, rfl, h⟩

/-- The keys stay. -/
theorem LengthensEntries.of_cons {role : Role} {k v : Value} {rest entries' : List (Value × Value)}
    (h : LengthensEntries role ((k, v) :: rest) entries') :
    ∃ v' rest', entries' = (k, v') :: rest' ∧
      (∀ name, EntityGraph.Builder.keyName k = .ok name → Lengthens (role.child name) v v') ∧
      LengthensEntries role rest rest' := by
  cases h with
  | keep _ hrest => exact ⟨v, _, rfl, fun name _ => .same (role.child name) v, hrest⟩
  | change hk hv hrest =>
    refine ⟨_, _, rfl, fun name hname => ?_, hrest⟩
    rw [EntityGraph.Builder.keyName, hk] at hname
    cases hname
    exact hv

/-- Where there are no long forms, only a mapping becomes a mapping. -/
theorem Lengthens.to_mapping {role : Role} {v : Value} {entries' : List (Value × Value)}
    (h : Lengthens role v (.mapping entries')) (hrole : role.longForms = []) :
    ∃ entries, v = .mapping entries := by
  generalize hv' : Value.mapping entries' = v' at h
  cases h with
  | same => exact ⟨entries', hv'.symm⟩
  | long hwraps =>
    rw [hrole] at hwraps
    cases hwraps
  | mapping => exact ⟨_, rfl⟩
  | tagged => cases hv'
  | sequence => cases hv'

end Provision
