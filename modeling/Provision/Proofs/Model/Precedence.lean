import Provision.Proofs.Entity.Found
import Provision.Proofs.Model.Build

/-! Precedence among declarations.

An entity and each type of its chain may all declare a property or an operation of one name.
The declarations of a name are taken nearest first: that of the entity, then those of the
types. A property has each of its fields from the nearest declaration that sets the field,
while an operation is the nearest declaration as it stands. Since an assignment and a default
are different fields, a property has a default for its value only if nothing assigns one: an
assignment in a supertype takes precedence over a default in a subtype. -/
namespace Provision
open Yaml (Value)

/-! ### The declarations of one name -/

namespace Property

/-- One more declaration of a property, farther than those before, if there are any. -/
def beyond (near? : Option Property) (far : Property) : Option Property :=
  some ((near?.map fun near => near.inherit far).getD far)

/-- What the declarations of a property come to, nearest first. -/
def merged? (declarations : List Property) : Option Property := declarations.foldl beyond none

/-- A property has each field from the first declaration that sets it. -/
structure FieldsFrom (declarations : List Property) (p : Property) : Prop where
  assigned : p.assigned = declarations.findSome? Property.assigned
  typeName : p.typeName = declarations.findSome? Property.typeName
  defaultValue : p.defaultValue = declarations.findSome? Property.defaultValue
  description : p.description = declarations.findSome? Property.description

/-- A field that is set is never set again. -/
theorem bind_foldl_beyond {α : Type} {field : Property → Option α}
    (hfield : ∀ near far, field (inherit near far) = (field near).or (field far))
    (declarations : List Property) (near? : Option Property) :
    (declarations.foldl beyond near?).bind field =
      (near?.bind field).or (declarations.findSome? field) := by
  induction declarations generalizing near? with
  | nil =>
    rw [List.foldl_nil, List.findSome?_nil, Option.or_none]
  | cons far rest ih =>
    have hbeyond : (beyond near? far).bind field = (near?.bind field).or (field far) := by
      cases near? with
      | none => rfl
      | some near => exact hfield near far
    rw [List.foldl_cons, ih, hbeyond, Option.or_assoc, OrderedMap.findSome?_cons_eq_or]

theorem bind_merged? {α : Type} {field : Property → Option α}
    (hfield : ∀ near far, field (inherit near far) = (field near).or (field far))
    (declarations : List Property) :
    (merged? declarations).bind field = declarations.findSome? field :=
  bind_foldl_beyond hfield declarations none

theorem fieldsFrom_of_merged? {declarations : List Property} {p : Property}
    (h : merged? declarations = some p) : p.FieldsFrom declarations := by
  have hfield {α : Type} {field : Property → Option α}
      (hinherit : ∀ near far, field (inherit near far) = (field near).or (field far)) :
      field p = declarations.findSome? field := by
    rw [← bind_merged? hinherit, h, Option.bind_some]
  exact ⟨hfield fun _ _ => rfl, hfield fun _ _ => rfl, hfield fun _ _ => rfl,
    hfield fun _ _ => rfl⟩

theorem value_eq_none {p : Property} :
    p.value = none ↔ p.assigned = none ∧ p.defaultValue = none := Option.or_eq_none_iff

/-- The value that declarations come to, nearest first. It is the first that is assigned, else
the first default. So the first declaration that has a value decides, unless that value is only
a default and a farther declaration assigns another one. -/
structure Decided (declarations : List Property) (value : Option Scalar) : Prop where
  assignedFirst : value =
    (declarations.findSome? Property.assigned).or (declarations.findSome? Property.defaultValue)
  nearest : ∀ near decl far v, declarations = near ++ decl :: far → (∀ p ∈ near, p.value = none) →
    decl.value = some v →
      (value = some v ↔ (decl.assigned = none →
        ∀ w, far.findSome? Property.assigned = some w → w = v))

/-- Declarations without a field are passed over. -/
theorem findSome?_append_cons {α : Type} {field : Property → Option α} {near far : List Property}
    {decl : Property} (hnear : ∀ p ∈ near, field p = none) :
    (near ++ decl :: far).findSome? field = (field decl).or (far.findSome? field) := by
  rw [List.findSome?_append, List.findSome?_eq_none_iff.mpr hnear, Option.none_or,
    OrderedMap.findSome?_cons_eq_or]

theorem decided (declarations : List Property) :
    Decided declarations ((declarations.findSome? Property.assigned).or
      (declarations.findSome? Property.defaultValue)) := by
  refine ⟨rfl, ?_⟩
  rintro near decl far v rfl hnear hvalue
  rw [findSome?_append_cons fun p hp => (value_eq_none.mp (hnear p hp)).1,
    findSome?_append_cons fun p hp => (value_eq_none.mp (hnear p hp)).2]
  unfold value at hvalue
  cases hassigned : decl.assigned with
  | some a =>
    rw [hassigned] at hvalue
    simpa using hvalue
  | none =>
    rw [hassigned, Option.none_or] at hvalue
    rw [hvalue, Option.none_or, Option.some_or]
    -- The declaration has a default only, which an assignment farther away replaces.
    cases far.findSome? Property.assigned with
    | none => simp
    | some w => simp

theorem bind_value_merged? (declarations : List Property) : (merged? declarations).bind value =
    (declarations.findSome? Property.assigned).or
      (declarations.findSome? Property.defaultValue) := by
  have hassigned : (merged? declarations).bind assigned = declarations.findSome? assigned :=
    bind_merged? (fun _ _ => rfl) declarations
  have hdefault : (merged? declarations).bind defaultValue = declarations.findSome? defaultValue :=
    bind_merged? (fun _ _ => rfl) declarations
  rw [← hassigned, ← hdefault]
  cases merged? declarations <;> rfl

/-- The texts of properties that have a value. -/
theorem mem_propertyTexts (properties : OrderedMap String Property) (name value : String) :
    (name, value) ∈ (propertyTexts properties).toList ↔
      ∃ p v, properties.get? name = some p ∧ p.value = some v ∧ v.text = value := by
  have hnodup : ((properties.toList.filterMap fun e : String × Property =>
      e.2.value.map fun v => (e.1, v.text)).map Prod.fst).Nodup := by
    have hkeys := properties.nodup
    unfold List.Nodup at hkeys ⊢
    rw [List.pairwise_map] at hkeys ⊢
    refine List.pairwise_filterMap.mpr (hkeys.imp fun hne x hx y hy => ?_)
    obtain ⟨_, _, rfl⟩ := Option.map_eq_some_iff.mp hx
    obtain ⟨_, _, rfl⟩ := Option.map_eq_some_iff.mp hy
    exact hne
  have htexts : (propertyTexts properties).toList = properties.toList.filterMap
      fun e : String × Property => e.2.value.map fun v => (e.1, v.text) :=
    OrderedMap.toList_ofList hnodup
  rw [htexts, List.mem_filterMap]
  constructor
  · rintro ⟨⟨k, p⟩, hp, he⟩
    obtain ⟨v, hv, heq⟩ := Option.map_eq_some_iff.mp he
    cases heq
    exact ⟨p, v, OrderedMap.get?_eq_some.mpr hp, hv, rfl⟩
  · rintro ⟨p, v, hp, hv, rfl⟩
    exact ⟨(name, p), OrderedMap.get?_eq_some.mp hp, Option.map_eq_some_iff.mpr ⟨v, hv, rfl⟩⟩

theorem name_ofEntity (g : EntityGraph) (id : EntityId) :
    (ofEntity g id).name = (g.entity id).name := by
  cases h : (g.entity id).value <;> simp [ofEntity, h]

end Property

theorem Operation.name_ofEntity (g : EntityGraph) (id : EntityId) :
    (ofEntity g id).name = (g.entity id).name := by
  cases h : (g.entity id).value <;> simp [ofEntity, h]

namespace EntityGraph

/-! ### The declarations of all names -/

theorem get?_mergeProperty (m : OrderedMap String Property) (p : Property) (name : String) :
    (mergeProperty m p).get? name =
      if p.name = name then Property.beyond (m.get? name) p else m.get? name := by
  unfold mergeProperty Property.beyond
  by_cases h : p.name = name
  · subst h
    cases hnear : m.get? p.name <;> simp [OrderedMap.get?_insert]
  · cases m.get? p.name <;> simp [OrderedMap.get?_insert, h]

theorem keys_mergeProperty (m : OrderedMap String Property) (p : Property) :
    (mergeProperty m p).keys = if p.name ∈ m.keys then m.keys else m.keys ++ [p.name] := by
  unfold mergeProperty
  cases m.get? p.name <;> exact OrderedMap.keys_insert ..

/-- Merging goes by name. -/
theorem get?_foldl_mergeProperty (l : List Property) (m : OrderedMap String Property)
    (name : String) : (l.foldl mergeProperty m).get? name =
      (l.filter fun p => p.name = name).foldl Property.beyond (m.get? name) := by
  induction l generalizing m with
  | nil => rfl
  | cons p rest ih =>
    rw [List.foldl_cons, ih, get?_mergeProperty]
    by_cases h : p.name = name <;> simp [h]

/-- The first operation of a name stays. -/
theorem get?_foldl_insertNew (l : List Operation) (m : OrderedMap String Operation)
    (name : String) : (l.foldl (fun m o => m.insertNew o.name o) m).get? name =
      (m.get? name).or (l.filter fun o => o.name = name).head? := by
  induction l generalizing m with
  | nil => simp
  | cons o rest ih =>
    rw [List.foldl_cons, ih, OrderedMap.get?_insertNew, Option.or_assoc]
    by_cases h : o.name = name <;> simp [h]

/-! ### Owners -/

/-- What an owner declares under a name. -/
def declaration? (g : EntityGraph) (container name : String) (owner : EntityId) :
    Option EntityId :=
  (g.child? owner container).bind fun c => g.child? c name

/-- The names under which an owner declares something, in the order of the document. -/
def declaredNames (g : EntityGraph) (container : String) (owner : EntityId) : List String :=
  match g.child? owner container with
  | some c => (g.entity c).children.keys
  | none => []

/-- What owners declare under a name, nearest owner first. -/
def declarations (g : EntityGraph) (owners : List EntityId) (container name : String) :
    List EntityId :=
  owners.filterMap (g.declaration? container name)

section Owners
variable {g : EntityGraph} (hg : IsTree g.entity)
include hg

theorem map_name_declared (container : String) (owner : EntityId) :
    (g.declared owner container).map (fun c => (g.entity c).name) =
      g.declaredNames container owner := by
  unfold declared declaredNames
  cases g.child? owner container with
  | none => rfl
  | some c =>
    show (g.children c).map _ = (g.entity c).children.keys
    rw [children, OrderedMap.values, OrderedMap.keys, List.map_map]
    exact List.map_congr_left fun entry hentry => (hg _ _ _ hentry).2.1

/-- An owner declares a name once at most. -/
theorem filter_declared (container name : String) (owner : EntityId) :
    (g.declared owner container).filter (fun c => (g.entity c).name = name) =
      (g.declaration? container name owner).toList := by
  unfold declared declaration?
  cases g.child? owner container with
  | none => rfl
  | some c =>
    show (g.children c).filter _ = ((g.entity c).children.get? name).toList
    rw [children, OrderedMap.values_eq_map, List.filter_map, ← OrderedMap.map_filter_toList]
    congr 1
    refine List.filter_congr fun entry hentry => ?_
    rw [Function.comp_apply, (hg _ _ _ hentry).2.1]

theorem filter_declaredBy (owners : List EntityId) (container name : String) :
    (g.declaredBy owners container).filter (fun c => (g.entity c).name = name) =
      g.declarations owners container name := by
  rw [declaredBy, List.filter_flatMap, declarations, List.filterMap_eq_flatMap_toList]
  exact List.flatMap_congr fun owner _ => filter_declared hg container name owner

/-- Declarations that are read under their names. -/
theorem filter_map_declaredBy {α : Type} {read : EntityId → α} {nameOf : α → String}
    (hread : ∀ c, nameOf (read c) = (g.entity c).name) (owners : List EntityId)
    (container name : String) :
    ((g.declaredBy owners container).map read).filter (fun a => nameOf a = name) =
      (g.declarations owners container name).map read := by
  rw [List.filter_map, ← filter_declaredBy hg]
  congr 1
  refine List.filter_congr fun c _ => ?_
  rw [Function.comp_apply, hread]

theorem map_map_declaredBy {α : Type} {read : EntityId → α} {nameOf : α → String}
    (hread : ∀ c, nameOf (read c) = (g.entity c).name) (owners : List EntityId)
    (container : String) :
    ((g.declaredBy owners container).map read).map nameOf =
      owners.flatMap (g.declaredNames container) := by
  rw [List.map_map, declaredBy, List.map_flatMap]
  refine List.flatMap_congr fun owner _ => ?_
  rw [← map_name_declared hg]
  exact List.map_congr_left fun c _ => hread c

/-- The property of a name is what its declarations come to. -/
theorem get?_propertiesOf (owners : List EntityId) (name : String) :
    (g.propertiesOf owners).get? name =
      Property.merged? ((g.declarations owners Key.properties name).map (Property.ofEntity g)) := by
  rw [propertiesOf, get?_foldl_mergeProperty, filter_map_declaredBy hg (Property.name_ofEntity g)]
  rfl

theorem keys_propertiesOf (owners : List EntityId) : (g.propertiesOf owners).keys =
    (owners.flatMap (g.declaredNames Key.properties)).eraseDups := by
  rw [propertiesOf, OrderedMap.keys_foldl keys_mergeProperty,
    map_map_declaredBy hg (Property.name_ofEntity g)]

/-- The operation of a name is its first declaration. -/
theorem get?_operationsOf (owners : List EntityId) (name : String) :
    (g.operationsOf owners).get? name =
      (g.declarations owners Key.operations name).head?.map (Operation.ofEntity g) := by
  rw [operationsOf, get?_foldl_insertNew, filter_map_declaredBy hg (Operation.name_ofEntity g),
    List.head?_map]
  rfl

theorem keys_operationsOf (owners : List EntityId) : (g.operationsOf owners).keys =
    (owners.flatMap (g.declaredNames Key.operations)).eraseDups := by
  have hstep (m : OrderedMap String Operation) (o : Operation) :
      (m.insertNew o.name o).keys = if o.name ∈ m.keys then m.keys else m.keys ++ [o.name] :=
    OrderedMap.keys_insertNew m o.name o
  rw [operationsOf, OrderedMap.keys_foldl hstep,
    map_map_declaredBy hg (Operation.name_ofEntity g)]

end Owners

/-! ### Entities with a type -/

theorem mem_declaredNames {g : EntityGraph} {container : String} {owner : EntityId}
    {name : String} : name ∈ g.declaredNames container owner ↔
      (g.declaration? container name owner).isSome := by
  unfold declaredNames declaration?
  cases g.child? owner container with
  | none => simp
  | some c =>
    show name ∈ (g.entity c).children.keys ↔ ((g.entity c).children.get? name).isSome
    rw [← not_iff_not, ← OrderedMap.get?_eq_none, Option.not_isSome_iff_eq_none]

/-- What is declared by some owner is there, in the order in which it is first declared. -/
structure ListsDeclared (g : EntityGraph) (owners : List EntityId) (container : String)
    (names : List String) : Prop where
  mem : ∀ name, name ∈ names ↔ ∃ owner ∈ owners, (g.declaration? container name owner).isSome
  order : names = (owners.flatMap (g.declaredNames container)).eraseDups

theorem listsDeclared (g : EntityGraph) (owners : List EntityId) (container : String) :
    g.ListsDeclared owners container
      (owners.flatMap (g.declaredNames container)).eraseDups := by
  refine ⟨fun name => ?_, rfl⟩
  rw [List.mem_eraseDups, List.mem_flatMap]
  simp only [mem_declaredNames]

/-- Properties have each field from the nearest declaration that sets it. -/
structure MergesProperties (g : EntityGraph) (owners : List EntityId)
    (properties : OrderedMap String Property) : Prop where
  names : g.ListsDeclared owners Key.properties properties.keys
  fields : ∀ name p, properties.get? name = some p →
    p.FieldsFrom ((g.declarations owners Key.properties name).map (Property.ofEntity g))

/-- Operations are the nearest declarations. -/
structure KeepsNearest (g : EntityGraph) (owners : List EntityId)
    (operations : OrderedMap String Operation) : Prop where
  names : g.ListsDeclared owners Key.operations operations.keys
  nearest : ∀ name, operations.get? name =
    (g.declarations owners Key.operations name).head?.map (Operation.ofEntity g)

section Owners
variable {g : EntityGraph} (hg : IsTree g.entity)
include hg

theorem mergesProperties_propertiesOf (owners : List EntityId) :
    g.MergesProperties owners (g.propertiesOf owners) where
  names := by
    rw [keys_propertiesOf hg]
    exact listsDeclared g owners Key.properties
  fields name p hp := by
    rw [get?_propertiesOf hg] at hp
    exact Property.fieldsFrom_of_merged? hp

theorem keepsNearest_operationsOf (owners : List EntityId) :
    g.KeepsNearest owners (g.operationsOf owners) where
  names := by
    rw [keys_operationsOf hg]
    exact listsDeclared g owners Key.operations
  nearest := get?_operationsOf hg owners

end Owners

section Typed
variable {g : EntityGraph} {id : EntityId} {types : List EntityId} (h : g.Typed id types)
include h

theorem properties_of_typed : g.properties id = .ok (g.propertiesOf (id :: types)) :=
  bind_eq_ok.mpr ⟨types, chainOf_eq_ok.mpr h, rfl⟩

theorem operations_of_typed : g.operations id = .ok (g.operationsOf (id :: types)) :=
  bind_eq_ok.mpr ⟨types, chainOf_eq_ok.mpr h, rfl⟩

end Typed

/-- **Properties merge field by field, operations do not merge.** An entity whose chain of types
resolves has the properties and the operations that it or one of the types declares. -/
theorem declarations_resolved {b : Builder} (hb : b.Grown) {id : EntityId} {types : List EntityId}
    (htypes : b.build.Typed id types) :
    ∃ properties operations, b.build.properties id = .ok properties ∧
      b.build.operations id = .ok operations ∧
      b.build.MergesProperties (id :: types) properties ∧
      b.build.KeepsNearest (id :: types) operations :=
  ⟨_, _, properties_of_typed htypes, operations_of_typed htypes,
    mergesProperties_propertiesOf hb.isTree_build _, keepsNearest_operationsOf hb.isTree_build _⟩

/-- A component below three types. All of the types declare its port, and two of them the
operation `create`. -/
def layeredDocument : Value :=
  BuiltIn.mapping
    [(Key.componentTypes, BuiltIn.mapping
        [("store", BuiltIn.mapping
            [BuiltIn.properties
                [("port", BuiltIn.mapping
                    [(Key.value, .integer 80), BuiltIn.described "where it listens"]),
                  ("size", .integer 9)],
              (Key.operations, BuiltIn.mapping
                [("create", .string "make.sh"), ("stop", .string "halt.sh")])]),
          ("cache", BuiltIn.mapping
            [BuiltIn.refining "store",
              BuiltIn.properties [BuiltIn.property "mode" "string",
                BuiltIn.property "port" "integer" (some (.integer 81))],
              (Key.operations, BuiltIn.mapping
                [("create", BuiltIn.mapping [BuiltIn.described "nothing to do"])])]),
          ("session", BuiltIn.mapping
            [BuiltIn.refining "cache",
              BuiltIn.properties [BuiltIn.property "port" "string" (some (.integer 82))]])]),
      (Key.components, BuiltIn.mapping
        [("db", BuiltIn.mapping
          [(Key.type, .string "session"), BuiltIn.properties [("mode", .string "fast")]])])]

theorem declarations_resolved_layered : ∃ b : Builder, b.Grown ∧
    ofValue false layeredDocument = .ok b.build ∧
    b.build.descend? root [Key.components, "db"] = some 29 ∧
    ∃ properties operations, b.build.properties 29 = .ok properties ∧
      b.build.operations 29 = .ok operations ∧
      b.build.MergesProperties [29, 22, 11, 2] properties ∧
      b.build.KeepsNearest [29, 22, 11, 2] operations ∧
      properties.values =
        [{ name := "mode", assigned := some (.string "fast"), typeName := some "string" },
          { name := "port", assigned := some (.integer 80), typeName := some "string",
            defaultValue := some (.integer 82), description := some "where it listens" },
          { name := "size", assigned := some (.integer 9) }] ∧
      operations.values = [{ name := "create", description := some "nothing to do" },
        { name := "stop", artifacts := [⟨"cmd", "halt.sh"⟩] }] := by
  have hlayered : (ofValue false layeredDocument).map (fun g =>
      (g.descend? root [Key.components, "db"], g.chainOf 29,
        (g.propertiesOf [29, 22, 11, 2]).values, (g.operationsOf [29, 22, 11, 2]).values)) =
      .ok (some 29, .ok [22, 11, 2],
        [{ name := "mode", assigned := some (.string "fast"), typeName := some "string" },
          { name := "port", assigned := some (.integer 80), typeName := some "string",
            defaultValue := some (.integer 82), description := some "where it listens" },
          { name := "size", assigned := some (.integer 9) }],
        [{ name := "create", description := some "nothing to do" },
          { name := "stop", artifacts := [⟨"cmd", "halt.sh"⟩] }]) := by
    decide +kernel
  obtain ⟨g, hg, hvalues⟩ := map_eq_ok.mp hlayered
  obtain ⟨b, hb, rfl⟩ := exists_grown_of_ofValue hg
  simp only [Prod.mk.injEq] at hvalues
  obtain ⟨hdb, htypes, hproperties, hoperations⟩ := hvalues
  have htyped := chainOf_eq_ok.mp htypes
  obtain ⟨properties, operations, hp, ho, hmerges, hkeeps⟩ := declarations_resolved hb htyped
  have hmerged := Except.ok.inj ((properties_of_typed htyped).symm.trans hp)
  have hkept := Except.ok.inj ((operations_of_typed htyped).symm.trans ho)
  rw [hmerged] at hproperties
  rw [hkept] at hoperations
  exact ⟨b, hb, hg, hdb, properties, operations, hp, ho, hmerges, hkeeps, hproperties,
    hoperations⟩

/-- **An assignment anywhere takes precedence over every default.** Apart from that the nearest
declaration that has a value decides. -/
theorem values_decided {b : Builder} (hb : b.Grown) {id : EntityId} {types : List EntityId}
    (htypes : b.build.Typed id types) :
    ∃ properties, b.build.properties id = .ok properties ∧
      ∀ name, Property.Decided
        ((b.build.declarations (id :: types) Key.properties name).map (Property.ofEntity b.build))
        ((properties.get? name).bind Property.value) := by
  refine ⟨_, properties_of_typed htypes, fun name => ?_⟩
  rw [get?_propertiesOf hb.isTree_build, Property.bind_value_merged?]
  exact Property.decided _

theorem values_decided_layered : ∃ b : Builder, b.Grown ∧
    ofValue false layeredDocument = .ok b.build ∧ ∃ properties,
      b.build.properties 29 = .ok properties ∧
      Property.Decided
        [{ name := "port", typeName := some "string", defaultValue := some (.integer 82) },
          { name := "port", typeName := some "integer", defaultValue := some (.integer 81) },
          { name := "port", assigned := some (.integer 80),
            description := some "where it listens" }]
        ((properties.get? "port").bind Property.value) := by
  have hlayered : (ofValue false layeredDocument).map (fun g => (g.chainOf 29,
      (g.declarations [29, 22, 11, 2] Key.properties "port").map (Property.ofEntity g))) =
      .ok (.ok [22, 11, 2],
        [{ name := "port", typeName := some "string", defaultValue := some (.integer 82) },
          { name := "port", typeName := some "integer", defaultValue := some (.integer 81) },
          { name := "port", assigned := some (.integer 80),
            description := some "where it listens" }]) := by
    decide +kernel
  obtain ⟨g, hg, hvalues⟩ := map_eq_ok.mp hlayered
  obtain ⟨b, hb, rfl⟩ := exists_grown_of_ofValue hg
  simp only [Prod.mk.injEq] at hvalues
  obtain ⟨htypes, hport⟩ := hvalues
  obtain ⟨properties, hp, hdecided⟩ := values_decided hb (chainOf_eq_ok.mp htypes)
  refine ⟨b, hb, hg, properties, hp, ?_⟩
  rw [← hport]
  exact hdecided "port"

/-- The nearest declaration need not decide: a default in a subtype gives way to a value that a
supertype assigns. -/
theorem subtype_default_gives_way : ∃ g types properties,
    ofValue false layeredDocument = .ok g ∧ g.Typed 29 types ∧
      g.properties 29 = .ok properties ∧
      ((g.declarations (29 :: types) Key.properties "port").map (Property.ofEntity g)).findSome?
        Property.value = some (.integer 82) ∧
      (properties.get? "port").bind Property.value = some (.integer 80) := by
  have hlayered : (ofValue false layeredDocument).map (fun g => (g.chainOf 29,
      ((g.declarations [29, 22, 11, 2] Key.properties "port").map
        (Property.ofEntity g)).findSome? Property.value,
      (g.properties 29).map fun properties => (properties.get? "port").bind Property.value)) =
      .ok (.ok [22, 11, 2], some (.integer 82), .ok (some (.integer 80))) := by
    decide +kernel
  obtain ⟨g, hg, hvalues⟩ := map_eq_ok.mp hlayered
  simp only [Prod.mk.injEq] at hvalues
  obtain ⟨htypes, hnearest, hvalue⟩ := hvalues
  obtain ⟨properties, hp, hvalue⟩ := map_eq_ok.mp hvalue
  exact ⟨g, [22, 11, 2], properties, hg, chainOf_eq_ok.mp htypes, hp, hnearest, hvalue⟩

end EntityGraph
end Provision
