import Provision.Heat.Backend
import Provision.Proofs.Entity.Chain
import Provision.Proofs.Model.Precedence
import Provision.Proofs.Model.References
import Provision.Proofs.Topology.Environment

/-! Integers as values of properties.

The value of a property comes from one part of the document or of the built-in types: from what
the nearest declaration assigns that assigns something, else from the nearest default. The text of
the property is the text of this part, and the variables and inputs that backends derive from it
have the same text. An integer of the document is written as it is if it is a signed word. One that
only fits an unsigned word becomes a float on its way, and its text is a multiple of a thousand. -/
namespace Provision
open Yaml (Value)

namespace EntityGraph
open Builder (leafValue isNamespace)

/-! ### The part that decides -/

/-- A part without its tags, if it has a value. -/
def valued? (u : Value) : Option Value := if (leafValue u).isSome then some u.untagged else none

/-- What the declaration of a property assigns: itself, or its `value`. -/
def assigned? (u : Value) : Option Value :=
  (valued? u).or ((u.under? [Key.value]).bind valued?)

/-- The default in the declaration of a property, if that has fields. -/
def default? (u : Value) : Option Value :=
  if (leafValue u).isSome then none else (u.under? [Key.defaultValue]).bind valued?

/-- The part that decides the value of a property, of parts that may declare it, nearest first:
what is assigned first, else the first default. -/
def deciding? (property : String) (parts : List Value) : Option Value :=
  let declarations := parts.filterMap fun w => w.under? [Key.properties, property]
  (declarations.findSome? assigned?).or (declarations.findSome? default?)

theorem bind_valued? (u : Value) : (valued? u).bind leafValue = leafValue u := by
  unfold valued?
  split
  case isTrue => exact leafValue_untagged u
  case isFalse h => rw [Option.not_isSome_iff_eq_none.mp h, Option.bind_none]

theorem isSome_of_valued? {u w : Value} (h : valued? u = some w) : (leafValue w).isSome := by
  unfold valued? at h
  split at h
  case isTrue hsome =>
    cases h
    rwa [leafValue_untagged]
  case isFalse => cases h

theorem isSome_of_bind_valued? {u? : Option Value} {w : Value} (h : u?.bind valued? = some w) :
    (leafValue w).isSome := by
  obtain ⟨u, _, hu⟩ := Option.bind_eq_some_iff.mp h
  exact isSome_of_valued? hu

theorem isSome_of_assigned? {u w : Value} (h : assigned? u = some w) : (leafValue w).isSome := by
  rcases Option.or_eq_some_iff.mp h with h | ⟨_, h⟩
  · exact isSome_of_valued? h
  · exact isSome_of_bind_valued? h

theorem isSome_of_default? {u w : Value} (h : default? u = some w) : (leafValue w).isSome := by
  unfold default? at h
  split at h
  case isTrue => cases h
  case isFalse => exact isSome_of_bind_valued? h

section Declarations
variable {g : EntityGraph}

theorem Depicts.childValue?_eq {i : EntityId} {v : Value} (h : Depicts g.entity i v)
    (name : String) : g.childValue? i name = ((v.under? [name]).bind valued?).bind leafValue := by
  rw [h.childValue?, Value.under?]
  cases OrderedMap.lookup name v.fields.reverse with
  | none => rfl
  | some w => exact (bind_valued? w).symm

/-- A declaration assigns what its part assigns. -/
theorem Depicts.assigned_eq {d : EntityId} {u : Value} (h : Depicts g.entity d u) :
    (Property.ofEntity g d).assigned = (assigned? u).bind leafValue := by
  unfold Property.ofEntity assigned? valued?
  dsimp only
  rw [h.value]
  cases hleaf : leafValue u with
  | some v => exact (leafValue_untagged u).trans hleaf |>.symm
  | none => exact h.childValue?_eq Key.value

theorem Depicts.defaultValue_eq {d : EntityId} {u : Value} (h : Depicts g.entity d u) :
    (Property.ofEntity g d).defaultValue = (default? u).bind leafValue := by
  unfold Property.ofEntity default?
  dsimp only
  rw [h.value]
  cases hleaf : leafValue u with
  | some v => rfl
  | none => exact h.childValue?_eq Key.defaultValue

/-- A field of several declarations comes from the first part that has it. -/
theorem findSome?_ofEntity {field : Property → Option Scalar} {part? : Value → Option Value}
    (hfield : ∀ d u, Depicts g.entity d u →
      field (Property.ofEntity g d) = (part? u).bind leafValue)
    (hpart : ∀ u w, part? u = some w → (leafValue w).isSome)
    {ds : List EntityId} {us : List Value} (h : List.Forall₂ (Depicts g.entity) ds us) :
    (ds.map (Property.ofEntity g)).findSome? field = (us.findSome? part?).bind leafValue := by
  induction h with
  | nil => rfl
  | @cons d u ds us hd _ ih =>
    rw [List.map_cons, OrderedMap.findSome?_cons_eq_or, OrderedMap.findSome?_cons_eq_or, ih,
      hfield d u hd]
    cases hu : part? u with
    | none => rfl
    | some w =>
      obtain ⟨v, hv⟩ := Option.isSome_iff_exists.mp (hpart u w hu)
      rw [Option.bind_some, hv, Option.some_or, Option.some_or, Option.bind_some, hv]

theorem forall₂_declarations {owners : List EntityId} {parts : List Value}
    (h : List.Forall₂ (Depicts g.entity) owners parts) (property : String) :
    List.Forall₂ (Depicts g.entity) (g.declarations owners Key.properties property)
      (parts.filterMap fun w => w.under? [Key.properties, property]) := by
  refine List.rel_filterMap (fun owner w howner => ?_) h
  have hdeclaration : g.declaration? Key.properties property owner =
      g.descend? owner [Key.properties, property] := by
    rw [declaration?, descend?]
    exact Option.bind_congr fun c _ => (Option.bind_fun_some _).symm
  rw [hdeclaration]
  exact howner.descend? [Key.properties, property]

/-- The value of a property is that of the part that decides. -/
theorem bind_value_propertiesOf (hg : IsTree g.entity) {owners : List EntityId}
    {parts : List Value} (h : List.Forall₂ (Depicts g.entity) owners parts) (property : String) :
    ((g.propertiesOf owners).get? property).bind Property.value =
      (deciding? property parts).bind leafValue := by
  have hall := forall₂_declarations h property
  rw [get?_propertiesOf hg, Property.bind_value_merged?,
    findSome?_ofEntity (fun _ _ hd => hd.assigned_eq) (fun _ _ => isSome_of_assigned?) hall,
    findSome?_ofEntity (fun _ _ hd => hd.defaultValue_eq) (fun _ _ => isSome_of_default?) hall,
    deciding?]
  cases hassigned : (parts.filterMap fun w => w.under? [Key.properties, property]).findSome?
      assigned? with
  | none => rfl
  | some w =>
    obtain ⟨u, _, hu⟩ := List.exists_of_findSome?_eq_some hassigned
    obtain ⟨v, hv⟩ := Option.isSome_iff_exists.mp (isSome_of_assigned? hu)
    simp [hv]

/-- The text of a property is that of the part that decides. -/
theorem mem_propertyTexts_propertiesOf (hg : IsTree g.entity) {owners : List EntityId}
    {parts : List Value} (h : List.Forall₂ (Depicts g.entity) owners parts)
    (property text : String) :
    (property, text) ∈ (propertyTexts (g.propertiesOf owners)).toList ↔
      ∃ u, deciding? property parts = some u ∧ reference? u = some text := by
  have hvalue := bind_value_propertiesOf hg h property
  rw [Property.mem_propertyTexts]
  constructor
  · rintro ⟨p, v, hp, hv, rfl⟩
    rw [hp, Option.bind_some, hv] at hvalue
    obtain ⟨u, hu, hleaf⟩ := Option.bind_eq_some_iff.mp hvalue.symm
    exact ⟨u, hu, by rw [reference?, hleaf, Option.map_some]⟩
  · rintro ⟨u, hu, htext⟩
    obtain ⟨v, hv, rfl⟩ := Option.map_eq_some_iff.mp htext
    rw [hu, Option.bind_some, hv] at hvalue
    obtain ⟨p, hp, hvalue⟩ := Option.bind_eq_some_iff.mp hvalue
    exact ⟨p, v, hp, hvalue, rfl⟩

end Declarations

/-! ### Entities with a type -/

/-- An entity with a type depicts a part of the document, and each type of its chain the part of
the document or of the built-in types that has its name. -/
theorem ReadFrom.exists_parts {builtIn : Bool} {v : Value} {g : EntityGraph}
    {entries : List (Value × Value)} (h : g.ReadFrom builtIn v entries) {path : List String}
    {e : EntityId} {types : List EntityId}
    (he : g.descend? root (Key.components :: path) = some e) (ht : g.Typed e types) :
    ∃ own definitions, (Value.mapping entries).under? (Key.components :: path) = some own ∧
      (∃ space : TypeSpace, List.Forall₂ (fun name w =>
        (whole builtIn entries).under? [space.key, name] = some w) (g.names types) definitions) ∧
      List.Forall₂ (Depicts g.entity) (e :: types) (own :: definitions) := by
  have hrel := rel_descend?_under? h.shows h.distinct
    (show isNamespace Key.components = false from rfl) path
  rw [he] at hrel
  generalize (Value.mapping entries).under? (Key.components :: path) = own? at hrel ⊢
  cases hrel with
  | @some _ own hown =>
    obtain ⟨space, hfound⟩ : ∃ space : TypeSpace, ∀ t ∈ types, ∃ name,
        space.find? g name = some t := by
      obtain ⟨b, hb, rfl⟩ := exists_grown_of_ofValue h.built
      obtain ⟨t, ht, htypes⟩ := ht
      rcases b.exists_of_typeRef hb ht with ⟨_, name, hname⟩ | ⟨_, _, _, name, hname⟩
      · have hname : TypeSpace.component.find? b.build name = some t := hname
        exact ⟨.component, found_of_typeChain hb hname htypes⟩
      · have hname : TypeSpace.relation.find? b.build name = some t := hname
        exact ⟨.relation, found_of_typeChain hb hname htypes⟩
    obtain ⟨definitions, hdefinitions⟩ := exists_forall₂.mpr fun t ht => by
      obtain ⟨name, hname⟩ := hfound t ht
      have hrel := rel_descend?_whole h.shows space.key [name]
      rw [← h.find?_eq, hname] at hrel
      generalize hw : (whole builtIn entries).under? [space.key, name] = w? at hrel
      cases hrel with
      | @some _ w hw' =>
        exact ⟨w, show (whole builtIn entries).under? [space.key, (g.entity t).name] = some w ∧
          Depicts g.entity t w from ⟨by rw [h.name_of_find? hname, hw], hw'⟩⟩
    refine ⟨own, definitions, rfl, ⟨space, ?_⟩, .cons hown (hdefinitions.imp fun _ _ h => h.2)⟩
    rw [names, List.forall₂_map_left_iff]
    exact hdefinitions.imp fun _ _ h => h.1

theorem ReadFrom.descend?_of_mem_instances {builtIn : Bool} {v : Value} {g : EntityGraph}
    {entries : List (Value × Value)} (h : g.ReadFrom builtIn v entries) {i : EntityId}
    (hi : i ∈ g.instances) : g.descend? root [Key.components, (g.entity i).name] = some i := by
  obtain ⟨p, name, hp, hchild⟩ := exists_of_mem_declared hi
  rw [name_of_child h.built hchild, descend?, child?, OrderedMap.get?_eq_some.mpr hp,
    Option.bind_some, descend?, child?, OrderedMap.get?_eq_some.mpr hchild]
  rfl

end EntityGraph

/-! ### Variables and inputs -/

namespace Topology

/-- What a map has are variables of components, each with the text of a property. -/
def OnlyVariables (t : Topology) (m : OrderedMap String String) : Prop :=
  ∀ key text, (key, text) ∈ m.toList → ∃ c ∈ t.components, ∃ property,
    (property, text) ∈ c.propertyTexts.toList ∧ c.variableName property = key

variable (t : Topology)

theorem onlyVariables_environment (id : ComponentId) :
    t.OnlyVariables (t.component id).environment := by
  intro key text h
  obtain ⟨⟨property, value⟩, hmem, heq⟩ := List.mem_map.mp (OrderedMap.mem_of_mem_ofList h)
  obtain ⟨hkey, rfl⟩ := Prod.mk.inj heq
  cases hc : t.components[id]? with
  | none =>
    have hdefault : t.component id = default := by rw [component, hc, Option.getD_none]
    have hempty : (default : Component).propertyTexts.toList = [] := rfl
    rw [hdefault, hempty] at hmem
    cases hmem
  | some c =>
    have hcomponent : t.component id = c := by rw [component, hc, Option.getD_some]
    rw [hcomponent] at hmem hkey
    exact ⟨c, Array.mem_of_getElem? hc, property, hmem, hkey⟩

variable {t}

theorem onlyVariables_mergeAll {maps : List (OrderedMap String String)}
    (h : ∀ m ∈ maps, t.OnlyVariables m) : t.OnlyVariables (.mergeAll maps) := by
  intro key text hmem
  obtain ⟨m, hm, hmem⟩ := OrderedMap.exists_of_mem_mergeAll hmem
  exact h m hm key text hmem

theorem onlyVariables_map {ids : List ComponentId} :
    ∀ m ∈ ids.map fun id => (t.component id).environment, t.OnlyVariables m := by
  intro m hm
  obtain ⟨id, _, rfl⟩ := List.mem_map.mp hm
  exact t.onlyVariables_environment id

variable (t)

theorem onlyVariables_stackedEnvironment (id : ComponentId) :
    t.OnlyVariables (t.stackedEnvironment id) := by
  refine onlyVariables_mergeAll (List.forall_mem_append.mpr ⟨onlyVariables_map, fun m hm => ?_⟩)
  rw [List.mem_singleton.mp hm]
  exact t.onlyVariables_environment id

theorem onlyVariables_inputValues (id : ComponentId) :
    t.OnlyVariables (Heat.inputValues t id) := by
  refine onlyVariables_mergeAll (List.forall_mem_append.mpr
    ⟨List.forall_mem_append.mpr ⟨onlyVariables_map, fun m hm => ?_⟩, fun m hm => ?_⟩)
  · rw [List.mem_singleton.mp hm]
    exact onlyVariables_mergeAll onlyVariables_map
  · rw [List.mem_singleton.mp hm]
    exact t.onlyVariables_environment id

theorem onlyVariables_stackEnvironment (order : List ComponentId) (c : ComponentId) :
    t.OnlyVariables (t.stackEnvironment order c) := by
  have hown (c : ComponentId) : t.OnlyVariables (t.ownEnvironment order c) :=
    onlyVariables_mergeAll onlyVariables_map
  refine onlyVariables_mergeAll (List.forall_mem_cons.mpr ⟨hown c, fun m hm => ?_⟩)
  obtain ⟨other, _, rfl⟩ := List.mem_map.mp hm
  exact hown other

end Topology

namespace EntityGraph

/-- **Signed words are written as they are, larger integers are not.** The text of a property of a
component, a relation, or whatever else has a type is the one of the part of the document that
decides its value. For an integer up to `2 ^ 63` this is its decimal text. From there on, up to
the largest integer that is read, it is the text of a multiple of a thousand that is less than
`4096` away. All that the backends set as a variable or as an input is the text of a property. -/
theorem integers_written {builtIn : Bool} {origin text : String} {g : EntityGraph}
    (h : parse builtIn origin text = .ok g) :
    (∀ i : Int, -2 ^ 63 ≤ i → i < 2 ^ 63 → reference? (.integer i) = some (toString i)) ∧
    (∀ n : Nat, 2 ^ 63 ≤ n → n < 2 ^ 64 → ∃ r : Nat,
      reference? (.integer n) = some (toString r) ∧ 1000 ∣ r ∧ r < n + 4096 ∧ n < r + 4096) ∧
    ∃ v entries, Value.parse text = .ok v ∧ topLevel v = .ok entries ∧
      (∀ path w i, (Value.mapping entries).At path w → w.untagged = .integer i →
        -2 ^ 63 ≤ i ∧ i < 2 ^ 64) ∧
      (∀ path e types, g.descend? root (Key.components :: path) = some e → g.Typed e types →
        ∃ own definitions properties,
          (Value.mapping entries).under? (Key.components :: path) = some own ∧
          (∃ space : TypeSpace, List.Forall₂ (fun name w =>
            (whole builtIn entries).under? [space.key, name] = some w)
            (g.names types) definitions) ∧
          g.properties e = .ok properties ∧
          ∀ property value, (property, value) ∈ (propertyTexts properties).toList ↔
            ∃ u, deciding? property (own :: definitions) = some u ∧ reference? u = some value) ∧
      ∀ name m, Model.build name g = .ok m →
        (∀ c ∈ m.topology.components, ∃ e types,
          g.descend? root [Key.components, c.name] = some e ∧ g.Typed e types ∧
          g.properties e = .ok c.properties) ∧
        ∀ id, m.topology.OnlyVariables (m.topology.stackedEnvironment id) ∧
          m.topology.OnlyVariables (Heat.inputValues m.topology id) ∧
          ∀ order, m.topology.OnlyVariables (m.topology.stackEnvironment order id) := by
  obtain ⟨v, entries, hv, hread⟩ := exists_readFrom h
  refine ⟨fun i hlow hhigh => reference?_of_lt hlow hhigh, fun n => exists_reference?_of_le, v,
    entries, hv, hread.top, fun path w i hw hi => (hread.read path w hw).integer i hi,
    fun path e types he ht => ?_, fun name m hm => ⟨fun c hc => ?_, fun id =>
      ⟨m.topology.onlyVariables_stackedEnvironment id, m.topology.onlyVariables_inputValues id,
        fun order => m.topology.onlyVariables_stackEnvironment order id⟩⟩⟩
  · obtain ⟨own, definitions, hown, hspace, hdepicts⟩ := hread.exists_parts he ht
    obtain ⟨b, hb, rfl⟩ := exists_grown_of_ofValue hread.built
    exact ⟨own, definitions, _, hown, hspace, properties_of_typed ht,
      mem_propertyTexts_propertiesOf hb.isTree_build hdepicts⟩
  · have hnames := Model.nodup_names_instances hread.built
    obtain ⟨parts, t, ht, _, rfl⟩ := (Model.build_eq_ok hnames).mp hm
    obtain ⟨i, hi, hc⟩ := exists_mem_of_forall₂ ht.forall₂_components.flip (Array.mem_def.mp hc)
    obtain ⟨types, htypes, hof⟩ := bind_eq_ok.mp hc
    cases hof
    have htyped := chainOf_eq_ok.mp htypes
    exact ⟨i, types, hread.descend?_of_mem_instances hi, htyped, properties_of_typed htyped⟩

/-- A component with a number as a property. -/
def sizedText (number : String) : String :=
  "component_types:\n  base:\ncomponents:\n  app:\n    type: base\n    properties:\n      size: " ++
    number ++ "\n"

def sizedEntries (i : Int) : List (Value × Value) :=
  BuiltIn.entries [(Key.componentTypes, BuiltIn.mapping [("base", .null)]),
    (Key.components, BuiltIn.mapping [("app", BuiltIn.mapping
      [(Key.type, .string "base"), BuiltIn.properties [("size", .integer i)]])])]

theorem parse_largest : Value.parse (sizedText "9223372036854775807") =
    .ok (.mapping (sizedEntries 9223372036854775807)) :=
  Value.parse_eq_ok (by decide +kernel)

theorem integers_written_largest : ∃ g e properties,
    parse false "sized.yaml" (sizedText "9223372036854775807") = .ok g ∧
    g.descend? root [Key.components, "app"] = some e ∧ g.properties e = .ok properties ∧
    ("size", "9223372036854775807") ∈ (propertyTexts properties).toList := by
  have hread : ((ofValue false (.mapping (sizedEntries 9223372036854775807))).mapError
      (Fault.unreadableModel "sized.yaml")).map (fun g =>
        (g.descend? root [Key.components, "app"], g.chainOf 4)) = .ok (some 4, .ok [2]) := by
    decide +kernel
  obtain ⟨g, hg, hall⟩ := map_eq_ok.mp hread
  obtain ⟨he, hchain⟩ := Prod.mk.inj hall
  have hg : parse false "sized.yaml" (sizedText "9223372036854775807") = .ok g := by
    rw [parse, parse_largest]
    exact hg
  obtain ⟨hexact, _, v, entries, hv, htop, _, htexts, _⟩ := integers_written hg
  cases hv.symm.trans parse_largest
  cases htop
  obtain ⟨own, definitions, properties, hown, _, hproperties, hall⟩ :=
    htexts ["app"] 4 [2] he (chainOf_eq_ok.mp hchain)
  cases hown
  exact ⟨g, 4, properties, hg, he, hproperties,
    (hall "size" _).mpr ⟨_, rfl, hexact 9223372036854775807 (by decide) (by decide)⟩⟩

/-- The largest integer that is read is not written as it is. -/
theorem largest_rounded : ∃ g e properties,
    parse false "sized.yaml" (sizedText "18446744073709551615") = .ok g ∧
    Value.parse (sizedText "18446744073709551615") =
      .ok (.mapping (sizedEntries 18446744073709551615)) ∧
    g.descend? root [Key.components, "app"] = some e ∧ g.properties e = .ok properties ∧
    (propertyTexts properties).toList = [("size", "18446744073709552000")] := by
  have hparse : Value.parse (sizedText "18446744073709551615") =
      .ok (.mapping (sizedEntries 18446744073709551615)) := Value.parse_eq_ok (by decide +kernel)
  have hread : ((ofValue false (.mapping (sizedEntries 18446744073709551615))).mapError
      (Fault.unreadableModel "sized.yaml")).map (fun g =>
        (g.descend? root [Key.components, "app"],
          (g.properties 4).map fun properties => (propertyTexts properties).toList)) =
      .ok (some 4, .ok [("size", "18446744073709552000")]) := by
    decide +kernel
  obtain ⟨g, hg, hall⟩ := map_eq_ok.mp hread
  obtain ⟨he, htexts⟩ := Prod.mk.inj hall
  obtain ⟨properties, hproperties, htexts⟩ := map_eq_ok.mp htexts
  have hg : parse false "sized.yaml" (sizedText "18446744073709551615") = .ok g := by
    rw [parse, hparse]
    exact hg
  exact ⟨g, 4, properties, hg, hparse, he, hproperties, htexts⟩

end EntityGraph
end Provision
