import Provision.Proofs.Heat.Layout
import Provision.Proofs.Placement

/-! The references of a Heat template.

A resource refers to parameters and to other resources by name, in its properties and in
the list of what it depends on. Every name that a template refers to stands in it. What a
resource depends on is of a lower rank, so no chain of dependencies comes back. -/
namespace Provision.Heat
open Yaml (Value)

/-! ### Reading a document -/

def text? : Json → Option String
  | .string s => some s
  | _ => none

/-- The type of a resource of a document. -/
def typeOf? : Json → Option String
  | .object members => (OrderedMap.lookup "type" members).bind text?
  | _ => none

/-- The names that a resource of a document depends on. -/
def dependsOn : Json → List String
  | .object members =>
    match OrderedMap.lookup "depends_on" members with
    | some (.array items) => items.filterMap text?
    | _ => []
  | _ => []

/-- One resource of a document depends on another. -/
def Template.DependsOn (template : Template) (source target : String) : Prop :=
  ∃ r, template.resources.get? source = some r ∧ target ∈ dependsOn r

theorem typeOf?_resourceJson (r : Resource) (names : List String) :
    typeOf? (resourceJson r names) = some r.type := rfl

theorem dependsOn_resourceJson (r : Resource) (names : List String) :
    dependsOn (resourceJson r names) = names := by
  have hstrings : (names.map Json.string).filterMap text? = names := by
    rw [List.filterMap_map]
    exact List.filterMap_some
  unfold resourceJson
  cases names with
  | nil => split <;> rfl
  | cons name rest =>
    split
    · exact hstrings
    · exact hstrings

theorem textsAt_resourceJson {key : String} (hkey : key = "get_resource" ∨ key = "get_param")
    (r : Resource) (names : List String) :
    (resourceJson r names).textsAt key = (Json.object r.properties.toList).textsAt key := by
  have htype : Json.memberTexts key ("type", .string r.type) = [] :=
    Json.memberTexts_string (by rcases hkey with rfl | rfl <;> decide) _
  have hdepends : Json.memberTexts key ("depends_on", .strings names) = [] := by
    rw [Json.memberTexts_of_ne (by rcases hkey with rfl | rfl <;> decide), Json.textsAt_strings]
  have hproperties : Json.memberTexts key ("properties", .object r.properties.toList) =
      (Json.object r.properties.toList).textsAt key :=
    Json.memberTexts_of_ne (by rcases hkey with rfl | rfl <;> decide) _
  rw [resourceJson, Json.textsAt_object, List.flatMap_append, List.flatMap_append,
    List.flatMap_singleton, htype, List.nil_append]
  have hlast : (if names.isEmpty then [] else [("depends_on", Json.strings names)]).flatMap
      (Json.memberTexts key) = [] := by
    split
    · rfl
    · rw [List.flatMap_singleton, hdepends]
  rw [hlast, List.append_nil]
  split
  case isTrue hempty =>
    rw [OrderedMap.isEmpty, List.isEmpty_iff] at hempty
    rw [OrderedMap.toList, hempty]
    rfl
  case isFalse => rw [List.flatMap_singleton, hproperties]

/-! ### The listing of a template -/

/-- What a template lists of its resources. -/
def Template.layout (template : Template) : List Entry := template.graph.listing.map entryOf

section Listing
variable {template : Template} (hunique : template.graph.names.Nodup)
include hunique

theorem Template.toList_resources : template.resources.toList =
    template.graph.listing.map fun e => (e.1.name, resourceJson e.1 e.2) := by
  rw [Template.resources_eq hunique, OutputGraph.listing, List.map_map]
  rfl

theorem Template.keys_resources :
    template.resources.keys = template.layout.map Entry.name := by
  rw [OrderedMap.keys, ← OrderedMap.toList, toList_resources hunique, List.map_map, layout,
    List.map_map]
  rfl

theorem Template.size_resources : template.resources.size = template.layout.length := by
  rw [OrderedMap.size, ← OrderedMap.toList, toList_resources hunique, List.length_map, layout,
    List.length_map]

/-- The resources of a document are those of the layout. -/
theorem Template.exists_entry {name : String} {r : Json}
    (h : template.resources.get? name = some r) : ∃ e ∈ template.layout, e.name = name ∧
      typeOf? r = some e.type ∧ r.textsAt "get_resource" = e.resources ∧
      dependsOn r = e.dependsOn := by
  rw [OrderedMap.get?_eq_some, toList_resources hunique] at h
  obtain ⟨⟨r, names⟩, hmem, heq⟩ := List.mem_map.mp h
  cases heq
  exact ⟨entryOf (r, names), List.mem_map.mpr ⟨_, hmem, rfl⟩, rfl, typeOf?_resourceJson r names,
    textsAt_resourceJson (.inl rfl) r names, dependsOn_resourceJson r names⟩

/-- Each entry of the layout is a resource of the document. -/
theorem Template.exists_resource {e : Entry} (he : e ∈ template.layout) :
    ∃ r, template.resources.get? e.name = some r ∧ typeOf? r = some e.type := by
  obtain ⟨⟨r, names⟩, hmem, rfl⟩ := List.mem_map.mp he
  refine ⟨resourceJson r names, ?_, typeOf?_resourceJson r names⟩
  rw [OrderedMap.get?_eq_some, toList_resources hunique]
  exact List.mem_map.mpr ⟨_, hmem, rfl⟩

/-- A document has references in its resources only. -/
theorem Template.textsAt_toJson {key : String} (hkey : key = "get_resource" ∨ key = "get_param") :
    template.toJson.textsAt key =
      template.graph.listing.flatMap fun e => (Json.object e.1.properties.toList).textsAt key := by
  have hne (name : String) (h₁ : name ≠ "get_resource") (h₂ : name ≠ "get_param") : name ≠ key := by
    rcases hkey with rfl | rfl
    · exact h₁
    · exact h₂
  have hmember (name : String) (members : List (String × Json)) :
      Json.memberTexts key (name, .object members) = (Json.object members).textsAt key := rfl
  have hparameter (p : Parameter) : p.toJson.textsAt key = [] := by
    rw [Parameter.toJson, Json.textsAt_object, List.flatMap_cons,
      Json.memberTexts_string (hne _ (by decide) (by decide)), List.nil_append,
      Json.flatMap_memberTexts_string? (hne _ (by decide) (by decide))]
  have hparameters : Json.memberTexts key
      ("parameters", .object (template.parameters.map Parameter.toJson).toList) = [] := by
    rw [hmember, Json.textsAt_object]
    refine List.flatMap_eq_nil_iff.mpr fun p hp => ?_
    obtain ⟨q, _, rfl⟩ := List.mem_map.mp hp
    exact hparameter q.2
  have hresources : Json.memberTexts key ("resources", .object template.resources.toList) =
      template.graph.listing.flatMap fun e =>
        (Json.object e.1.properties.toList).textsAt key := by
    rw [hmember, Json.textsAt_object, toList_resources hunique, List.flatMap_map]
    exact List.flatMap_congr fun e _ => textsAt_resourceJson hkey e.1 e.2
  rw [toJson, Json.textsAt_object, List.flatMap_append, List.flatMap_append, List.flatMap_singleton,
    Json.memberTexts_string (hne _ (by decide) (by decide)),
    Json.flatMap_memberTexts_string? (hne _ (by decide) (by decide)), List.nil_append,
    List.nil_append, List.flatMap_cons, List.flatMap_singleton, hparameters, hresources,
    List.nil_append]

theorem Template.textsAt_get_resource :
    template.toJson.textsAt "get_resource" = template.layout.flatMap Entry.resources := by
  rw [textsAt_toJson hunique (.inl rfl), layout, List.flatMap_map]
  rfl

theorem Template.textsAt_get_param :
    template.toJson.textsAt "get_param" = template.layout.flatMap Entry.parameters := by
  rw [textsAt_toJson hunique (.inr rfl), layout, List.flatMap_map]
  rfl

end Listing

/-! ### What an entry refers to -/

/-- The length of the longest chain of dependencies from a resource of a type. -/
def rank (type : String) : Nat :=
  if type = "OS::Neutron::Port" ∨ type = "OS::Heat::SoftwareConfig" then 0
  else if type = "OS::Nova::Server" ∨ type = "OS::Neutron::FloatingIP" then 1
  else 2

theorem exists_lower_of_compute {name target : String} {e : Entry}
    (he : e ∈ computeEntries name) (htarget : target ∈ e.dependsOn) :
    ∃ e' ∈ computeEntries name, e'.name = target ∧ rank e'.type < rank e.type := by
  simp only [computeEntries, List.mem_cons, List.not_mem_nil, or_false] at he
  rcases he with rfl | rfl | rfl | rfl
  · cases htarget
  · exact ⟨_, List.mem_cons_self, (List.mem_singleton.mp htarget).symm, by simp [rank]⟩
  · exact ⟨_, List.mem_cons_self, (List.mem_singleton.mp htarget).symm, by simp [rank]⟩
  · rcases List.mem_pair.mp htarget with rfl | rfl
    · exact ⟨_, List.mem_cons_of_mem _ (List.mem_cons_of_mem _ List.mem_cons_self), rfl,
        by simp [rank]⟩
    · exact ⟨_, List.mem_cons_self, rfl, by simp [rank]⟩

section Order
variable {t : Topology} {order : List ComponentId} {e : Entry}

theorem mem_of_computeEntries {c : ComponentId} (hc : c ∈ t.computesOf order)
    (he : e ∈ computeEntries (t.component c).identifier) : e ∈ order.flatMap (entriesOf t) := by
  obtain ⟨hmem, hcompute⟩ := List.mem_filter.mp hc
  refine List.mem_flatMap.mpr ⟨c, hmem, ?_⟩
  rwa [entriesOf, if_pos hcompute]

/-- An entry belongs to a compute or to a deployment. -/
theorem mem_entriesOf {id : ComponentId} : e ∈ entriesOf t id ↔
    (t.component id).isA .compute = true ∧ e ∈ computeEntries (t.component id).identifier ∨
    ∃ c, t.placed? id = some c ∧ ∃ o ∈ (t.component id).scriptedOperations,
      e ∈ deploymentEntries (deploymentName t id o) (t.component c).identifier := by
  unfold entriesOf
  cases hid : (t.component id).isA .compute with
  | true => simp [Topology.placed?_of_isA hid]
  | false =>
    cases t.placed? id with
    | none => simp
    | some c => simp

/-- What a component runs on is there. -/
theorem mem_computesOf_of_placed? (ht : t.Built) (horder : t.hostingOrder = .ok order)
    {id c : ComponentId} (hid : id ∈ order) (hc : t.placed? id = some c) :
    c ∈ t.computesOf order := by
  obtain ⟨done, rest, rfl⟩ := List.append_of_mem hid
  obtain ⟨hdone, hcompute⟩ := List.mem_filter.mp (Topology.mem_done_of_placed? ht horder hc)
  exact List.mem_filter.mpr ⟨List.mem_append_left _ hdone, hcompute⟩

/-- What a resource depends on is there, and of a lower rank. -/
theorem exists_lower (ht : t.Built) (horder : t.hostingOrder = .ok order)
    (he : e ∈ order.flatMap (entriesOf t)) {target : String} (htarget : target ∈ e.dependsOn) :
    ∃ e' ∈ order.flatMap (entriesOf t), e'.name = target ∧ rank e'.type < rank e.type := by
  obtain ⟨id, hid, he⟩ := List.mem_flatMap.mp he
  rcases mem_entriesOf.mp he with ⟨hcompute, he⟩ | ⟨c, hc, o, ho, hentry⟩
  · obtain ⟨e', he', hname, hrank⟩ := exists_lower_of_compute he htarget
    exact ⟨e', mem_of_computeEntries (List.mem_filter.mpr ⟨hid, hcompute⟩) he', hname, hrank⟩
  · have hcomputes := mem_computesOf_of_placed? ht horder hid hc
    have hconfig := List.mem_flatMap.mpr ⟨id, hid, mem_entriesOf.mpr
      (.inr ⟨c, hc, o, ho, List.mem_cons_of_mem _ List.mem_cons_self⟩)⟩
    rcases List.mem_pair.mp hentry with rfl | rfl
    · rcases List.mem_pair.mp htarget with rfl | rfl
      · exact ⟨_, mem_of_computeEntries hcomputes (List.mem_cons_of_mem _ List.mem_cons_self), rfl,
          by simp [rank]⟩
      · exact ⟨_, hconfig, rfl, by simp [rank]⟩
    · cases htarget

/-- A resource depends on what its properties refer to. -/
theorem dependsOn_of_mem_resources (he : e ∈ order.flatMap (entriesOf t)) {target : String}
    (htarget : target ∈ e.resources) : target ∈ e.dependsOn := by
  obtain ⟨id, hid, he⟩ := List.mem_flatMap.mp he
  rcases mem_entriesOf.mp he with ⟨hcompute, he⟩ | ⟨c, hc, o, ho, hentry⟩
  · simp only [computeEntries, List.mem_cons, List.not_mem_nil, or_false] at he
    rcases he with rfl | rfl | rfl | rfl
    all_goals exact htarget
  · rcases List.mem_pair.mp hentry with rfl | rfl
    · exact List.mem_pair.mpr (List.mem_pair.mp htarget).symm
    · cases htarget

/-- Only what computes add refers to parameters. -/
theorem mem_sharedParameters (he : e ∈ order.flatMap (entriesOf t)) {name : String}
    (hname : name ∈ e.parameters) :
    t.computesOf order ≠ [] ∧ name ∈ sharedParameters.map Prod.fst := by
  obtain ⟨id, hid, he⟩ := List.mem_flatMap.mp he
  rcases mem_entriesOf.mp he with ⟨hcompute, he⟩ | ⟨c, hc, o, ho, hentry⟩
  · refine ⟨List.ne_nil_of_mem (List.mem_filter.mpr ⟨hid, hcompute⟩), ?_⟩
    have hshared : sharedParameters.map Prod.fst =
      ["key_name", "image", "flavor", "network", "security_group"] := rfl
    simp only [computeEntries, List.mem_cons, List.not_mem_nil, or_false] at he
    rcases he with rfl | rfl | rfl | rfl
    all_goals
      rw [hshared]
      simp only [List.mem_cons, List.not_mem_nil, or_false] at hname ⊢ <;> tauto
  · rcases List.mem_pair.mp hentry with rfl | rfl
    all_goals cases hname

end Order

/-! ### How many resources there are -/

/-- The operations of a component that are deployed. -/
def deployedOf (t : Topology) (id : ComponentId) : List Operation :=
  if (t.placed? id).isSome then (t.component id).operations.values.filter Operation.hasArtifacts
  else []

theorem length_entriesOf (t : Topology) (id : ComponentId) : (entriesOf t id).length =
    (if (t.component id).isA .compute then 4 else 0) + 2 * (deployedOf t id).length := by
  unfold entriesOf deployedOf
  split
  case isTrue hid => simp [Topology.placed?_of_isA hid, computeEntries]
  case isFalse =>
    cases t.placed? id with
    | none => rfl
    | some c =>
      have hscripted : (t.component id).scriptedOperations.length =
          ((t.component id).operations.values.filter Operation.hasArtifacts).length :=
        ((sort_perm _ _).filter _).length_eq
      simp [deploymentEntries, List.length_flatMap, hscripted, Nat.mul_comm]

theorem length_entries (t : Topology) (l : List ComponentId) :
    (l.flatMap (entriesOf t)).length =
      4 * (t.computesOf l).length + 2 * (l.flatMap (deployedOf t)).length := by
  induction l with
  | nil => rfl
  | cons id rest ih =>
    have hcomputes : (t.computesOf (id :: rest)).length =
        (if (t.component id).isA .compute then 1 else 0) + (t.computesOf rest).length := by
      rw [Topology.computesOf, List.filter_cons]
      split
      · rw [List.length_cons, Nat.add_comm, Topology.computesOf]
      · rw [Nat.zero_add, Topology.computesOf]
    rw [List.flatMap_cons, List.flatMap_cons, List.length_append, List.length_append, ih,
      length_entriesOf, hcomputes]
    split <;> omega

/-! ### The template -/

/-- A resource deploys an operation of software to the server of the compute that the software
runs on, and has a config of its own. -/
def Template.Deploys (template : Template) (t : Topology) (name : String) (r : Json) : Prop :=
  ∃ id c o config server, id < t.size ∧ (t.component id).isA .compute = false ∧
    t.computeOf id = .ok (some c) ∧ o ∈ (t.component id).operations.values ∧
    o.hasArtifacts = true ∧ name = deploymentName t id o ∧
    r.textsAt "get_resource" = [name ++ "_config", (t.component c).identifier] ∧
    dependsOn r = [(t.component c).identifier, name ++ "_config"] ∧
    template.resources.get? (name ++ "_config") = some config ∧
    typeOf? config = some "OS::Heat::SoftwareConfig" ∧
    template.resources.get? (t.component c).identifier = some server ∧
    typeOf? server = some "OS::Nova::Server"

/-- What a template refers to stands in it, and each part of it stands once. -/
structure Closed (t : Topology) (template : Template) : Prop where
  resources : ∀ name ∈ template.toJson.textsAt "get_resource", name ∈ template.resources.keys
  parameters : ∀ name ∈ template.toJson.textsAt "get_param", name ∈ template.parameters.keys
  dependencies : ∀ source target, template.DependsOn source target →
    target ∈ template.resources.keys
  acyclic : ∀ name, ¬ Relation.TransGen template.DependsOn name name
  size : template.resources.size =
    4 * (t.computesOf t.ids).length + 2 * (t.ids.flatMap (deployedOf t)).length
  deployments : ∀ name r, template.resources.get? name = some r →
    typeOf? r = some "OS::Heat::SoftwareDeployment" → template.Deploys t name r

section Template
variable {σ : Type} {job : Job (StateM σ)} {order : List ComponentId} {s : State}

theorem layout_template (h : LayoutFor job.model.topology order s) :
    (template job s).layout = order.flatMap (entriesOf job.model.topology) :=
  h.layout

theorem mem_keys_of_entry (h : LayoutFor job.model.topology order s) {e : Entry}
    (he : e ∈ order.flatMap (entriesOf job.model.topology)) :
    e.name ∈ (template job s).resources.keys := by
  rw [Template.keys_resources h.unique]
  exact List.mem_map.mpr ⟨e, layout_template h ▸ he, rfl⟩

/-- Names stand for one entry. -/
theorem entry_ext (h : LayoutFor job.model.topology order s) {e e' : Entry}
    (he : e ∈ order.flatMap (entriesOf job.model.topology))
    (he' : e' ∈ order.flatMap (entriesOf job.model.topology)) (hname : e.name = e'.name) :
    e = e' := by
  have hnames : (s.layout.map Entry.name).Nodup := names_layout s ▸ h.unique
  rw [← h.layout] at he he'
  exact List.inj_on_of_nodup_map hnames he he' hname

/-- A chain of dependencies goes down in rank. -/
theorem exists_lower_of_transGen (ht : job.model.topology.Built)
    (horder : job.model.topology.hostingOrder = .ok order)
    (h : LayoutFor job.model.topology order s) {a b : String}
    (hab : Relation.TransGen (template job s).DependsOn a b) :
    ∃ e ∈ order.flatMap (entriesOf job.model.topology), e.name = a ∧
      ∃ e' ∈ order.flatMap (entriesOf job.model.topology), e'.name = b ∧
        rank e'.type < rank e.type := by
  have hstep {a b : String} (hab : (template job s).DependsOn a b) :
      ∃ e ∈ order.flatMap (entriesOf job.model.topology), e.name = a ∧
        ∃ e' ∈ order.flatMap (entriesOf job.model.topology), e'.name = b ∧
          rank e'.type < rank e.type := by
    obtain ⟨r, hr, hb⟩ := hab
    obtain ⟨e, he, hname, _, _, hdepends⟩ := Template.exists_entry h.unique hr
    have hmem : e ∈ order.flatMap (entriesOf job.model.topology) := layout_template h ▸ he
    exact ⟨e, hmem, hname, exists_lower ht horder hmem (hdepends ▸ hb)⟩
  induction hab with
  | single hab => exact hstep hab
  | tail _ hbc ih =>
    obtain ⟨e₁, he₁, ha, e₂, he₂, hb, hlt⟩ := ih
    obtain ⟨e₃, he₃, hb', e₄, he₄, hc, hlt'⟩ := hstep hbc
    cases entry_ext h he₂ he₃ (hb.trans hb'.symm)
    exact ⟨e₁, he₁, ha, e₄, he₄, hc, hlt'.trans hlt⟩

theorem deploys_of_layout (ht : job.model.topology.Built)
    (horder : job.model.topology.hostingOrder = .ok order)
    (h : LayoutFor job.model.topology order s) {name : String} {r : Json}
    (hr : (template job s).resources.get? name = some r)
    (htype : typeOf? r = some "OS::Heat::SoftwareDeployment") :
    (template job s).Deploys job.model.topology name r := by
  obtain ⟨e, he, rfl, he_type, hresources, hdepends⟩ := Template.exists_entry h.unique hr
  rw [htype] at he_type
  have hmem : e ∈ order.flatMap (entriesOf job.model.topology) := layout_template h ▸ he
  have hunique : (template job s).graph.names.Nodup := h.unique
  have hresource (e : Entry) (he : e ∈ order.flatMap (entriesOf job.model.topology)) :=
    Template.exists_resource hunique (e := e) (layout_template h ▸ he)
  obtain ⟨id, hid, hentry⟩ := List.mem_flatMap.mp hmem
  rcases mem_entriesOf.mp hentry with ⟨_, hentry⟩ | ⟨c, hc, o, ho, hentry⟩
  · simp only [computeEntries, List.mem_cons, List.not_mem_nil, or_false] at hentry
    rcases hentry with rfl | rfl | rfl | rfl
    all_goals simp at he_type
  · rcases List.mem_pair.mp hentry with rfl | rfl
    · obtain ⟨config, hconfig, hconfig_type⟩ := hresource _ (List.mem_flatMap.mpr ⟨id, hid,
        mem_entriesOf.mpr (.inr ⟨c, hc, o, ho, List.mem_cons_of_mem _ List.mem_cons_self⟩)⟩)
      obtain ⟨server, hserver, hserver_type⟩ := hresource _ (mem_of_computeEntries
        (mem_computesOf_of_placed? ht horder hid hc) (List.mem_cons_of_mem _ List.mem_cons_self))
      obtain ⟨hsoftware, hof⟩ := Topology.placed?_eq_some.mp hc
      obtain ⟨ho, hscripted⟩ := List.mem_filter.mp ho
      have hsize := List.mem_range.mp ((Topology.hostingOrder_perm ht horder).mem_iff.mp hid)
      exact ⟨id, c, o, config, server, hsize, hsoftware, hof, (sort_perm _ _).mem_iff.mp ho,
        hscripted, rfl, hresources, hdepends, hconfig, hconfig_type, hserver, hserver_type⟩
    · simp at he_type

theorem LayoutFor.closed (ht : job.model.topology.Built)
    (horder : job.model.topology.hostingOrder = .ok order)
    (h : LayoutFor job.model.topology order s) :
    Closed job.model.topology (template job s) := by
  have hperm := Topology.hostingOrder_perm ht horder
  refine ⟨fun name hname => ?_, fun name hname => ?_, fun a b hab => ?_, fun name hcycle => ?_, ?_,
    fun name r hr htype => ?_⟩
  · rw [Template.textsAt_get_resource h.unique] at hname
    obtain ⟨e, he, hname⟩ := List.mem_flatMap.mp hname
    have hmem : e ∈ order.flatMap (entriesOf job.model.topology) := layout_template h ▸ he
    obtain ⟨e', he', rfl, _⟩ := exists_lower ht horder hmem (dependsOn_of_mem_resources hmem hname)
    exact mem_keys_of_entry h he'
  · rw [Template.textsAt_get_param h.unique] at hname
    obtain ⟨e, he, hname⟩ := List.mem_flatMap.mp hname
    obtain ⟨hcomputes, hshared⟩ := mem_sharedParameters (layout_template h ▸ he) hname
    exact h.parameters hcomputes name hshared
  · obtain ⟨_, _, _, e, he, rfl, _⟩ := exists_lower_of_transGen ht horder h (.single hab)
    exact mem_keys_of_entry h he
  · obtain ⟨e, he, hname, e', he', hname', hlt⟩ := exists_lower_of_transGen ht horder h hcycle
    cases entry_ext h he he' (hname.trans hname'.symm)
    exact Nat.lt_irrefl _ hlt
  · have hcomputes : (job.model.topology.computesOf order).length =
        (job.model.topology.computesOf job.model.topology.ids).length :=
      (hperm.filter _).length_eq
    rw [Template.size_resources h.unique, layout_template h, length_entries, hcomputes,
      (hperm.flatMap_right _).length_eq]
  · exact deploys_of_layout ht horder h hr htype

end Template

/-- **A template refers to nothing that is not in it, and none of its resources replaced another.**
A run that succeeds writes such a template. It has four resources for each compute and two for
each operation with scripts of software that runs on a compute. -/
theorem closed_of_run {σ : Type} {job : Job (StateM σ)} {name : String} {g : EntityGraph}
    (hbuild : Model.build name g = .ok job.model) {w w' : σ} {p : Progress}
    (h : ((lifecycle job).run .idle).run w = ((.ok (), p), w')) :
    ∃ template, Closed job.model.topology template ∧
      job.Delivers [(templateFile job.model, Yaml.write template.toJson)] w' := by
  have ht := Model.built_of_build hbuild
  obtain ⟨s, visited, w₁, w₂, w₃, hvisit, hwrite, hrelease⟩ := Job.exists_visit_of_run h
  obtain ⟨order, horder, hlayout⟩ := layoutFor_of_visit ht hvisit
  exact ⟨template job s, hlayout.closed ht horder, Job.delivers_of_write hwrite hrelease⟩

theorem closed_of_run_web : ∃ g model template w', EntityGraph.ofValue true webDocument = .ok g ∧
    Model.build "web" g = .ok model ∧ Closed model.topology template ∧
    template.resources.size = 8 ∧
    (webJob model).Delivers [(templateFile model, Yaml.write template.toJson)] w' := by
  have hweb : (((EntityGraph.ofValue true webDocument).mapError (.unreadableModel "web.yaml") >>=
      Model.build "web").map fun m => (succeeds lifecycle m,
        (m.topology.computesOf m.topology.ids).length,
        (m.topology.ids.flatMap (deployedOf m.topology)).length)) = .ok (true, 1, 2) := by
    decide +kernel
  obtain ⟨model, hm, hall⟩ := map_eq_ok.mp hweb
  obtain ⟨g, hg, hbuild⟩ := bind_eq_ok.mp hm
  obtain ⟨hheat, hcomputes, hdeployed⟩ : _ ∧ _ ∧ _ := by simpa only [Prod.mk.injEq] using hall
  obtain ⟨p, w', hrun⟩ := run_of_succeeds hheat
  have hjob : Model.build "web" g = .ok (webJob model).model := hbuild
  obtain ⟨template, hclosed, hdelivers⟩ := closed_of_run hjob hrun
  have hsize := hclosed.size
  have hmodel : (webJob model).model = model := rfl
  rw [hmodel, hcomputes, hdeployed] at hsize
  exact ⟨g, model, template, w', mapError_eq_ok.mp hg, hbuild, hclosed, hsize, hdelivers⟩

/-- A machine with a script of its own. -/
def machineDocument : Value :=
  BuiltIn.mapping
    [(Key.components, BuiltIn.mapping
        [("vm", BuiltIn.mapping
            [(Key.type, .string "compute"),
              (Key.operations, BuiltIn.mapping [("create", .string "start.sh")])])])]

/-- The operations with scripts of a component that leads to a compute. -/
def resolvedOf (t : Topology) (id : ComponentId) : List Operation :=
  match t.computeOf id with
  | .ok (some _) => (t.component id).operations.values.filter Operation.hasArtifacts
  | _ => []

/-- A compute leads to itself, yet its own operations are not deployed. -/
theorem machine_operations_not_deployed : ∃ (g : EntityGraph) (model : Model) (template : Template)
    (p : Progress) (w' : Memory.Store), EntityGraph.ofValue true machineDocument = .ok g ∧
    Model.build "machine" g = .ok model ∧
    ((lifecycle (webJob model)).run .idle).run {} = ((.ok (), p), w') ∧
    (webJob model).Delivers [(templateFile model, Yaml.write template.toJson)] w' ∧
    template.resources.size = 4 ∧
    4 * (model.topology.computesOf model.topology.ids).length +
      2 * (model.topology.ids.flatMap (resolvedOf model.topology)).length = 6 := by
  have hmachine : (((EntityGraph.ofValue true machineDocument).mapError
      (.unreadableModel "machine.yaml") >>= Model.build "machine").map fun m =>
        (succeeds lifecycle m,
        (m.topology.computesOf m.topology.ids).length,
        (m.topology.ids.flatMap (deployedOf m.topology)).length,
        (m.topology.ids.flatMap (resolvedOf m.topology)).length)) = .ok (true, 1, 0, 1) := by
    decide +kernel
  obtain ⟨model, hm, hall⟩ := map_eq_ok.mp hmachine
  obtain ⟨g, hg, hbuild⟩ := bind_eq_ok.mp hm
  obtain ⟨hheat, hcomputes, hdeployed, hresolved⟩ : _ ∧ _ ∧ _ ∧ _ := by
    simpa only [Prod.mk.injEq] using hall
  obtain ⟨p, w', hrun⟩ := run_of_succeeds hheat
  have ht : (webJob model).model.topology.Built := Model.built_of_build hbuild
  obtain ⟨s, visited, w₁, w₂, w₃, hvisit, hwrite, hrelease⟩ := Job.exists_visit_of_run hrun
  obtain ⟨order, horder, hlayout⟩ := layoutFor_of_visit ht hvisit
  have hsize := (hlayout.closed ht horder).size
  have hmodel : (webJob model).model = model := rfl
  rw [hmodel, hcomputes, hdeployed] at hsize
  exact ⟨g, model, template (webJob model) s, p, w', mapError_eq_ok.mp hg, hbuild, hrun,
    Job.delivers_of_write hwrite hrelease, hsize, by rw [hcomputes, hresolved]⟩

end Provision.Heat
