import Provision.Proofs.Heat.Deployments
import Provision.Proofs.Json.References
import Mathlib

/-! The layout of a Heat template.

What a template lists of a resource are its name and its type, the parameters and the
resources that its properties refer to, and the resources that it depends on. Along the
hosting order a compute adds its four resources, which refer to each other, and what runs
on a compute adds two for each of its operations that has scripts; they refer to the server
of the compute. Only the server is changed later, by a property that refers to nothing. -/
namespace Provision.Heat
open Build

variable {σ : Type} {job : Job (StateM σ)}

/-- What a template lists of a resource. -/
structure Entry where
  name : String
  type : String
  /-- The parameters that the properties refer to. -/
  parameters : List String
  /-- The resources that the properties refer to. -/
  resources : List String
  dependsOn : List String
  deriving DecidableEq, Repr

def entryOf (e : Resource × List String) : Entry where
  name := e.1.name
  type := e.1.type
  parameters := (Json.object e.1.properties.toList).textsAt "get_param"
  resources := (Json.object e.1.properties.toList).textsAt "get_resource"
  dependsOn := e.2

def State.layout (s : State) : List Entry := s.graph.listing.map entryOf

/-! ### The entries of a component -/

def computeEntries (name : String) : List Entry :=
  [⟨name ++ "_port", "OS::Neutron::Port", ["network", "security_group"], [], []⟩,
    ⟨name, "OS::Nova::Server", ["key_name", "image", "flavor"], [name ++ "_port"],
      [name ++ "_port"]⟩,
    ⟨name ++ "_floating_ip", "OS::Neutron::FloatingIP", ["network"], [name ++ "_port"],
      [name ++ "_port"]⟩,
    ⟨name ++ "_floating_ip_association", "OS::Neutron::FloatingIPAssociation", [],
      [name ++ "_floating_ip", name ++ "_port"], [name ++ "_floating_ip", name ++ "_port"]⟩]

/-- The entries of a deployment to a server, and of its config. -/
def deploymentEntries (name server : String) : List Entry :=
  [⟨name, "OS::Heat::SoftwareDeployment", [], [name ++ "_config", server],
      [server, name ++ "_config"]⟩,
    ⟨name ++ "_config", "OS::Heat::SoftwareConfig", [], [], []⟩]

def entriesOf (t : Topology) (id : ComponentId) : List Entry :=
  if (t.component id).isA .compute then computeEntries (t.component id).identifier
  else
    match t.placed? id with
    | none => []
    | some c => (t.component id).scriptedOperations.flatMap fun o =>
      deploymentEntries (deploymentName t id o) (t.component c).identifier

/-! ### Values that refer to nothing -/

theorem upper_ne {key : String} {c : Char} (hc : c ∈ key.toList) (hlower : c.isLower = true)
    (s : String) : Text.upper s ≠ key := by
  intro h
  rw [← h, Text.upper, String.toList_ofList] at hc
  obtain ⟨d, _, rfl⟩ := List.mem_map.mp hc
  rw [Char.isLower_toUpper_eq_false] at hlower
  cases hlower

/-- A variable has its name in capitals. -/
theorem exists_of_mem_environment {c : Component} {p : String × String}
    (h : p ∈ c.environment.toList) : ∃ s, p.1 = Text.upper s := by
  obtain ⟨q, _, rfl⟩ := List.mem_map.mp (OrderedMap.mem_of_mem_ofList h)
  exact ⟨_, rfl⟩

theorem exists_of_mem_inputValues {t : Topology} {id : ComponentId} {p : String × String}
    (h : p ∈ (inputValues t id).toList) : ∃ s, p.1 = Text.upper s := by
  obtain ⟨m, hm, hp⟩ := OrderedMap.exists_of_mem_mergeAll h
  rw [List.mem_append, List.mem_append, List.mem_singleton, List.mem_singleton] at hm
  rcases hm with (hm | rfl) | rfl
  · obtain ⟨host, _, rfl⟩ := List.mem_map.mp hm
    exact exists_of_mem_environment hp
  · obtain ⟨m, hm, hp⟩ := OrderedMap.exists_of_mem_mergeAll hp
    obtain ⟨other, _, rfl⟩ := List.mem_map.mp hm
    exact exists_of_mem_environment hp
  · exact exists_of_mem_environment hp

theorem ne_reference_of_mem_inputValues {t : Topology} {id : ComponentId} {p : String × String}
    (h : p ∈ (inputValues t id).toList) : p.1 ≠ "get_resource" ∧ p.1 ≠ "get_param" := by
  obtain ⟨s, hs⟩ := exists_of_mem_inputValues h
  rw [hs]
  exact ⟨upper_ne (c := 'g') (by decide) (by decide) s,
    upper_ne (c := 'g') (by decide) (by decide) s⟩

theorem entryOf_port (name : String) : entryOf (portOf name, []) =
    ⟨name ++ "_port", "OS::Neutron::Port", ["network", "security_group"], [], []⟩ := rfl

theorem entryOf_server (name : String) : entryOf (serverOf name, []) =
    ⟨name, "OS::Nova::Server", ["key_name", "image", "flavor"], [name ++ "_port"], []⟩ := rfl

theorem entryOf_floatingIp (name : String) : entryOf (floatingIpOf name, []) =
    ⟨name ++ "_floating_ip", "OS::Neutron::FloatingIP", ["network"], [name ++ "_port"], []⟩ := rfl

theorem entryOf_association (name : String) : entryOf (associationOf name, []) =
    ⟨name ++ "_floating_ip_association", "OS::Neutron::FloatingIPAssociation", [],
      [name ++ "_floating_ip", name ++ "_port"], []⟩ := rfl

theorem entryOf_deployment (t : Topology) (id : ComponentId) (name server : String) :
    entryOf (deploymentOf name server (inputValues t id), []) =
      ⟨name, "OS::Heat::SoftwareDeployment", [], [name ++ "_config", server], []⟩ := by
  unfold deploymentOf
  split
  case isTrue => rfl
  case isFalse =>
    have hinputs {key : String} (hkey : key = "get_resource" ∨ key = "get_param")
        {member : String × String → String × Json} (hmember : ∀ p, member p = (p.1, .string p.2)) :
        Json.memberTexts key
          ("input_values", .sorted ((inputValues t id).toList.map member)) = [] := by
      rw [Json.memberTexts_of_ne (by rcases hkey with rfl | rfl <;> decide)]
      refine Json.textsAt_sorted_eq_nil fun m hm => ?_
      obtain ⟨p, hp, rfl⟩ := List.mem_map.mp hm
      obtain ⟨hresource, hparam⟩ := ne_reference_of_mem_inputValues hp
      rw [hmember]
      refine Json.memberTexts_string ?_ _
      rcases hkey with rfl | rfl
      · exact hresource
      · exact hparam
    show Entry.mk _ _ (Json.textsAt _ (.object [_, _, _]))
      (Json.textsAt _ (.object [_, _, _])) _ = _
    simp only [Json.textsAt_object, List.flatMap_cons, hinputs (.inl rfl) fun _ => rfl,
      hinputs (.inr rfl) fun _ => rfl]
    rfl

theorem entryOf_config (t : Topology) (id : ComponentId) (name script : String) :
    entryOf (configOf name script (inputValues t id), []) =
      ⟨name ++ "_config", "OS::Heat::SoftwareConfig", [], [], []⟩ := by
  unfold configOf
  split
  case isTrue => rfl
  case isFalse =>
    have hinputs (key : String) (hkey : "name" ≠ key) (hkey' : "inputs" ≠ key) :
        Json.memberTexts key ("inputs",
          .array ((inputValues t id).keys.map fun k => .object [("name", .string k)])) = [] := by
      rw [Json.memberTexts_of_ne hkey', Json.textsAt_array, List.flatMap_map]
      refine List.flatMap_eq_nil_iff.mpr fun k _ => ?_
      rw [Json.textsAt_object, List.flatMap_singleton, Json.memberTexts_string hkey]
    show Entry.mk _ _ (Json.textsAt _ (.object [_, _, _]))
      (Json.textsAt _ (.object [_, _, _])) _ = _
    simp only [Json.textsAt_object, List.flatMap_cons, hinputs "get_param" (by decide) (by decide),
      hinputs "get_resource" (by decide) (by decide)]
    rfl

/-! ### One step -/

/-- A server has a format once something is deployed to it. -/
def Formatted (r : Resource) : Prop :=
  ∀ v, ("user_data_format", v) ∈ r.properties.toList → v = .string "SOFTWARE_CONFIG"

structure State.Ready (s : State) : Prop where
  inRange : s.graph.InRange
  formatted : ∀ r ∈ s.graph.nodes.toList, Formatted r

theorem formatted_set (r : Resource) :
    Formatted (r.set "user_data_format" (.string "SOFTWARE_CONFIG")) := by
  intro v hv
  rcases OrderedMap.mem_insert.mp hv with ⟨_, rfl⟩ | ⟨hne, _⟩
  · rfl
  · exact absurd rfl hne

/-- The format refers to nothing. -/
theorem entryOf_set {r : Resource} (hr : Formatted r) (names : List String) :
    entryOf (r.set "user_data_format" (.string "SOFTWARE_CONFIG"), names) = entryOf (r, names) := by
  have htexts {key : String} (hkey : "user_data_format" ≠ key) :
      (Json.object (r.set "user_data_format" (.string "SOFTWARE_CONFIG")).properties.toList).textsAt
        key = (Json.object r.properties.toList).textsAt key := by
    rw [Json.textsAt_object, Json.textsAt_object]
    refine OrderedMap.flatMap_put (Json.memberTexts_string hkey _) fun v hv => ?_
    rw [hr v hv]
    exact Json.memberTexts_string hkey _
  unfold entryOf
  rw [htexts (by decide), htexts (by decide)]
  rfl

/-- Entries are added, the others stay as they are, and so do all parameters. -/
structure Lays (new : List Entry) (s s' : State) : Prop where
  ready : s'.Ready
  layout : s'.layout = s.layout ++ new
  parameters : ∀ name ∈ s.parameters.keys, name ∈ s'.parameters.keys

section Step
variable {a b : State} {new new' before after : List Entry} {s s' : Assembly State × σ}

theorem Lays.refl (ha : a.Ready) : Lays [] a a where
  ready := ha
  layout := (List.append_nil _).symm
  parameters := fun _ hname => hname

theorem Lays.trans {c : State} (h : Lays new a b) (h' : Lays new' b c) :
    Lays (new ++ new') a c where
  ready := h'.ready
  layout := by rw [h'.layout, h.layout, List.append_assoc]
  parameters := fun name hname => h'.parameters name (h.parameters name hname)

theorem length_layout (s : State) : s.layout.length = s.graph.size := by
  rw [State.layout, List.length_map, OutputGraph.length_listing]

theorem nameOf_of_layout {s : State} {k : NodeId} {e : Entry} (h : s.layout[k]? = some e) :
    s.graph.nameOf k = e.name := by
  rw [State.layout, List.getElem?_map, OutputGraph.getElem?_listing] at h
  rw [OutputGraph.nameOf]
  cases hnode : s.graph.node? k with
  | none =>
    rw [hnode] at h
    cases h
  | some n =>
    rw [hnode] at h
    cases h
    rfl

theorem lt_of_layout {s : State} {k : NodeId} {e : Entry} (h : s.layout[k]? = some e) :
    k < s.graph.size := by
  rw [← length_layout]
  exact (List.getElem?_eq_some_iff.mp h).1

/-- What is there stays there. -/
theorem Lays.getElem? (h : Lays new a b) {k : NodeId} {e : Entry} (he : a.layout[k]? = some e) :
    b.layout[k]? = some e := by
  rw [h.layout, List.getElem?_append_left (List.getElem?_eq_some_iff.mp he).1, he]

theorem Lays.getElem?_new (before after : List Entry) {e : Entry}
    (h : Lays (before ++ e :: after) a b) :
    b.layout[a.layout.length + before.length]? = some e := by
  rw [h.layout, List.getElem?_append_right (Nat.le_add_right _ _), Nat.add_sub_cancel_left,
    List.getElem?_append_right (Nat.le_refl _), Nat.sub_self]
  rfl

theorem names_layout (s : State) : s.layout.map Entry.name = s.graph.names := by
  rw [State.layout, List.map_map, OutputGraph.listing, List.map_map, ← OutputGraph.map_name_zipIdx]
  rfl

/-- A resource that is added comes last under a new name, and depends on nothing yet. -/
theorem Lays.add {r : Resource} {id : NodeId} (h : Lays new a s.1.built) (hr : Formatted r)
    (hadd : Yields (addResource r) s id s') :
    Lays (new ++ [entryOf (r, [])]) a s'.1.built ∧ id = a.layout.length + new.length ∧
      r.name ∉ s.1.built.layout.map Entry.name := by
  obtain ⟨⟨node, graph⟩, hnode, hadd⟩ := yields_ofExcept_bind.mp (yields_built_bind.mp hadd)
  obtain ⟨hname, rfl, rfl⟩ := OutputGraph.addNode_eq_ok.mp hnode
  have hadd := yields_change_bind.mp hadd
  obtain ⟨rfl, rfl⟩ := yields_pure.mp hadd
  refine ⟨⟨⟨h.ready.inRange.push r, fun r' hr' => ?_⟩, ?_, h.parameters⟩, ?_, ?_⟩
  · rw [Array.toList_push, List.mem_append, List.mem_singleton] at hr'
    rcases hr' with hr' | rfl
    · exact h.ready.formatted r' hr'
    · exact hr
  · show (OutputGraph.listing _).map entryOf = _
    rw [OutputGraph.listing_push h.ready.inRange, List.map_append, ← State.layout, h.layout,
      List.append_assoc]
    rfl
  · rw [← length_layout, h.layout, List.length_append]
  · rw [names_layout]
    exact hname

/-- A dependency on something else is listed last with its source. -/
theorem Lays.depend (before after : List Entry) {e d : Entry} {target : NodeId}
    (h : Lays (before ++ e :: after) a s.1.built)
    (htarget : s.1.built.layout[target]? = some d) (hnew : d.name ∉ e.dependsOn)
    (hdepend : Yields (addDependency (a.layout.length + before.length) target) s () s') :
    Lays (before ++ { e with dependsOn := e.dependsOn ++ [d.name] } :: after) a s'.1.built := by
  obtain ⟨earlier, listed, hsplit, hearlier, hlisted⟩ := List.map_eq_append_iff.mp h.layout
  obtain ⟨before', listed', rfl, hbefore, hlisted⟩ := List.map_eq_append_iff.mp hlisted
  obtain ⟨⟨r, names⟩, after', rfl, rfl, hafter⟩ := List.map_eq_cons_iff.mp hlisted
  have hsource : a.layout.length + before.length = (earlier ++ before').length := by
    rw [← hearlier, ← hbefore, List.length_map, List.length_map, List.length_append]
  have hname := nameOf_of_layout htarget
  rw [← List.append_assoc] at hsplit
  have hdepend := yields_change.mp hdepend
  subst hdepend
  refine ⟨⟨?_, ?_⟩, ?_, h.parameters⟩
  · refine h.ready.inRange.addEdge ?_ (lt_of_layout htarget) _
    rw [hsource, ← OutputGraph.length_listing, hsplit]
    simp
  · show ∀ r ∈ (OutputGraph.addDependency _ _ _).2.nodes.toList, Formatted r
    rw [OutputGraph.addDependency, OutputGraph.nodes_addEdge]
    exact h.ready.formatted
  · show (OutputGraph.listing _).map entryOf = _
    rw [hsource, OutputGraph.listing_addDependency hsplit (hname ▸ hnew), hname,
      List.map_append, List.map_append, hearlier, hbefore, List.map_cons, hafter,
      List.append_assoc]
    rfl

/-- What has a format, has it from a deployment. -/
theorem formatted_ofProperties {name type : String} {properties : List (String × Json)}
    (h : "user_data_format" ∉ properties.map Prod.fst) :
    Formatted (.ofProperties name type properties) := fun _ hv =>
  absurd (List.mem_map.mpr ⟨_, OrderedMap.mem_of_mem_ofList hv, rfl⟩) h

/-- The format of a server is not laid out. -/
theorem Lays.format {server : NodeId} (h : Lays new a s.1.built)
    (hset : Yields (change fun b => { b with
      graph := b.graph.adjust server fun r =>
        r.set "user_data_format" (.string "SOFTWARE_CONFIG") }) s () s') :
    Lays new a s'.1.built := by
  have hset := yields_change.mp hset
  subst hset
  refine ⟨⟨h.ready.inRange.adjust _ _, fun r hr => ?_⟩, ?_, h.parameters⟩
  · obtain ⟨k, hk⟩ := List.mem_iff_getElem?.mp hr
    rw [OutputGraph.toList_nodes_adjust, List.getElem?_modify] at hk
    obtain ⟨r', hr', rfl⟩ := Option.map_eq_some_iff.mp hk
    split
    · exact formatted_set r'
    · exact h.ready.formatted r' (List.mem_of_getElem? hr')
  · rw [← h.layout]
    let format (r : Resource) : Resource := r.set "user_data_format" (.string "SOFTWARE_CONFIG")
    show (s.1.built.graph.adjust server format).listing.map entryOf =
      s.1.built.graph.listing.map entryOf
    rw [OutputGraph.listing_adjust (f := format) fun r => rfl]
    refine List.ext_getElem? fun k => ?_
    rw [List.getElem?_map, List.getElem?_modify, List.getElem?_map, OutputGraph.getElem?_listing]
    cases hk : s.1.built.graph.node? k with
    | none => rfl
    | some r =>
      have hr : Formatted r := h.ready.formatted r (by
        rw [OutputGraph.node?, ← Array.getElem?_toList] at hk
        exact List.mem_of_getElem? hk)
      by_cases hserver : server = k
      · simp [hserver, format, entryOf_set hr]
      · simp [hserver]

theorem formatted_deployment (name server : String) (inputs : OrderedMap String String) :
    Formatted (deploymentOf name server inputs) := by
  refine formatted_ofProperties ?_
  split <;> simp

theorem formatted_config (name script : String) (inputs : OrderedMap String String) :
    Formatted (configOf name script inputs) := by
  refine formatted_ofProperties ?_
  split <;> simp

theorem lays_of_deploy {t : Topology} {id compute : ComponentId} {server : NodeId}
    {o : Operation} {script : Artifact} {e : Entry} (hs : s.1.built.Ready)
    (hserver : s.1.built.layout[server]? = some e)
    (he : e.name = (t.component compute).identifier)
    (h : Yields (deploy job (t.component id) server (inputValues t id) o script) s () s') :
    Lays (deploymentEntries (deploymentName t id o) (t.component compute).identifier)
      s.1.built s'.1.built := by
  obtain ⟨text, w, s₁, deployment, s₂, config, s₃, s₄, hset, hdeployment, hconfig, hfirst,
    hsecond⟩ := exists_steps_of_deploy h
  have hformat := (Lays.refl hs).format (s := (s.1, w)) hset
  rw [nameOf_of_layout (hformat.getElem? hserver), he] at hdeployment
  obtain ⟨hone, rfl, _⟩ := hformat.add (formatted_deployment _ _ _) hdeployment
  obtain ⟨htwo, rfl, hnew⟩ := hone.add (formatted_config _ _ _) hconfig
  rw [entryOf_deployment, entryOf_config] at htwo
  have hthree := Lays.depend [] _ htwo (htwo.getElem? hserver) List.not_mem_nil hfirst
  have hfour := Lays.depend [] _ hthree
    (hthree.getElem?_new [_] []) (fun hconfig => hnew ?_) hsecond
  · rw [he] at hfour
    exact hfour
  · exact List.mem_map.mpr
      ⟨e, List.mem_of_getElem? (hone.getElem? hserver), (List.mem_singleton.mp hconfig).symm⟩

theorem lays_of_deployments {t : Topology} {id compute : ComponentId} {server : NodeId}
    {e : Entry} (hs : s.1.built.Ready) (hserver : s.1.built.layout[server]? = some e)
    (he : e.name = (t.component compute).identifier)
    (h : Yields ((t.component id).scriptedOperations.forM fun o =>
      match o.artifacts with
      | script :: _ => deploy job (t.component id) server (inputValues t id) o script
      | [] => return ()) s () s') :
    Lays ((t.component id).scriptedOperations.flatMap fun o =>
      deploymentEntries (deploymentName t id o) (t.component compute).identifier)
      s.1.built s'.1.built := by
  refine deployments_invariant (p := fun done s₁ => Lays (done.flatMap fun o =>
    deploymentEntries (deploymentName t id o) (t.component compute).identifier)
      s.1.built s₁.1.built) (fun done o script s₁ s₂ hdone ho => ?_) h (.refl hs)
  rw [List.flatMap_append, List.flatMap_singleton]
  exact hdone.trans (lays_of_deploy hdone.ready (hdone.getElem? hserver) he ho)

theorem lays_of_addParameter {name : String} {fallback : Option String}
    (hs : s.1.built.Ready) (h : Yields (addParameter job name fallback) s () s') :
    Lays [] s.1.built s'.1.built ∧ name ∈ s'.1.built.parameters.keys := by
  have h := yields_change.mp h
  subst h
  refine ⟨⟨⟨hs.inRange, hs.formatted⟩, (List.append_nil _).symm, fun other hother => ?_⟩, ?_⟩
  · exact OrderedMap.mem_keys_insertNew.mpr (.inr hother)
  · exact OrderedMap.mem_keys_insertNew.mpr (.inl rfl)

theorem lays_of_parameters (hs : s.1.built.Ready)
    (h : Yields (sharedParameters.forM fun (name, fallback) => addParameter job name fallback)
      s () s') :
    Lays [] s.1.built s'.1.built ∧
      ∀ name ∈ sharedParameters.map Prod.fst, name ∈ s'.1.built.parameters.keys := by
  refine yields_forM_invariant (p := fun done s₁ => Lays [] s.1.built s₁.1.built ∧
    ∀ name ∈ done.map Prod.fst, name ∈ s₁.1.built.parameters.keys) ?_ h
    ⟨.refl hs, fun _ hname => absurd hname List.not_mem_nil⟩
  intro done parameter rest s₁ s₂ _ hdone hparameter
  obtain ⟨hlays, hthere⟩ := lays_of_addParameter hdone.1.ready hparameter
  refine ⟨hdone.1.trans hlays, fun name hname => ?_⟩
  rw [List.map_append, List.mem_append] at hname
  rcases hname with hname | hname
  · exact hlays.parameters name (hdone.2 name hname)
  · rw [List.mem_singleton.mp hname]
    exact hthere

/-- A compute adds its four resources. The port is the first, the server the second. -/
theorem lays_of_compute {name : String} {id : ComponentId} (hs : s.1.built.Ready)
    (h : Yields (do
      let port ← addResource (portOf name)
      let server ← addResource (serverOf name)
      addDependency server port
      let floatingIp ← addResource (floatingIpOf name)
      addDependency floatingIp port
      let association ← addResource (associationOf name)
      addDependency association floatingIp
      addDependency association port
      Build.change fun s => { s with servers := s.servers.insert id server }) s () s') :
    Lays (computeEntries name) s.1.built s'.1.built := by
  obtain ⟨port, s₂, server, s₃, s₄, floatingIp, s₅, s₆, association, s₇, s₈, s₉, hport, hserver,
    hfirst, hfloatingIp, hsecond, hassociation, hthird, hfourth, rfl⟩ := exists_steps_of_compute h
  have hformatted : Formatted (portOf name) ∧ Formatted (serverOf name) ∧
      Formatted (floatingIpOf name) ∧ Formatted (associationOf name) :=
    ⟨formatted_ofProperties (by simp), formatted_ofProperties (by simp),
      formatted_ofProperties (by simp), formatted_ofProperties (by simp)⟩
  obtain ⟨h₁, rfl, _⟩ := (Lays.refl hs).add hformatted.1 hport
  rw [entryOf_port] at h₁
  obtain ⟨h₂, rfl, _⟩ := h₁.add hformatted.2.1 hserver
  rw [entryOf_server] at h₂
  have h₃ := Lays.depend [_] [] h₂ (h₂.getElem?_new [] [_]) List.not_mem_nil hfirst
  obtain ⟨h₄, rfl, _⟩ := h₃.add hformatted.2.2.1 hfloatingIp
  rw [entryOf_floatingIp] at h₄
  have h₅ := Lays.depend [_, _] [] h₄ (h₄.getElem?_new [] [_, _]) List.not_mem_nil hsecond
  obtain ⟨h₆, rfl, _⟩ := h₅.add hformatted.2.2.2 hassociation
  rw [entryOf_association] at h₆
  have h₇ := Lays.depend [_, _, _] [] h₆ (h₆.getElem?_new [_, _] [_]) List.not_mem_nil hthird
  have h₈ := Lays.depend [_, _, _] [] h₇ (h₇.getElem?_new [] [_, _, _]) (by simp) hfourth
  exact ⟨⟨h₈.ready.inRange, h₈.ready.formatted⟩, h₈.layout, h₈.parameters⟩

end Step

/-! ### The visit -/

/-- All parameters that servers refer to are declared. -/
def State.Parameterised (s : State) : Prop :=
  ∀ name ∈ sharedParameters.map Prod.fst, name ∈ s.parameters.keys

theorem exists_entry_of_outlines {s : State} {k : NodeId} {r : Resource}
    (h : s.outlines[k]? = some r) : ∃ e, s.layout[k]? = some e ∧ e.name = r.name := by
  rw [State.outlines, List.getElem?_map, Array.getElem?_toList] at h
  obtain ⟨n, hn, rfl⟩ := Option.map_eq_some_iff.mp h
  refine ⟨entryOf (n, s.graph.dependencyNames k), ?_, (outline_name n).symm⟩
  rw [State.layout, List.getElem?_map, OutputGraph.getElem?_listing, OutputGraph.node?, hn]
  rfl

/-- What a compute does to a visit. -/
def OpensLayout (t : Topology) (id : ComponentId) (s s' : State) : Prop :=
  s.Ready → Lays (computeEntries (t.component id).identifier) s s' ∧ s'.Parameterised

/-- What software does to a visit, once the servers are there. -/
def JoinsLayout (t : Topology) (id : ComponentId) (s s' : State) : Prop :=
  s.Ready → (∀ c server, s.servers.get? c = some server →
    s.outlines[server]? = some (outline (serverOf (t.component c).identifier))) →
    Lays (entriesOf t id) s s'

theorem handles_addCompute_layout (id : ComponentId) :
    Handles (addCompute job id (job.model.topology.component id)) id fun s s' =>
      Opens job.model.topology id s s' ∧ OpensLayout job.model.topology id s s' := by
  refine (handles_addCompute id).and ((handles_addCompute id).carries_once fun s s' h hs => ?_)
  obtain ⟨_, s₁, hparameters, h⟩ := yields_bind.mp h
  obtain ⟨hlays, hthere⟩ := lays_of_parameters hs hparameters
  have hcompute := lays_of_compute hlays.ready h
  exact ⟨hlays.trans hcompute, fun name hname => hcompute.parameters name (hthere name hname)⟩

theorem handles_addSoftware_layout {id : ComponentId}
    (hid : (job.model.topology.component id).isA .compute = false) :
    Handles (addSoftware job id (job.model.topology.component id)) id fun s s' =>
      Joins job.model.topology id s s' ∧ JoinsLayout job.model.topology id s s' := by
  refine (handles_addSoftware hid).and
    ((handles_addSoftware hid).carries_once fun s s' h hs hservers => ?_)
  obtain ⟨compute?, hcompute, h⟩ := yields_ofExcept_bind.mp h
  rw [entriesOf, if_neg (by simp [hid]), Topology.placed?_of_computeOf hid hcompute]
  cases compute? with
  | none =>
    obtain ⟨_, rfl⟩ := yields_pure.mp h
    exact .refl hs
  | some c =>
    have h := yields_built_bind.mp h
    cases hserver : s.1.built.servers.get? c with
    | none =>
      rw [hserver] at h
      exact absurd h yields_throw
    | some server =>
      rw [hserver] at h
      obtain ⟨e, hentry, he⟩ := exists_entry_of_outlines (hservers c server hserver)
      exact lays_of_deployments hs hentry he h

/-- The layout once some components are done. -/
structure LayoutFor (t : Topology) (done : List ComponentId) (s : State) : Prop
    extends ResourcesFor t done s where
  ready : s.Ready
  layout : s.layout = done.flatMap (entriesOf t)
  parameters : t.computesOf done ≠ [] → s.Parameterised

section Visit
variable {t : Topology} {done : List ComponentId} {id : ComponentId} {s s' : State}

theorem LayoutFor.compute (h : LayoutFor t done s) (hid : (t.component id).isA .compute = true)
    (hopens : Opens t id s s') (hlayout : OpensLayout t id s s') :
    LayoutFor t (done ++ [id]) s' := by
  obtain ⟨hlays, hparameters⟩ := hlayout h.ready
  refine ⟨h.toResourcesFor.compute hid hopens, hlays.ready, ?_, fun _ => hparameters⟩
  rw [hlays.layout, h.layout, List.flatMap_append, List.flatMap_singleton, entriesOf, if_pos hid]

theorem LayoutFor.software (h : LayoutFor t done s)
    (hid : (t.component id).isA .compute = false) (hjoins : Joins t id s s')
    (hlayout : JoinsLayout t id s s') : LayoutFor t (done ++ [id]) s' := by
  have hlays := hlayout h.ready h.servers
  refine ⟨h.toResourcesFor.software hid hjoins, hlays.ready, ?_, fun hcomputes name hname => ?_⟩
  · rw [hlays.layout, h.layout, List.flatMap_append, List.flatMap_singleton]
  · rw [Topology.computesOf_append_software done hid] at hcomputes
    exact hlays.parameters name (h.parameters hcomputes name hname)

end Visit

theorem layoutFor_of_visit (ht : job.model.topology.Built) {w : σ} {s' : Assembly State × σ}
    (h : Yields ((visitor job).visitComponents job.model.topology) ({ built := {} }, w) () s') :
    ∃ order, job.model.topology.hostingOrder = .ok order ∧
      LayoutFor job.model.topology order s'.1.built := by
  refine Visitor.exists_order_of_hosts (p := LayoutFor job.model.topology) rfl ht
    handles_addCompute_layout (fun id hid => handles_addSoftware_layout hid)
    ⟨⟨rfl, ?_, fun c server hserver => ?_⟩, ⟨fun e he => ?_, fun r hr => ?_⟩, rfl,
      fun hcomputes => absurd rfl hcomputes⟩
    (fun done id rest s s' _ hid hs hr => hs.compute hid hr.1 hr.2)
    (fun done id rest s s' _ hid hs hr => hs.software hid hr.1 hr.2) h
  · exact List.nodup_nil
  · cases hserver
  · cases he
  · cases hr

end Provision.Heat
