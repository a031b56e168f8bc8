import Provision.Proofs.Heat.Closure
import Provision.Proofs.Topology.Supply

/-! The inputs of a Heat template.

A deployment gets values by name, and its config declares these names. A deployment is known
in full. Of a config, which also holds a script, what is known here are its name and the
names that it declares: along the hosting order, each operation that is deployed adds one
config, and what comes later changes no other property of it than its format. -/
namespace Provision.Heat
open Build

variable {σ : Type} {job : Job (StateM σ)}

/-! ### Configs -/

def isConfig (r : Resource) : Bool := r.type = "OS::Heat::SoftwareConfig"

/-- The name that an input declares. -/
def inputName? (input : Json) : Option String := (input.member? "name").bind text?

/-- The names that the inputs of a config declare. -/
def namesOfInputs? : Option Json → Option (List String)
  | none => some []
  | some (.array inputs) => inputs.mapM inputName?
  | some _ => none

/-- What a config declares, under its name. -/
abbrev Declaration := String × Option (List String)

def declaration? (r : Resource) : Option Declaration :=
  if isConfig r then some (r.name, namesOfInputs? (r.properties.get? "inputs")) else none

def State.declarations (s : State) : List Declaration :=
  s.graph.nodes.toList.filterMap declaration?

/-- The declaration for an operation of a component. -/
def declarationFor (t : Topology) (id : ComponentId) (o : Operation) : Declaration :=
  (deploymentName t id o ++ "_config", some (inputValues t id).keys)

/-- The declarations for a component, if it runs on a compute. -/
def declarationsOf (t : Topology) (id : ComponentId) : List Declaration :=
  if (t.placed? id).isSome then (t.component id).scriptedOperations.map (declarationFor t id)
  else []

theorem namesOfInputs?_configOf (name script : String) (inputs : OrderedMap String String) :
    namesOfInputs? ((configOf name script inputs).properties.get? "inputs") = some inputs.keys := by
  unfold configOf
  split
  case isTrue hempty =>
    rw [OrderedMap.keys, List.isEmpty_iff.mp hempty]
    rfl
  case isFalse =>
    show (inputs.keys.map fun k => Json.object [("name", .string k)]).mapM inputName? = _
    rw [List.mapM_map]
    exact List.mapM_pure.trans (congrArg some inputs.keys.map_id)

theorem declaration?_configOf (t : Topology) (id : ComponentId) (o : Operation) (script : String) :
    declaration? (configOf (deploymentName t id o) script (inputValues t id)) =
      some (declarationFor t id o) := by
  have hconfig : isConfig (configOf (deploymentName t id o) script (inputValues t id)) = true := rfl
  rw [declaration?, if_pos hconfig, namesOfInputs?_configOf]
  rfl

/-! ### One step -/

section Step
variable {s s' : Assembly State × σ}

theorem declarations_of_addResource {r : Resource} {id : NodeId}
    (h : Yields (addResource r) s id s') :
    s'.1.built.declarations = s.1.built.declarations ++ (declaration? r).toList := by
  obtain ⟨⟨node, graph⟩, hnode, h⟩ := yields_ofExcept_bind.mp (yields_built_bind.mp h)
  obtain ⟨_, rfl, rfl⟩ := OutputGraph.addNode_eq_ok.mp hnode
  have h := yields_change_bind.mp h
  obtain ⟨rfl, rfl⟩ := yields_pure.mp h
  rw [State.declarations, State.declarations, Array.toList_push, List.filterMap_append,
    List.filterMap_cons]
  cases declaration? r <;> rfl

theorem declarations_of_addDependency {source target : NodeId}
    (h : Yields (addDependency source target) s () s') :
    s'.1.built.declarations = s.1.built.declarations := by
  have h := yields_change.mp h
  subst h
  have hnodes : (s.1.built.graph.addDependency source target).2.nodes = s.1.built.graph.nodes :=
    OutputGraph.nodes_addEdge _ _ _ _
  rw [State.declarations, hnodes]
  rfl

theorem declarations_of_addParameter {name : String} {fallback : Option String}
    (h : Yields (addParameter job name fallback) s () s') :
    s'.1.built.declarations = s.1.built.declarations := by
  have h := yields_change.mp h
  subst h
  rfl

/-- A property that is not the inputs declares nothing. -/
theorem declaration?_set {key : String} (hkey : key ≠ "inputs") (r : Resource) (v : Json) :
    declaration? (r.set key v) = declaration? r := by
  have hinputs : (r.set key v).properties.get? "inputs" = r.properties.get? "inputs" := by
    rw [Resource.set, OrderedMap.get?_insert, if_neg hkey]
  unfold declaration?
  rw [hinputs]
  rfl

theorem declarations_of_set {server : NodeId} {key : String} {v : Json} (hkey : key ≠ "inputs")
    (h : Yields (change fun b => { b with graph := b.graph.adjust server fun r => r.set key v })
      s () s') : s'.1.built.declarations = s.1.built.declarations := by
  have h := yields_change.mp h
  subst h
  have hread (s : State) :
      s.declarations = (s.graph.nodes.toList.map declaration?).filterMap fun d => d := by
    rw [List.filterMap_map]
    rfl
  rw [hread, hread]
  exact congrArg _ (OutputGraph.map_nodes_adjust _ fun r _ => declaration?_set hkey r v)

theorem declarations_of_deploy {t : Topology} {id : ComponentId} {server : NodeId} {o : Operation}
    {script : Artifact}
    (h : Yields (deploy job (t.component id) server (inputValues t id) o script) s () s') :
    s'.1.built.declarations = s.1.built.declarations ++ [declarationFor t id o] := by
  obtain ⟨text, w, s₁, deployment, s₂, config, s₃, s₄, hset, hdeployment, hconfig, hfirst,
    hsecond⟩ := exists_steps_of_deploy h
  have hname : (t.component id).identifier ++ "_" ++ Text.identifier o.name =
      deploymentName t id o := rfl
  rw [declarations_of_addDependency hsecond, declarations_of_addDependency hfirst,
    declarations_of_addResource hconfig, declarations_of_addResource hdeployment,
    declarations_of_set (s := (s.1, w)) (by decide) hset, hname, declaration?_configOf]
  exact congrArg (· ++ [declarationFor t id o]) (List.append_nil _)

theorem declarations_of_deployments {t : Topology} {id : ComponentId} {server : NodeId}
    (h : Yields ((t.component id).scriptedOperations.forM fun o =>
      match o.artifacts with
      | script :: _ => deploy job (t.component id) server (inputValues t id) o script
      | [] => return ()) s () s') :
    s'.1.built.declarations =
      s.1.built.declarations ++ (t.component id).scriptedOperations.map (declarationFor t id) := by
  refine deployments_invariant (p := fun done s₁ => s₁.1.built.declarations =
    s.1.built.declarations ++ done.map (declarationFor t id))
    (fun done o script s₁ s₂ hdone ho => ?_) h (List.append_nil _).symm
  rw [declarations_of_deploy ho, hdone, List.append_assoc, List.map_append]
  rfl

end Step

/-! ### The visit -/

/-- A compute declares nothing. -/
theorem carries_addCompute_declarations (id : ComponentId) :
    Carries (addCompute job id (job.model.topology.component id)) id fun s s' =>
      s'.1.declarations = s.1.declarations := by
  refine (handles_addCompute id).carries_once fun s s' h => ?_
  obtain ⟨_, s₁, hparameters, h⟩ := yields_bind.mp h
  obtain ⟨port, s₂, server, s₃, s₄, floatingIp, s₅, s₆, association, s₇, s₈, s₉, hport, hserver,
    hfirst, hfloatingIp, hsecond, hassociation, hthird, hfourth, rfl⟩ := exists_steps_of_compute h
  have hdeclared : s₁.1.built.declarations = s.1.built.declarations :=
    yields_forM_invariant (p := fun _ s₁ => s₁.1.built.declarations = s.1.built.declarations)
      (fun _ _ _ _ _ _ hdone hp => (declarations_of_addParameter hp).trans hdone) hparameters rfl
  show s₉.1.built.declarations = s.1.built.declarations
  rw [declarations_of_addDependency hfourth, declarations_of_addDependency hthird,
    declarations_of_addResource hassociation, declarations_of_addDependency hsecond,
    declarations_of_addResource hfloatingIp, declarations_of_addDependency hfirst,
    declarations_of_addResource hserver, declarations_of_addResource hport, hdeclared]
  exact (List.append_nil _).trans <| (List.append_nil _).trans <| (List.append_nil _).trans
    (List.append_nil _)

theorem carries_addSoftware_declarations {id : ComponentId}
    (hid : (job.model.topology.component id).isA .compute = false) :
    Carries (addSoftware job id (job.model.topology.component id)) id fun s s' =>
      s'.1.declarations = s.1.declarations ++ declarationsOf job.model.topology id := by
  refine (handles_addSoftware hid).carries_once fun s s' h => ?_
  obtain ⟨compute?, hcompute, h⟩ := yields_ofExcept_bind.mp h
  rw [declarationsOf, Topology.placed?_of_computeOf hid hcompute]
  cases compute? with
  | none =>
    obtain ⟨_, rfl⟩ := yields_pure.mp h
    exact (List.append_nil _).symm
  | some c =>
    have h := yields_built_bind.mp h
    cases hserver : s.1.built.servers.get? c with
    | none =>
      rw [hserver] at h
      exact absurd h yields_throw
    | some server =>
      rw [hserver] at h
      exact declarations_of_deployments h

theorem declarations_of_visit (ht : job.model.topology.Built) {w : σ} {s' : Assembly State × σ}
    (h : Yields ((visitor job).visitComponents job.model.topology) ({ built := {} }, w) () s') :
    ∃ order, job.model.topology.hostingOrder = .ok order ∧
      s'.1.built.declarations = order.flatMap (declarationsOf job.model.topology) := by
  refine Visitor.exists_order_of_carries (p := fun done s =>
    s.1.declarations = done.flatMap (declarationsOf job.model.topology)) rfl ht
    carries_addCompute_declarations (fun id hid => carries_addSoftware_declarations hid) rfl
    (fun done id rest s s' _ hid hs hr => ?_) (fun done id rest s s' _ hid hs hr => ?_) h
  · have hnone : declarationsOf job.model.topology id = [] := by
      rw [declarationsOf, Topology.placed?_of_isA hid]
      rfl
    rw [hr, hs, List.flatMap_append, List.flatMap_singleton, hnone, List.append_nil]
  · rw [hr, hs, List.flatMap_append, List.flatMap_singleton]

/-! ### Reading a document -/

/-- What a resource of a document has under a property. -/
def property? (name : String) (r : Json) : Option Json :=
  (r.member? "properties").bind (Json.member? name)

/-- The values that a deployment of a document gets: none if it does not mention any. -/
def suppliedOf? (r : Json) : Option (List (String × String)) :=
  match property? "input_values" r with
  | none => some []
  | some values => values.textMembers?

/-- The names that a config of a document declares. -/
def declaredNames? (r : Json) : Option (List String) := namesOfInputs? (property? "inputs" r)

/-- The config that a deployment of a document refers to. -/
def configName? (r : Json) : Option String :=
  ((property? "config" r).bind (Json.member? "get_resource")).bind text?

theorem property?_resourceJson (name : String) (r : Resource) (names : List String) :
    property? name (resourceJson r names) = r.properties.get? name := by
  unfold resourceJson
  cases hempty : r.properties.isEmpty with
  | true =>
    have hnone := OrderedMap.get?_of_toList_eq_nil (m := r.properties)
      (List.isEmpty_iff.mp hempty) name
    rw [hnone]
    cases names <;> rfl
  | false => rfl

theorem configName?_deployment (name server : String) (inputs : OrderedMap String String)
    (names : List String) :
    configName? (resourceJson (deploymentOf name server inputs) names) =
      some (name ++ "_config") := by
  rw [configName?, property?_resourceJson]
  unfold deploymentOf
  split <;> rfl

theorem suppliedOf?_deployment (name server : String) (inputs : OrderedMap String String)
    (names : List String) : ∃ values,
      suppliedOf? (resourceJson (deploymentOf name server inputs) names) = some values ∧
        values.Perm inputs.toList := by
  rw [suppliedOf?, property?_resourceJson]
  unfold deploymentOf
  cases hempty : inputs.isEmpty with
  | true =>
    refine ⟨[], rfl, ?_⟩
    rw [OrderedMap.toList, List.isEmpty_iff.mp hempty]
  | false => exact Json.textMembers?_sorted inputs

theorem declaredNames?_resourceJson {r : Resource} {name : String} {declared : Option (List String)}
    (h : declaration? r = some (name, declared)) (names : List String) :
    r.name = name ∧ r.type = "OS::Heat::SoftwareConfig" ∧
      declaredNames? (resourceJson r names) = declared := by
  unfold declaration? at h
  split at h
  case isTrue hconfig =>
    cases h
    exact ⟨rfl, of_decide_eq_true hconfig, by rw [declaredNames?, property?_resourceJson]⟩
  case isFalse => cases h

/-! ### The template -/

/-- A component runs on a compute, and an operation of it has scripts. -/
structure Deployed (t : Topology) (id : ComponentId) (o : Operation) : Prop where
  lt : id < t.size
  software : (t.component id).isA .compute = false
  placed : ∃ c, t.computeOf id = .ok (some c)
  operation : o ∈ (t.component id).operations.values
  scripted : o.hasArtifacts = true

/-- Each deployment of a template is for an operation of a component. It gets what the
component is supplied with, and its config declares the same names. -/
structure InputsFor (t : Topology) (template : Template) : Prop where
  deployed : ∀ name r, template.resources.get? name = some r →
    typeOf? r = some "OS::Heat::SoftwareDeployment" →
    ∃ id o, Deployed t id o ∧ name = deploymentName t id o
  supplied : ∀ id o, Deployed t id o → ∃ r values config names,
    template.resources.get? (deploymentName t id o) = some r ∧
    typeOf? r = some "OS::Heat::SoftwareDeployment" ∧
    suppliedOf? r = some values ∧ t.SuppliedWith (t.ConnectsTo id) id values ∧
    configName? r = some (deploymentName t id o ++ "_config") ∧
    template.resources.get? (deploymentName t id o ++ "_config") = some config ∧
    typeOf? config = some "OS::Heat::SoftwareConfig" ∧
    declaredNames? config = some names ∧ names.Nodup ∧ names.Perm (values.map Prod.fst)

/-- A resource of the graph is one of the document. -/
theorem Template.exists_resourceJson {template : Template}
    (hunique : template.graph.names.Nodup) {r : Resource}
    (hr : r ∈ template.graph.nodes.toList) :
    ∃ names, template.resources.get? r.name = some (resourceJson r names) := by
  obtain ⟨k, hk⟩ := List.mem_iff_getElem?.mp hr
  refine ⟨template.graph.dependencyNames k, ?_⟩
  rw [OrderedMap.get?_eq_some, toList_resources hunique]
  refine List.mem_map.mpr ⟨(r, template.graph.dependencyNames k), ?_, rfl⟩
  refine List.mem_of_getElem? (i := k) ?_
  rw [OutputGraph.getElem?_listing, OutputGraph.node?, ← Array.getElem?_toList, hk]
  rfl

section Template
variable {order : List ComponentId} {s : State} {id c : ComponentId} {o : Operation}

/-- An operation that is deployed has a deployment among the resources. -/
theorem ResourcesFor.deployment_mem (h : ResourcesFor job.model.topology order s) (hid : id ∈ order)
    (hplaced : job.model.topology.placed? id = some c)
    (ho : o ∈ (job.model.topology.component id).scriptedOperations) :
    deploymentFor job.model.topology id c o ∈ s.graph.nodes.toList := by
  have hall : s.graph.nodes.toList.filter isDeployment =
      order.flatMap (deploymentsOf job.model.topology) := h.deploymentsFor.deployments
  refine List.mem_of_mem_filter (p := isDeployment) ?_
  rw [hall]
  refine List.mem_flatMap.mpr ⟨id, hid, ?_⟩
  rw [deploymentsOf, hplaced]
  exact List.mem_map.mpr ⟨o, ho, rfl⟩

/-- And a config. -/
theorem exists_config {t : Topology} (hdeclared : s.declarations = order.flatMap (declarationsOf t))
    (hid : id ∈ order) (hplaced : t.placed? id = some c)
    (ho : o ∈ (t.component id).scriptedOperations) :
    ∃ config ∈ s.graph.nodes.toList, declaration? config = some (declarationFor t id o) := by
  refine List.mem_filterMap.mp ?_
  show _ ∈ s.declarations
  rw [hdeclared]
  refine List.mem_flatMap.mpr ⟨id, hid, ?_⟩
  rw [declarationsOf, hplaced]
  exact List.mem_map.mpr ⟨o, ho, rfl⟩

theorem LayoutFor.inputsFor (ht : job.model.topology.Built)
    (horder : job.model.topology.hostingOrder = .ok order)
    (h : LayoutFor job.model.topology order s)
    (hdeclared : s.declarations = order.flatMap (declarationsOf job.model.topology)) :
    InputsFor job.model.topology (template job s) where
  deployed name r hr htype := by
    obtain ⟨id, c, o, _, _, hlt, hsoftware, hplaced, ho, hscripted, hname, _⟩ :=
      deploys_of_layout ht horder h hr htype
    exact ⟨id, o, ⟨hlt, hsoftware, ⟨c, hplaced⟩, ho, hscripted⟩, hname⟩
  supplied id o := by
    rintro ⟨hlt, hsoftware, ⟨c, hof⟩, hmem, hscripted⟩
    have hunique : (template job s).graph.names.Nodup := h.unique
    have hid : id ∈ order :=
      (Topology.hostingOrder_perm ht horder).mem_iff.mpr (Topology.mem_ids.mpr hlt)
    have ho : o ∈ (job.model.topology.component id).scriptedOperations :=
      List.mem_filter.mpr ⟨(sort_perm _ _).mem_iff.mpr hmem, hscripted⟩
    have hplaced := Topology.placed?_eq_some.mpr ⟨hsoftware, hof⟩
    obtain ⟨needed, hr⟩ := Template.exists_resourceJson hunique
      (h.toResourcesFor.deployment_mem hid hplaced ho)
    obtain ⟨config, hconfig, hdeclares⟩ := exists_config hdeclared hid hplaced ho
    obtain ⟨needed', hr'⟩ := Template.exists_resourceJson hunique hconfig
    obtain ⟨hname, htype, hdeclares⟩ := declaredNames?_resourceJson hdeclares needed'
    obtain ⟨values, hvalues, hperm⟩ := suppliedOf?_deployment
      (deploymentName job.model.topology id o) (job.model.topology.component c).identifier
      (inputValues job.model.topology id) needed
    refine ⟨_, values, _, _, hr, rfl, hvalues,
      (Topology.suppliedWith_inputValues _ id).perm hperm, configName?_deployment _ _ _ needed,
      hname ▸ hr', ?_, hdeclares, (inputValues job.model.topology id).nodup,
      (hperm.map Prod.fst).symm⟩
    rw [typeOf?_resourceJson, htype]

end Template

/-- **Each deployment gets the variables that its component is supplied with, and its config
declares the same names.** A run that succeeds writes a template of such deployments. -/
theorem inputsFor_of_run (ht : job.model.topology.Built) {w w' : σ} {p : Progress}
    (h : ((lifecycle job).run .idle).run w = ((.ok (), p), w')) :
    ∃ template, InputsFor job.model.topology template ∧
      job.Delivers [(templateFile job.model, Yaml.write template.toJson)] w' := by
  obtain ⟨s, visited, w₁, w₂, w₃, hvisit, hwrite, hrelease⟩ := Job.exists_visit_of_run h
  obtain ⟨order, horder, hlayout⟩ := layoutFor_of_visit ht hvisit
  obtain ⟨_, hsame, hdeclared⟩ := declarations_of_visit ht hvisit
  cases horder.symm.trans hsame
  exact ⟨template job s, hlayout.inputsFor ht horder hdeclared,
    Job.delivers_of_write hwrite hrelease⟩

end Provision.Heat
