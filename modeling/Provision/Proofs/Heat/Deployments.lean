import Provision.Heat.Backend
import Provision.Proofs.Backend.Success
import Provision.Proofs.Data.OrderedMap
import Provision.Proofs.Output.Graph

/-! The deployments of a Heat template.

Along the hosting order, a compute adds its network and its server, and what runs on a
compute adds a deployment and a config for each of its operations that has scripts. A
server changes when something is deployed to it, and a config holds a script that is read
from the workspace; what is known of these is their name and type. Deployments are known
in full. -/
namespace Provision.Heat
open Build

variable {σ : Type} {job : Job (StateM σ)}

def isDeployment (r : Resource) : Bool := r.type = "OS::Heat::SoftwareDeployment"

def isServer (r : Resource) : Bool := r.type = "OS::Nova::Server"

/-- What is known of a resource: all of a deployment, and the name and type of any other. -/
def outline (r : Resource) : Resource :=
  if isDeployment r then r else { r with properties := .empty }

def State.outlines (s : State) : List Resource := s.graph.nodes.toList.map outline

/-! ### The resources of a component -/

def deploymentName (t : Topology) (id : ComponentId) (o : Operation) : String :=
  (t.component id).identifier ++ "_" ++ Text.identifier o.name

/-- The deployment of an operation of a component to the server of a compute. -/
def deploymentFor (t : Topology) (id compute : ComponentId) (o : Operation) : Resource :=
  deploymentOf (deploymentName t id o) (t.component compute).identifier (inputValues t id)

def computeResources (c : Component) : List Resource :=
  [portOf c.identifier, serverOf c.identifier, floatingIpOf c.identifier,
    associationOf c.identifier].map outline

def softwareResources (t : Topology) (id compute : ComponentId) (o : Operation) : List Resource :=
  [deploymentFor t id compute o,
    outline (configOf (deploymentName t id o) "" (inputValues t id))]

/-- The resources of a component. -/
def resourcesOf (t : Topology) (id : ComponentId) : List Resource :=
  if (t.component id).isA .compute then computeResources (t.component id)
  else
    match t.placed? id with
    | none => []
    | some compute => (t.component id).scriptedOperations.flatMap (softwareResources t id compute)

/-- The deployments of a component, to the compute that it runs on. -/
def deploymentsOf (t : Topology) (id : ComponentId) : List Resource :=
  match t.placed? id with
  | none => []
  | some compute => (t.component id).scriptedOperations.map (deploymentFor t id compute)

/-! ### Outlines -/

theorem outline_type (r : Resource) : (outline r).type = r.type := by
  unfold outline
  split <;> rfl

theorem outline_name (r : Resource) : (outline r).name = r.name := by
  unfold outline
  split <;> rfl

theorem filter_isDeployment_outline (l : List Resource) :
    (l.map outline).filter isDeployment = l.filter isDeployment := by
  induction l with
  | nil => rfl
  | cons r rest ih =>
    have hsame : isDeployment (outline r) = isDeployment r := by
      rw [isDeployment, outline_type, isDeployment]
    rw [List.map_cons, List.filter_cons, List.filter_cons, hsame, ih]
    split
    case isTrue h => rw [outline, if_pos h]
    case isFalse => rfl

theorem filter_isServer_outline (l : List Resource) :
    ((l.map outline).filter isServer).map Resource.name =
      (l.filter isServer).map Resource.name := by
  induction l with
  | nil => rfl
  | cons r rest ih =>
    have hsame : isServer (outline r) = isServer r := by
      rw [isServer, outline_type, isServer]
    rw [List.map_cons, List.filter_cons, List.filter_cons, hsame]
    split
    · rw [List.map_cons, List.map_cons, ih, outline_name]
    · exact ih

theorem filter_isDeployment_resourcesOf (t : Topology) (id : ComponentId) :
    (resourcesOf t id).filter isDeployment = deploymentsOf t id := by
  unfold resourcesOf deploymentsOf
  split
  case isTrue h =>
    rw [Topology.placed?_of_isA h]
    rfl
  case isFalse =>
    cases t.placed? id with
    | none => rfl
    | some compute =>
      show ((t.component id).scriptedOperations.flatMap _).filter isDeployment = List.map _ _
      rw [List.filter_flatMap, List.map_eq_flatMap]
      rfl

theorem filter_isServer_resourcesOf (t : Topology) (id : ComponentId) :
    ((resourcesOf t id).filter isServer).map Resource.name =
      if (t.component id).isA .compute then [(t.component id).identifier] else [] := by
  unfold resourcesOf
  split
  case isTrue => rfl
  case isFalse =>
    cases t.placed? id with
    | none => rfl
    | some compute =>
      show (((t.component id).scriptedOperations.flatMap _).filter isServer).map _ = []
      rw [List.filter_flatMap, List.map_eq_nil_iff]
      exact List.flatMap_eq_nil_iff.mpr fun o _ => rfl

/-! ### One step -/

/-- Resources are added under names that are not taken, and what is known of the others stays. -/
structure Grows (new : List Resource) (s s' : State) : Prop where
  outlines : s'.outlines = s.outlines ++ new
  unique : s.graph.names.Nodup → s'.graph.names.Nodup

/-- Resources are added, and nothing else changes but parameters. -/
structure Adds (new : List Resource) (a a' : Assembly State) : Prop
    extends Grows new a.built a'.built where
  visited : a'.visited = a.visited
  servers : a'.built.servers = a.built.servers

section Step
variable {new new' : List Resource} {a₁ a₂ a₃ : Assembly State} {s s' : Assembly State × σ}

theorem Adds.refl (a : Assembly State) : Adds [] a a where
  outlines := (List.append_nil _).symm
  unique := id
  visited := rfl
  servers := rfl

theorem Adds.trans (h : Adds new a₁ a₂) (h' : Adds new' a₂ a₃) : Adds (new ++ new') a₁ a₃ where
  outlines := by rw [h'.outlines, h.outlines, List.append_assoc]
  unique := fun hnames => h'.unique (h.unique hnames)
  visited := h'.visited.trans h.visited
  servers := h'.servers.trans h.servers

theorem adds_of_addResource {r : Resource} {id : NodeId}
    (h : Yields (addResource r) s id s') :
    Adds [outline r] s.1 s'.1 ∧ id = s.1.built.outlines.length := by
  obtain ⟨⟨node, graph⟩, hnode, h⟩ := yields_ofExcept_bind.mp (yields_built_bind.mp h)
  obtain ⟨hnew, rfl, rfl⟩ := OutputGraph.addNode_eq_ok.mp hnode
  have h := yields_change_bind.mp h
  obtain ⟨rfl, rfl⟩ := yields_pure.mp h
  refine ⟨⟨⟨?_, fun hnames => ?_⟩, rfl, rfl⟩, ?_⟩
  · simp [State.outlines]
  · rw [OutputGraph.names_push]
    exact List.nodup_append.mpr ⟨hnames, List.nodup_singleton _, fun a ha b hb heq =>
      hnew (List.mem_singleton.mp hb ▸ heq ▸ ha)⟩
  · simp [State.outlines, OutputGraph.size]

theorem adds_of_addDependency {source target : NodeId}
    (h : Yields (addDependency source target) s () s') : Adds [] s.1 s'.1 := by
  have h := yields_change.mp h
  subst h
  have hnodes : (s.1.built.graph.addDependency source target).2.nodes = s.1.built.graph.nodes :=
    OutputGraph.nodes_addEdge _ _ _ _
  refine ⟨⟨?_, fun hnames => ?_⟩, rfl, rfl⟩
  · rw [State.outlines, hnodes, List.append_nil]
    rfl
  · rw [OutputGraph.names, hnodes]
    exact hnames

theorem adds_of_addParameter {name : String} {fallback : Option String}
    (h : Yields (addParameter job name fallback) s () s') : Adds [] s.1 s'.1 := by
  have h := yields_change.mp h
  subst h
  exact ⟨⟨(List.append_nil _).symm, fun hnames => hnames⟩, rfl, rfl⟩

/-- A property of something that is no deployment is not known. -/
theorem adds_of_set {server : NodeId} {r : Resource} {key : String} {v : Json}
    (hserver : s.1.built.outlines[server]? = some r) (hr : isDeployment r = false)
    (h : Yields (change fun b => { b with graph := b.graph.adjust server fun r => r.set key v })
      s () s') : Adds [] s.1 s'.1 := by
  have h := yields_change.mp h
  subst h
  refine ⟨⟨?_, fun hnames => ?_⟩, rfl, rfl⟩
  · show (s.1.built.graph.adjust server _).nodes.toList.map outline = _
    rw [OutputGraph.map_nodes_adjust, List.append_nil]
    · rfl
    · intro n hn
      rw [State.outlines, List.getElem?_map, Array.getElem?_toList] at hserver
      rw [OutputGraph.node?] at hn
      rw [hn] at hserver
      cases hserver
      have hother : isDeployment n = false := by
        rwa [isDeployment, outline_type] at hr
      have hset : isDeployment (n.set key v) = false := hother
      rw [outline, outline, hother, hset]
      rfl
  · have hsame : (s.1.built.graph.adjust server fun r => r.set key v).names =
        s.1.built.graph.names := OutputGraph.map_nodes_adjust _ fun n _ => rfl
    exact hsame ▸ hnames

theorem nameOf_eq {s : State} {server : NodeId} {r : Resource}
    (hserver : s.outlines[server]? = some r) : s.graph.nameOf server = r.name := by
  rw [State.outlines, List.getElem?_map, Array.getElem?_toList] at hserver
  obtain ⟨n, hn, rfl⟩ := Option.map_eq_some_iff.mp hserver
  rw [OutputGraph.nameOf, OutputGraph.node?, hn, outline_name]
  rfl

/-- What is there stays there. -/
theorem Adds.getElem? (h : Adds new a₁ a₂) {k : NodeId} {r : Resource}
    (hr : a₁.built.outlines[k]? = some r) : a₂.built.outlines[k]? = some r := by
  rw [h.outlines, List.getElem?_append_left (List.getElem?_eq_some_iff.mp hr).1, hr]

/-- A compute adds a port, a server, an address and what associates it with the port, and notes the
server. -/
theorem exists_steps_of_compute {name : String} {id : ComponentId}
    (h : Yields (do
      let port ← addResource (portOf name)
      let server ← addResource (serverOf name)
      addDependency server port
      let floatingIp ← addResource (floatingIpOf name)
      addDependency floatingIp port
      let association ← addResource (associationOf name)
      addDependency association floatingIp
      addDependency association port
      Build.change fun s => { s with servers := s.servers.insert id server }) s () s') :
    ∃ port s₁ server s₂ s₃ floatingIp s₄ s₅ association s₆ s₇ s₈,
      Yields (addResource (portOf name)) s port s₁ ∧
      Yields (addResource (serverOf name)) s₁ server s₂ ∧
      Yields (addDependency server port) s₂ () s₃ ∧
      Yields (addResource (floatingIpOf name)) s₃ floatingIp s₄ ∧
      Yields (addDependency floatingIp port) s₄ () s₅ ∧
      Yields (addResource (associationOf name)) s₅ association s₆ ∧
      Yields (addDependency association floatingIp) s₆ () s₇ ∧
      Yields (addDependency association port) s₇ () s₈ ∧
      s' = ({ s₈.1 with built :=
        { s₈.1.built with servers := s₈.1.built.servers.insert id server } }, s₈.2) := by
  obtain ⟨port, s₁, hport, h⟩ := yields_bind.mp h
  obtain ⟨server, s₂, hserver, h⟩ := yields_bind.mp h
  obtain ⟨_, s₃, hfirst, h⟩ := yields_bind.mp h
  obtain ⟨floatingIp, s₄, hfloatingIp, h⟩ := yields_bind.mp h
  obtain ⟨_, s₅, hsecond, h⟩ := yields_bind.mp h
  obtain ⟨association, s₆, hassociation, h⟩ := yields_bind.mp h
  obtain ⟨_, s₇, hthird, h⟩ := yields_bind.mp h
  obtain ⟨_, s₈, hfourth, h⟩ := yields_bind.mp h
  exact ⟨port, s₁, server, s₂, s₃, floatingIp, s₄, s₅, association, s₆, s₇, s₈, hport, hserver,
    hfirst, hfloatingIp, hsecond, hassociation, hthird, hfourth, yields_change.mp h⟩

/-- A deployment formats the server, adds two resources, and lets the first depend on the server
and on the second. -/
theorem exists_steps_of_deploy {c : Component} {server : NodeId}
    {inputs : OrderedMap String String} {o : Operation} {script : Artifact}
    (h : Yields (deploy job c server inputs o script) s () s') :
    ∃ text w s₁ deployment s₂ config s₃ s₄,
      Yields (change fun b => { b with
        graph := b.graph.adjust server fun r =>
          r.set "user_data_format" (.string "SOFTWARE_CONFIG") }) (s.1, w) () s₁ ∧
      Yields (addResource (deploymentOf (c.identifier ++ "_" ++ Text.identifier o.name)
        (s₁.1.built.graph.nameOf server) inputs)) s₁ deployment s₂ ∧
      Yields (addResource (configOf (c.identifier ++ "_" ++ Text.identifier o.name) text inputs))
        s₂ config s₃ ∧
      Yields (addDependency deployment server) s₃ () s₄ ∧
      Yields (addDependency deployment config) s₄ () s' := by
  obtain ⟨text, w, _, h⟩ := yields_lift_bind.mp h
  obtain ⟨_, s₁, hset, h⟩ := yields_bind.mp h
  have h := yields_built_bind.mp h
  obtain ⟨deployment, s₂, hdeployment, h⟩ := yields_bind.mp h
  obtain ⟨config, s₃, hconfig, h⟩ := yields_bind.mp h
  obtain ⟨_, s₄, hfirst, hsecond⟩ := yields_bind.mp h
  exact ⟨text, w, s₁, deployment, s₂, config, s₃, s₄, hset, hdeployment, hconfig, hfirst, hsecond⟩

theorem adds_of_deploy {t : Topology} {id compute : ComponentId} {server : NodeId}
    {o : Operation} {script : Artifact}
    (hserver : s.1.built.outlines[server]? =
      some (outline (serverOf (t.component compute).identifier)))
    (h : Yields (deploy job (t.component id) server (inputValues t id) o script) s () s') :
    Adds (softwareResources t id compute o) s.1 s'.1 := by
  obtain ⟨text, w, s₁, deployment, s₂, config, s₃, s₄, hset, hdeployment, hconfig, hfirst,
    hsecond⟩ := exists_steps_of_deploy h
  have hadds := adds_of_set (s := (s.1, w)) hserver rfl hset
  rw [nameOf_eq (hadds.getElem? hserver)] at hdeployment
  exact hadds.trans <| (adds_of_addResource hdeployment).1.trans <|
    (adds_of_addResource hconfig).1.trans <|
      (adds_of_addDependency hfirst).trans (adds_of_addDependency hsecond)

/-- A deployment marks no component and makes no server, whatever it is deployed to. -/
theorem kept_of_deploy {c : Component} {server : NodeId} {inputs : OrderedMap String String}
    {o : Operation} {script : Artifact}
    (h : Yields (deploy job c server inputs o script) s () s') :
    s'.1.visited = s.1.visited ∧ s'.1.built.servers = s.1.built.servers := by
  obtain ⟨text, w, s₁, deployment, s₂, config, s₃, s₄, hset, hdeployment, hconfig, hfirst,
    hsecond⟩ := exists_steps_of_deploy h
  have hset := yields_change.mp hset
  subst hset
  have hall := (adds_of_addResource hdeployment).1.trans <| (adds_of_addResource hconfig).1.trans <|
    (adds_of_addDependency hfirst).trans (adds_of_addDependency hsecond)
  exact ⟨hall.visited, hall.servers⟩

/-- The operations with scripts are deployed one after another, each by a script of its own. -/
theorem deployments_invariant {c : Component} {server : NodeId}
    {inputs : OrderedMap String String} {p : List Operation → Assembly State × σ → Prop}
    (hstep : ∀ done o script s₁ s₂, p done s₁ →
      Yields (deploy job c server inputs o script) s₁ () s₂ → p (done ++ [o]) s₂)
    (h : Yields (c.scriptedOperations.forM fun o =>
      match o.artifacts with
      | script :: _ => deploy job c server inputs o script
      | [] => return ()) s () s') (hs : p [] s) : p c.scriptedOperations s' := by
  refine yields_forM_invariant (p := p) ?_ h hs
  intro done o rest s₁ s₂ hl hdone ho
  have hscripted : o.hasArtifacts = true :=
    (List.mem_filter.mp (hl ▸ List.mem_append_right done List.mem_cons_self :
      o ∈ c.scriptedOperations)).2
  cases hartifacts : o.artifacts with
  | nil => simp [Operation.hasArtifacts, hartifacts] at hscripted
  | cons script others =>
    rw [hartifacts] at ho
    exact hstep done o script s₁ s₂ hdone ho

theorem kept_of_deployments {c : Component} {server : NodeId}
    {inputs : OrderedMap String String}
    (h : Yields (c.scriptedOperations.forM fun o =>
      match o.artifacts with
      | script :: _ => deploy job c server inputs o script
      | [] => return ()) s () s') :
    s'.1.visited = s.1.visited ∧ s'.1.built.servers = s.1.built.servers := by
  refine deployments_invariant (p := fun _ s₁ =>
    s₁.1.visited = s.1.visited ∧ s₁.1.built.servers = s.1.built.servers)
    (fun done o script s₁ s₂ hdone ho => ?_) h ⟨rfl, rfl⟩
  have hkept := kept_of_deploy ho
  exact ⟨hkept.1.trans hdone.1, hkept.2.trans hdone.2⟩

/-- A component's operations are deployed in the order in which they run. -/
theorem adds_of_deployments {t : Topology} {id compute : ComponentId} {server : NodeId}
    (hserver : s.1.built.outlines[server]? =
      some (outline (serverOf (t.component compute).identifier)))
    (h : Yields ((t.component id).scriptedOperations.forM fun o =>
      match o.artifacts with
      | script :: _ => deploy job (t.component id) server (inputValues t id) o script
      | [] => return ()) s () s') :
    Adds ((t.component id).scriptedOperations.flatMap (softwareResources t id compute))
      s.1 s'.1 := by
  refine deployments_invariant
    (p := fun done s₁ => Adds (done.flatMap (softwareResources t id compute)) s.1 s₁.1)
    (fun done o script s₁ s₂ hdone ho => ?_) h (.refl s.1)
  rw [List.flatMap_append, List.flatMap_singleton]
  exact hdone.trans (adds_of_deploy (hdone.getElem? hserver) ho)

end Step

/-- What a compute does to a visit. -/
def Opens (t : Topology) (id : ComponentId) (s s' : State) : Prop :=
  Grows (computeResources (t.component id)) s s' ∧
    s'.servers = s.servers.insert id (s.outlines.length + 1)

/-- What software does to a visit. -/
def Joins (t : Topology) (id : ComponentId) (s s' : State) : Prop :=
  match t.placed? id with
  | none => s' = s
  | some c => ∃ server, s.servers.get? c = some server ∧
    (s.outlines[server]? = some (outline (serverOf (t.component c).identifier)) →
      Grows ((t.component id).scriptedOperations.flatMap (softwareResources t id c)) s s' ∧
        s'.servers = s.servers)

theorem handles_addCompute (id : ComponentId) :
    Handles (addCompute job id (job.model.topology.component id)) id
      (Opens job.model.topology id) := by
  refine handles_once fun s s' h => ?_
  obtain ⟨_, s₁, hparameters, h⟩ := yields_bind.mp h
  obtain ⟨port, s₂, server, s₃, s₄, floatingIp, s₅, s₆, association, s₇, s₈, s₉, hport, hserver,
    hfirst, hfloatingIp, hsecond, hassociation, hthird, hfourth, rfl⟩ := exists_steps_of_compute h
  have hdeclared : Adds [] s.1 s₁.1 := yields_forM_invariant (p := fun _ s₁ => Adds [] s.1 s₁.1)
    (fun _ _ _ _ _ _ hdone hp => hdone.trans (adds_of_addParameter hp)) hparameters (.refl s.1)
  have hbefore := hdeclared.trans (adds_of_addResource hport).1
  have hall := hbefore.trans <| (adds_of_addResource hserver).1.trans <|
    (adds_of_addDependency hfirst).trans <| (adds_of_addResource hfloatingIp).1.trans <|
      (adds_of_addDependency hsecond).trans <| (adds_of_addResource hassociation).1.trans <|
        (adds_of_addDependency hthird).trans (adds_of_addDependency hfourth)
  have hplace : server = s.1.built.outlines.length + 1 := by
    rw [(adds_of_addResource hserver).2, hbefore.outlines, List.length_append]
    rfl
  refine ⟨⟨⟨hall.outlines, hall.unique⟩, ?_⟩, hall.visited⟩
  rw [← hplace, ← hall.servers]

theorem handles_addSoftware {id : ComponentId}
    (hid : (job.model.topology.component id).isA .compute = false) :
    Handles (addSoftware job id (job.model.topology.component id)) id
      (Joins job.model.topology id) := by
  refine handles_once fun s s' h => ?_
  obtain ⟨compute?, hcompute, h⟩ := yields_ofExcept_bind.mp h
  unfold Joins
  rw [Topology.placed?_of_computeOf hid hcompute]
  cases compute? with
  | none =>
    obtain ⟨_, rfl⟩ := yields_pure.mp h
    exact ⟨rfl, rfl⟩
  | some c =>
    have h := yields_built_bind.mp h
    cases hserver : s.1.built.servers.get? c with
    | none =>
      rw [hserver] at h
      exact absurd h yields_throw
    | some server =>
      rw [hserver] at h
      refine ⟨⟨server, hserver, fun hplace => ?_⟩, (kept_of_deployments h).1⟩
      have hadds := adds_of_deployments hplace h
      exact ⟨hadds.toGrows, hadds.servers⟩

/-! ### The visit -/

/-- The resources once some components are done. -/
structure ResourcesFor (t : Topology) (done : List ComponentId) (s : State) : Prop where
  outlines : s.outlines = done.flatMap (resourcesOf t)
  unique : s.graph.names.Nodup
  servers : ∀ c server, s.servers.get? c = some server →
    s.outlines[server]? = some (outline (serverOf (t.component c).identifier))

section Visit
variable {t : Topology} {done : List ComponentId} {id : ComponentId} {s s' : State}

theorem Grows.getElem? {new : List Resource} (h : Grows new s s') {k : NodeId} {r : Resource}
    (hr : s.outlines[k]? = some r) : s'.outlines[k]? = some r := by
  rw [h.outlines, List.getElem?_append_left (List.getElem?_eq_some_iff.mp hr).1, hr]

theorem ResourcesFor.compute (h : ResourcesFor t done s)
    (hid : (t.component id).isA .compute = true) (hs : Opens t id s s') :
    ResourcesFor t (done ++ [id]) s' := by
  obtain ⟨hgrows, hservers⟩ := hs
  refine ⟨?_, hgrows.unique h.unique, fun c server hserver => ?_⟩
  · rw [hgrows.outlines, h.outlines, List.flatMap_append, List.flatMap_singleton, resourcesOf,
      if_pos hid]
  · rw [hservers, OrderedMap.get?_insert] at hserver
    split at hserver
    case isTrue hc =>
      cases hserver
      subst hc
      rw [hgrows.outlines, List.getElem?_append_right (Nat.le_add_right _ _),
        Nat.add_sub_cancel_left]
      rfl
    case isFalse => exact hgrows.getElem? (h.servers c server hserver)

theorem ResourcesFor.software (h : ResourcesFor t done s)
    (hid : (t.component id).isA .compute = false) (hs : Joins t id s s') :
    ResourcesFor t (done ++ [id]) s' := by
  have hresources : done.flatMap (resourcesOf t) ++ resourcesOf t id =
      (done ++ [id]).flatMap (resourcesOf t) := by
    rw [List.flatMap_append, List.flatMap_singleton]
  unfold Joins at hs
  rw [resourcesOf, if_neg (by simp [hid])] at hresources
  cases hc : t.placed? id with
  | none =>
    rw [hc] at hs hresources
    subst hs
    refine ⟨?_, h.unique, h.servers⟩
    rw [← hresources, h.outlines, List.append_nil]
  | some c =>
    rw [hc] at hs hresources
    obtain ⟨server, hserver, hs⟩ := hs
    obtain ⟨hgrows, hservers⟩ := hs (h.servers c server hserver)
    refine ⟨?_, hgrows.unique h.unique, fun c server hserver => ?_⟩
    · rw [← hresources, hgrows.outlines, h.outlines]
    · rw [hservers] at hserver
      exact hgrows.getElem? (h.servers c server hserver)

end Visit

theorem resourcesFor_of_visit (ht : job.model.topology.Built) {w : σ} {s' : Assembly State × σ}
    (h : Yields ((visitor job).visitComponents job.model.topology) ({ built := {} }, w) () s') :
    ∃ order, job.model.topology.hostingOrder = .ok order ∧
      ResourcesFor job.model.topology order s'.1.built := by
  refine Visitor.exists_order_of_hosts (p := ResourcesFor job.model.topology) rfl ht
    handles_addCompute (fun id hid => handles_addSoftware hid)
    ⟨rfl, ?_, fun c server hserver => ?_⟩
    (fun done id rest s s' _ hid hs hr => hs.compute hid hr)
    (fun done id rest s s' _ hid hs hr => hs.software hid hr) h
  · exact List.nodup_nil
  · cases hserver

/-! ### The template -/

/-- A template has the deployments of the components, one component after the other, and a
server for each compute. It has no others of either. Its names stand for one resource each,
and its document lists them all. -/
structure DeploymentsFor (t : Topology) (order : List ComponentId) (template : Template) :
    Prop where
  deployments : template.graph.nodes.toList.filter isDeployment = order.flatMap (deploymentsOf t)
  servers : (template.graph.nodes.toList.filter isServer).map Resource.name =
    (t.computesOf order).map fun c => (t.component c).identifier
  unique : template.graph.names.Nodup
  listed : template.resources.toList = template.graph.nodes.toList.zipIdx.map fun (r, id) =>
    (r.name, resourceJson r (template.graph.dependencyNames id))

/-- A document lists all resources if their names are unique. -/
theorem Template.resources_eq {template : Template} (h : template.graph.names.Nodup) :
    template.resources.toList = template.graph.nodes.toList.zipIdx.map fun (r, id) =>
      (r.name, resourceJson r (template.graph.dependencyNames id)) := by
  refine OrderedMap.toList_ofList ?_
  rw [← OutputGraph.map_name_zipIdx] at h
  rwa [List.map_map]

theorem ResourcesFor.deploymentsFor {order : List ComponentId} {s : State}
    (h : ResourcesFor job.model.topology order s) :
    DeploymentsFor job.model.topology order (template job s) where
  deployments := by
    show s.graph.nodes.toList.filter isDeployment = _
    rw [← filter_isDeployment_outline, ← State.outlines, h.outlines, List.filter_flatMap]
    simp only [filter_isDeployment_resourcesOf]
  servers := by
    show (s.graph.nodes.toList.filter isServer).map Resource.name = _
    rw [← filter_isServer_outline, ← State.outlines, h.outlines, List.filter_flatMap,
      List.map_flatMap, Topology.map_computesOf]
    simp only [filter_isServer_resourcesOf]
  unique := h.unique
  listed := Template.resources_eq h.unique

/-- **Each operation that has scripts becomes one deployment, to the server of the compute that
the component runs on.** A run that succeeds writes a template with exactly these deployments. -/
theorem deploymentsFor_of_run (ht : job.model.topology.Built) {w w' : σ} {p : Progress}
    (h : ((lifecycle job).run .idle).run w = ((.ok (), p), w')) :
    ∃ order template, job.model.topology.hostingOrder = .ok order ∧
      DeploymentsFor job.model.topology order template ∧
      job.Delivers [(templateFile job.model, Yaml.write template.toJson)] w' := by
  obtain ⟨s, visited, w₁, w₂, w₃, hvisit, hwrite, hrelease⟩ := Job.exists_visit_of_run h
  obtain ⟨order, horder, hresources⟩ := resourcesFor_of_visit ht hvisit
  exact ⟨order, template job s, horder, hresources.deploymentsFor,
    Job.delivers_of_write hwrite hrelease⟩

end Provision.Heat
