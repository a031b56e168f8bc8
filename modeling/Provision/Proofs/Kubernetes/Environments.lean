import Provision.Proofs.Json.References
import Provision.Proofs.Kubernetes.Copies
import Provision.Proofs.Placement
import Provision.Proofs.Topology.Environment

/-! The environments of container stacks.

Along the hosting order, each stack gathers the variables of the software that joins it, and
no stacks are connected yet. The edges that follow connect exactly the stacks between which a
connection leads. So the number of a stack is the place of its compute in hosting order, and
the stacks that one is connected to are those of the computes that it is connected to, in that
order. What a stack's manifest declares is thus known from the topology alone. -/
namespace Provision.Kubernetes
open Build
open Yaml (Value)

variable {σ : Type} {job : Job (StateM σ)}

/-! ### The variables of a stack -/

/-- The environments of the stacks once some components are done. -/
structure EnvironmentsFor (t : Topology) (done : List ComponentId) (s : State) : Prop where
  each : List.Forall₂ (fun c (stack : Stack) => stack.environment = t.ownEnvironment done c)
    (t.computesOf done) s.graph.nodes.toList
  distinct : s.graph.names.Nodup
  unconnected : s.graph.edges = []

section Visit
variable {t : Topology} {done rest : List ComponentId} {id : ComponentId} {s s' : State}

theorem StacksFor.names (h : StacksFor t done s) :
    s.graph.names = (t.computesOf done).map fun c => Stack.label (t.component c).identifier :=
  (map_eq_of_forall₂ h.each fun _ _ hstack => hstack.name.symm).symm

/-- The number of a stack is the place of its compute among the computes. -/
theorem StacksFor.nodeOf_eq_some (h : StacksFor t done s)
    (hkeys : s.nodeOf.keys = t.computesOf done) (hnodup : (t.computesOf done).Nodup)
    {c : ComponentId} {node : NodeId} :
    s.nodeOf.get? c = some node ↔ (t.computesOf done)[node]? = some c := by
  refine ⟨h.known c node, fun hc => ?_⟩
  have hmem : c ∈ s.nodeOf.keys := hkeys ▸ List.mem_of_getElem? hc
  obtain ⟨found, hfound⟩ := OrderedMap.exists_get?_eq_some hmem
  have hsame := (List.getElem?_inj (List.getElem?_eq_some_iff.mp hc).1 hnodup).mp
    (hc.trans (h.known c found hfound).symm)
  rw [hfound, hsame]

theorem EnvironmentsFor.compute (h : EnvironmentsFor t done s) (ht : t.Built)
    (horder : t.hostingOrder = .ok (done ++ id :: rest))
    (hid : (t.component id).isA .compute = true) (hs : Opens t id s s') :
    EnvironmentsFor t (done ++ [id]) s' := by
  obtain ⟨stack, _, henvironment, hnew, rfl⟩ := hs
  refine ⟨?_, ?_, h.unconnected⟩
  · simp only [t.computesOf_append_compute done hid, Topology.ownEnvironment_append_compute done hid,
      Array.toList_push]
    refine List.rel_append h.each (.cons ?_ .nil)
    rw [henvironment, Topology.ownEnvironment_next ht horder]
  · rw [OutputGraph.names_push, ← List.concat_eq_append]
    exact h.distinct.concat hnew

theorem EnvironmentsFor.software (h : EnvironmentsFor t done s) (hstacks : StacksFor t done s)
    (ht : t.Built) (horder : t.hostingOrder = .ok (done ++ id :: rest))
    (hid : (t.component id).isA .compute = false) (hs : Joins t id s s') :
    EnvironmentsFor t (done ++ [id]) s' := by
  have hnames := (hstacks.software ht horder hid hs).names
  rw [t.computesOf_append_software done hid, ← hstacks.names] at hnames
  refine ⟨hs.forall₂ ht horder hid hstacks.known h.each (fun c port stack hc hstack => ?_)
    fun c stack hc hstack => ?_, hnames ▸ h.distinct, ?_⟩
  · rw [Stack.host_environment, hstack, Topology.ownEnvironment_append, if_pos hc]
  · rw [hstack, Topology.ownEnvironment_append, if_neg hc]
  · obtain ⟨_, _, _, _, _, rfl⟩ := hs
    exact h.unconnected

end Visit

theorem environmentsFor_of_visit (ht : job.model.topology.Built) {w : σ}
    {s' : Assembly State × σ}
    (h : Yields ((visitor job).visitComponents job.model.topology) ({ built := {} }, w) () s') :
    ∃ order, job.model.topology.hostingOrder = .ok order ∧
      StacksFor job.model.topology order s'.1.built ∧
      EnvironmentsFor job.model.topology order s'.1.built := by
  refine Visitor.exists_order_of_hosts
    (p := fun done s => StacksFor job.model.topology done s ∧
      EnvironmentsFor job.model.topology done s) rfl ht handles_addCompute
    (fun id hid => handles_addSoftware hid) ⟨⟨.nil, fun c node hnode => ?_⟩, ?_⟩
    (fun done id rest s s' horder hid hs hr =>
      ⟨hs.1.compute ht horder hid hr, hs.2.compute ht horder hid hr⟩)
    (fun done id rest s s' horder hid hs hr =>
      ⟨hs.1.software ht horder hid hr, hs.2.software hs.1 ht horder hid hr⟩) h
  · cases hnode
  · exact ⟨.nil, List.nodup_nil, rfl⟩

/-! ### The connections between stacks -/

theorem mem_edges_connected {g : OutputGraph Stack} {source target a b : NodeId} :
    ⟨a, b, .relation .connectsTo⟩ ∈ (connected g source target).edges ↔
      ⟨a, b, .relation .connectsTo⟩ ∈ g.edges ∨ a ≠ b ∧ a = source ∧ b = target := by
  unfold connected
  by_cases h : source = target
  · subst h
    rw [if_pos rfl, or_iff_left]
    rintro ⟨hne, rfl, rfl⟩
    exact hne rfl
  · rw [if_neg h, OutputGraph.addDependency, OutputGraph.mem_edges_addEdge,
      OutputGraph.mem_edges_addEdge]
    simp only [OutputEdge.mk.injEq, reduceCtorEq, and_false, or_false, and_true]
    refine or_congr_right ⟨fun heq => ⟨?_, heq⟩, fun heq => heq.2⟩
    rw [heq.1, heq.2]
    exact h

theorem stackOf_congr {t : Topology} {s s' : State} (h : s'.nodeOf = s.nodeOf) :
    stackOf t s' = stackOf t s := by
  funext id
  unfold stackOf
  rw [h]

/-- Two stacks are connected if a connection leads from the one to the other. -/
theorem mem_edges_of_acceptRelations {l : List Edge} {s s' : Assembly State × σ}
    (h : Yields (l.forM (visitor job).acceptRelation) s () s') {a b : NodeId} :
    ⟨a, b, .relation .connectsTo⟩ ∈ s'.1.built.graph.edges ↔
      ⟨a, b, .relation .connectsTo⟩ ∈ s.1.built.graph.edges ∨
        a ≠ b ∧ ∃ e ∈ l, e.kind = .connectsTo ∧
          stackOf job.model.topology s.1.built e.source = .ok a ∧
          stackOf job.model.topology s.1.built e.target = .ok b := by
  induction l generalizing s with
  | nil =>
    obtain ⟨_, rfl⟩ := yields_pure.mp h
    simp
  | cons e rest ih =>
    obtain ⟨_, s₁, he, hrest⟩ := yields_bind.mp h
    rw [ih hrest, List.exists_mem_cons_iff]
    rcases cases_of_acceptRelation he with ⟨hkind, rfl⟩ | ⟨hkind, source, target, hs, ht, rfl⟩
    · simp only [hkind, false_and, false_or]
    · have hstack : stackOf job.model.topology
          { s.1.built with graph := connected s.1.built.graph source target } =
            stackOf job.model.topology s.1.built := stackOf_congr rfl
      rw [mem_edges_connected, hstack, hs, ht]
      simp only [hkind, true_and, Except.ok.injEq, or_assoc, and_or_left, eq_comm]

theorem isRelation_connectsTo {label : EdgeLabel} :
    label.isRelation .connectsTo = true ↔ label = .relation .connectsTo := by
  cases label with
  | dependency => simp [EdgeLabel.isRelation]
  | relation kind => cases kind <;> decide

/-- What is known of the stacks in the end. -/
structure Finished (t : Topology) (order : List ComponentId) (g : OutputGraph Stack) : Prop where
  each : List.Forall₂ (fun c stack => StackFor t c (t.scriptsOn order c) stack)
    (t.computesOf order) g.nodes.toList
  environments : List.Forall₂
    (fun c (stack : Stack) => stack.environment = t.ownEnvironment order c)
    (t.computesOf order) g.nodes.toList
  distinct : g.names.Nodup
  connected : ∀ a b, ⟨a, b, .relation .connectsTo⟩ ∈ g.edges ↔
    ∃ c c', c' ≠ c ∧ t.Connects c c' ∧ (t.computesOf order)[a]? = some c ∧
      (t.computesOf order)[b]? = some c'

theorem finished_of_visit (ht : job.model.topology.Built) {w : σ} {s' : Assembly State × σ}
    (h : Yields ((visitor job).visit job.model.topology) ({ built := {} }, w) () s') :
    ∃ order, job.model.topology.hostingOrder = .ok order ∧
      Finished job.model.topology order s'.1.built.graph := by
  obtain ⟨_, s, hcomponents, hrelations⟩ := yields_bind.mp h
  obtain ⟨order, horder, hstacks, henvironments⟩ := environmentsFor_of_visit ht hcomponents
  obtain ⟨_, hsame, hkeys⟩ := keys_of_visit ht hcomponents
  cases horder.symm.trans hsame
  have hnodup : (job.model.topology.computesOf order).Nodup :=
    (Topology.hostingOrder_nodup ht horder).filter _
  have hnodes := (kept_of_acceptRelations hrelations).1
  refine ⟨order, horder, hnodes ▸ hstacks.each, hnodes ▸ henvironments.each, ?_, fun a b => ?_⟩
  · rw [OutputGraph.names, hnodes]
    exact henvironments.distinct
  · rw [mem_edges_of_acceptRelations hrelations, henvironments.unconnected]
    simp only [stackOf_eq_ok, hstacks.nodeOf_eq_some hkeys hnodup, List.not_mem_nil, false_or,
      Array.mem_toList_iff]
    constructor
    · rintro ⟨hne, e, he, hkind, ⟨c, hsource, hc⟩, c', htarget, hc'⟩
      refine ⟨c, c', fun heq => hne ?_, ⟨e, he, hkind, hsource, htarget⟩, hc, hc'⟩
      refine (List.getElem?_inj (List.getElem?_eq_some_iff.mp hc).1 hnodup).mp ?_
      rw [hc, hc', heq]
    · rintro ⟨c, c', hne, ⟨e, he, hkind, hsource, htarget⟩, hc, hc'⟩
      refine ⟨fun heq => hne ?_, e, he, hkind, ⟨c, hsource, hc⟩, c', htarget, hc'⟩
      rw [heq, hc'] at hc
      exact Option.some.inj hc

namespace Finished
variable {t : Topology} {order : List ComponentId} {g : OutputGraph Stack} {a : NodeId}
  {c : ComponentId}

/-- The stacks that a stack is connected to are those one connection away, in hosting order. -/
theorem targets (h : Finished t order g) (ht : t.Built) (horder : t.hostingOrder = .ok order)
    (hc : (t.computesOf order)[a]? = some c) :
    (g.targets a .connectsTo).filterMap (fun b => (t.computesOf order)[b]?) =
      (t.computesOf order).filter fun target => target ≠ c ∧ t.Connects c target := by
  have hrising : (t.computesOf order).Pairwise fun x y => order.idxOf x < order.idxOf y :=
    (Topology.hostingOrder_pairwise ht horder).filter _
  refine Topology.eq_of_rising ?_ (hrising.filter _) fun target => ?_
  · refine (ascending_pairwise _).filterMap _ fun b b' hlt x hx y hy => ?_
    obtain ⟨hb, rfl⟩ := List.getElem?_eq_some_iff.mp hx
    obtain ⟨hb', rfl⟩ := List.getElem?_eq_some_iff.mp hy
    exact List.pairwise_iff_getElem.mp hrising b b' hb hb' hlt
  · simp only [List.mem_filterMap, OutputGraph.mem_targets, isRelation_connectsTo,
      exists_eq_left, h.connected, List.mem_filter, decide_eq_true_eq]
    constructor
    · rintro ⟨b, ⟨c₁, c₂, hne, hconnects, hc₁, hc₂⟩, htarget⟩
      cases hc.symm.trans hc₁
      cases htarget.symm.trans hc₂
      exact ⟨List.mem_of_getElem? htarget, hne, hconnects⟩
    · rintro ⟨hmem, hne, hconnects⟩
      obtain ⟨b, hb⟩ := List.getElem?_of_mem hmem
      exact ⟨b, ⟨c, target, hne, hconnects, hc, hb⟩, hb⟩

/-- What a stack is given is what the topology says. -/
theorem environmentOf_eq (h : Finished t order g) (ht : t.Built)
    (horder : t.hostingOrder = .ok order) (hc : (t.computesOf order)[a]? = some c) :
    environmentOf g a = t.stackEnvironment order c := by
  have hnode (b : NodeId) : (g.node? b).map Stack.environment =
      ((t.computesOf order)[b]?).map (t.ownEnvironment order) := by
    rw [← List.getElem?_map, map_eq_of_forall₂ h.environments fun _ _ heq => heq.symm,
      List.getElem?_map, Array.getElem?_toList]
    rfl
  have hcollect : g.collect a .connectsTo Stack.environment =
      .mergeAll (((t.computesOf order).filter fun target => target ≠ c ∧ t.Connects c target).map
        (t.ownEnvironment order)) := by
    rw [← h.targets ht horder hc, List.map_filterMap]
    unfold OutputGraph.collect
    simp only [hnode]
  rw [environmentOf, hnode, hc, hcollect]
  exact OrderedMap.mergeAll_pair _ _

theorem map_compute (h : Finished t order g) :
    g.nodes.toList.map Stack.compute = t.computesOf order := by
  rw [← map_eq_of_forall₂ h.each fun _ _ hstack => hstack.compute.symm]
  exact List.map_id _

/-- The files are those of the stacks, each with the environment of its compute. -/
theorem files_eq (h : Finished t order g) (ht : t.Built) (horder : t.hostingOrder = .ok order) :
    files g = g.nodes.toList.flatMap fun s => filesOf s (t.stackEnvironment order s.compute) := by
  have henvironment : ∀ x ∈ g.nodes.toList.zipIdx,
      filesOf x.1 (environmentOf g x.2) = filesOf x.1 (t.stackEnvironment order x.1.compute) := by
    intro x hx
    have hnode := List.mem_zipIdx_iff_getElem?.mp hx
    have hcompute : (t.computesOf order)[x.2]? = some x.1.compute := by
      rw [← h.map_compute, List.getElem?_map, hnode]
      rfl
    rw [h.environmentOf_eq ht horder hcompute]
  conv_rhs => rw [← List.zipIdx_map_fst 0 g.nodes.toList, List.flatMap_map]
  exact List.flatMap_congr henvironment

end Finished

/-! ### The manifests -/

/-- A variable of a container, with its value. -/
def declared? (v : Json) : Option (String × String) :=
  match v.member? "name", v.member? "value" with
  | some (.string name), some (.string value) => some (name, value)
  | _, _ => none

/-- The variables of the container that a manifest runs, as its `env` lists them. -/
def deployedVariables? (manifest : Json) : Option (List (String × String)) := do
  let pod ← (← (← manifest.member? "spec").member? "template").member? "spec"
  match ← pod.member? "containers" with
  | .array [container] =>
    match ← container.member? "env" with
    | .array items => items.mapM declared?
    | _ => none
  | _ => none

/-- A manifest runs the image with the variables that it is made for, in their order. -/
theorem deployedVariables?_deployment (s : Stack) (environment : OrderedMap String String) :
    deployedVariables? (s.deployment environment) = some environment.toList := by
  let item (e : String × String) : Json :=
    .sorted [("name", .string e.1), ("value", .string e.2)]
  have hitem (e : String × String) : declared? (item e) = some e := by
    unfold declared? item
    rw [Json.member?_sorted, Json.member?_sorted]
    rfl
  have hdeployed : deployedVariables? (s.deployment environment) =
      environment.toList.mapM fun e => declared? (item e) := by
    simp [deployedVariables?, Stack.deployment, Stack.container, Json.member?_sorted,
      Json.member?_object, OrderedMap.ofList, OrderedMap.extend, OrderedMap.get?_insert,
      OrderedMap.lookup, item, Function.comp_def]
  rw [hdeployed, funext hitem]
  exact List.mapM_pure.trans (congrArg some environment.toList.map_id)

/-! ### The run -/

/-- **A stack has its own variables and those of the stacks that it is connected to.** A run that
succeeds makes one stack for each compute. The manifest of a stack declares the variables of the
software on its compute, and then those of the software on the computes one connection away, in
hosting order; a later value takes the place of an earlier one. A connection that is repeated, or
that stays on one stack, changes neither the order nor any environment. -/
theorem environments_of_run {name : String} {g : EntityGraph}
    (hbuild : Model.build name g = .ok job.model) {w w' : σ} {p : Progress}
    (h : ((lifecycle job).run .idle).run w = ((.ok (), p), w')) :
    ∃ order, ∃ made : List Stack, job.model.topology.hostingOrder = .ok order ∧
      (∀ c < job.model.topology.size, (job.model.topology.component c).isA .compute = true →
        c ∈ made.map Stack.compute) ∧
      made.map Stack.compute = job.model.topology.computesOf order ∧
      (made.map Stack.name).Nodup ∧
      job.Delivers (made.flatMap fun s =>
        filesOf s (job.model.topology.stackEnvironment order s.compute)) w' ∧
      (∀ s ∈ made, ∃ env, deployedVariables?
          (s.deployment (job.model.topology.stackEnvironment order s.compute)) = some env ∧
        env.map Prod.fst =
          ((job.model.topology.contributions order s.compute).flatMap OrderedMap.keys).eraseDups ∧
        ∀ key value, (key, value) ∈ env ↔
          (job.model.topology.contributions order s.compute).reverse.findSome?
            (fun m => m.get? key) = some value) ∧
      ∀ source target r, r.kind = .connectsTo → job.model.topology.Redundant source target →
        (job.model.topology.addRelation source target r).2.hostingOrder = .ok order ∧
        ∀ c, (job.model.topology.addRelation source target r).2.stackEnvironment order c =
          job.model.topology.stackEnvironment order c := by
  have ht := Model.built_of_build hbuild
  obtain ⟨s, visited, w₁, w₂, w₃, hvisit, hwrite, hrelease⟩ := Job.exists_visit_of_run h
  obtain ⟨order, horder, hfinished⟩ := finished_of_visit ht hvisit
  refine ⟨order, s.graph.nodes.toList, horder, fun c hc hcompute => ?_,
    hfinished.map_compute, hfinished.distinct, ⟨w₂, w₃, ?_, hrelease⟩,
    fun s _ => ⟨_, deployedVariables?_deployment _ _, Topology.toList_stackEnvironment _ _ _⟩,
    fun source target r hr hredundant => ?_⟩
  · rw [hfinished.map_compute]
    refine List.mem_filter.mpr ⟨?_, hcompute⟩
    exact (Topology.hostingOrder_perm ht horder).mem_iff.mpr (Topology.mem_ids.mpr hc)
  · rw [← hfinished.files_eq ht horder]
    exact hwrite
  · have hhosts : Kind.isA r.kind .hostedOn = false := by
      rw [hr]
      rfl
    exact ⟨(Topology.hostingOrder_addRelation hhosts).trans horder,
      Topology.stackEnvironment_addRelation hhosts hredundant order⟩

/-- Three stacks in a ring, the first of them connected to the second one twice. Both have a
variable of one name. -/
def ringDocument : Value :=
  let software (vm : String) (properties : List (String × Value)) (targets : List String) : Value :=
    BuiltIn.mapping
      [(Key.type, .string "software_component"), (Key.properties, BuiltIn.mapping properties),
        (Key.relations, .sequence (BuiltIn.mapping [("hosted_on", .string vm)] ::
          targets.map fun target => BuiltIn.mapping [("connects_to", .string target)]))]
  let compute : Value := BuiltIn.mapping [(Key.type, .string "compute")]
  BuiltIn.mapping
    [(Key.components, BuiltIn.mapping
        [("front", compute), ("middle", compute), ("back", compute),
          ("web", software "front" [("shop_key", .string "a"), ("mode", .string "fast")]
            ["web-shop", "web-shop"]),
          ("web-shop", software "middle" [("key", .string "b")] ["store"]),
          ("store", software "back" [("key", .string "c")] ["web"])])]

theorem environments_of_run_ring : ∃ g model order, ∃ made : List Stack, ∃ p w',
    EntityGraph.ofValue true ringDocument = .ok g ∧ Model.build "ring" g = .ok model ∧
    ((lifecycle (webJob model)).run .idle).run {} = ((.ok (), p), w') ∧
    model.topology.hostingOrder = .ok order ∧ made.map Stack.compute = [0, 1, 2] ∧
    (webJob model).Delivers (made.flatMap fun s =>
      filesOf s (model.topology.stackEnvironment order s.compute)) w' ∧
    (∀ s ∈ made, ∃ env, deployedVariables?
        (s.deployment (model.topology.stackEnvironment order s.compute)) = some env ∧
      ∀ key value, (key, value) ∈ env ↔
        (model.topology.contributions order s.compute).reverse.findSome?
          (fun m => m.get? key) = some value) ∧
    (model.topology.stackEnvironment order 0).toList =
      [("WEB_SHOP_KEY", "b"), ("WEB_MODE", "fast")] ∧
    (model.topology.stackEnvironment order 1).toList =
      [("WEB_SHOP_KEY", "b"), ("STORE_KEY", "c")] := by
  let order : List ComponentId := [0, 1, 2, 3, 4, 5]
  have hring : (((EntityGraph.ofValue true ringDocument).mapError
      (.unreadableModel "ring.yaml") >>= Model.build "ring").map fun m =>
        [succeeds lifecycle m, m.topology.hostingOrder.toOption = some order,
          m.topology.computesOf order = [0, 1, 2],
          (m.topology.stackEnvironment order 0).toList =
            [("WEB_SHOP_KEY", "b"), ("WEB_MODE", "fast")],
          (m.topology.stackEnvironment order 1).toList =
            [("WEB_SHOP_KEY", "b"), ("STORE_KEY", "c")]]) = .ok (List.replicate 5 true) := by
    decide +kernel
  obtain ⟨model, hm, hall⟩ := map_eq_ok.mp hring
  obtain ⟨g, hg, hbuild⟩ := bind_eq_ok.mp hm
  simp only [List.replicate, List.cons.injEq, decide_eq_true_eq, toOption_eq_some, and_true]
    at hall
  obtain ⟨hsucceeds, horder, hcomputes, hfront, hmiddle⟩ := hall
  obtain ⟨p, w', hrun⟩ := run_of_succeeds hsucceeds
  have hjob : Model.build "ring" g = .ok (webJob model).model := hbuild
  obtain ⟨_, made, hsame, _, hmade, _, hdelivers, hdeployed, _⟩ := environments_of_run hjob hrun
  cases horder.symm.trans hsame
  refine ⟨g, model, order, made, p, w', mapError_eq_ok.mp hg, hbuild, hrun, hsame,
    hmade.trans hcomputes, hdelivers, fun s hs => ?_, hfront, hmiddle⟩
  obtain ⟨env, henv, _, hvalues⟩ := hdeployed s hs
  exact ⟨env, henv, hvalues⟩

end Provision.Kubernetes
