import Provision.Azure.Backend
import Provision.Proofs.Backend.Success
import Provision.Proofs.Data.Except
import Provision.Proofs.Data.OrderedMap

/-! The script extensions of an Azure template.

Along the hosting order, every compute that is done has a machine, and the scripts of a
compute are those that are done and run on it. What runs on a compute makes room for its
scripts and then adds them one by one. In the end there is an extension for each compute
that has scripts, on its machine, with all of them in order. -/
namespace Provision.Azure
open Build

variable {σ : Type} {job : Job (StateM σ)}

/-- The step that runs a script. -/
def stepFor (t : Topology) (s : PlacedScript) : ScriptStep :=
  let file := scriptFile (t.component s.component) s.artifact
  { file, command := assignments (t.stackedEnvironment s.component) ++ "sh " ++ file }

/-- The machine of a compute. -/
def machineFor (job : Job (StateM σ)) (c : ComponentId) : Resource :=
  match machine job c (job.model.topology.component c) with
  | .ok tree => tree.value
  | .error _ => default

/-- The extension that runs scripts on the machine of a compute. -/
def extensionFor (job : Job (StateM σ)) (c : ComponentId) (scripts : List PlacedScript) :
    Resource :=
  let steps := scripts.map (stepFor job.model.topology)
  scriptExtension (machineFor job c) (steps.map ScriptStep.file)
    (" && ".intercalate (steps.map ScriptStep.command))

def isExtension (r : Resource) : Bool := r.type = "Microsoft.Compute/virtualMachines/extensions"

/-! ### One component -/

/-- Steps are added to those of a compute, and nothing else changes. -/
structure Adds (compute : ComponentId) (steps : List ScriptStep) (a a' : Assembly State) :
    Prop where
  visited : a'.visited = a.visited
  machines : a'.built.machines = a.built.machines
  scripts : a'.built.scripts.toList =
    a.built.scripts.toList.map (OrderedMap.adjustEntry compute (· ++ steps))

theorem Adds.refl (compute : ComponentId) (a : Assembly State) : Adds compute [] a a where
  visited := rfl
  machines := rfl
  scripts := by
    refine ((List.map_congr_left fun e _ => ?_).trans (List.map_id _)).symm
    simp [OrderedMap.adjustEntry]

theorem Adds.trans {compute : ComponentId} {steps steps' : List ScriptStep}
    {a₁ a₂ a₃ : Assembly State} (h : Adds compute steps a₁ a₂) (h' : Adds compute steps' a₂ a₃) :
    Adds compute (steps ++ steps') a₁ a₃ where
  visited := h'.visited.trans h.visited
  machines := h'.machines.trans h.machines
  scripts := by
    rw [h'.scripts, h.scripts, List.map_map]
    refine List.map_congr_left fun e _ => ?_
    rw [Function.comp_apply, OrderedMap.adjustEntry_adjustEntry]
    congr 1
    funext l
    exact List.append_assoc _ _ _

theorem adds_of_addScript {compute id : ComponentId} {o : Operation} {a : Artifact}
    {t : Topology} {s s' : Assembly State × σ}
    (h : Yields (addScript job compute (t.component id) (t.stackedEnvironment id) a) s () s') :
    Adds compute [stepFor t { component := id, operation := o, artifact := a }] s.1 s'.1 := by
  obtain ⟨text, w₁, _, h⟩ := yields_lift_bind.mp h
  obtain ⟨_, w₂, _, h⟩ := yields_lift_bind.mp h
  rw [yields_change] at h
  subst h
  exact ⟨rfl, rfl, OrderedMap.toList_adjust _ _ _⟩

/-- The scripts of a component are added in the order in which they run. -/
theorem adds_of_addScripts {compute id : ComponentId} {t : Topology} {s s' : Assembly State × σ}
    (h : Yields ((t.component id).scriptedOperations.forM fun o => o.artifacts.forM
      (addScript job compute (t.component id) (t.stackedEnvironment id))) s () s') :
    Adds compute ((t.scriptsOf id).map (stepFor t)) s.1 s'.1 := by
  rw [Topology.map_scriptsOf]
  refine yields_forM_invariant (p := fun done s₁ => Adds compute (done.flatMap fun o =>
    o.artifacts.map fun a => stepFor t { component := id, operation := o, artifact := a })
      s.1 s₁.1) ?_ h (.refl compute s.1)
  intro done o rest s₁ s₂ _ hdone ho
  rw [List.flatMap_append, List.flatMap_singleton]
  refine hdone.trans ?_
  refine yields_forM_invariant (p := fun done s => Adds compute (done.map fun a =>
    stepFor t { component := id, operation := o, artifact := a }) s₁.1 s.1) ?_ ho
      (.refl compute s₁.1)
  intro done a rest s₃ s₄ _ hdone ha
  rw [List.map_append]
  exact hdone.trans (adds_of_addScript ha)

/-- What a compute does to a visit. -/
def Opens (job : Job (StateM σ)) (id : ComponentId) (s s' : State) : Prop :=
  ∃ tree, machine job id (job.model.topology.component id) = .ok tree ∧
    s' = { s with machines := s.machines.insert id tree }

/-- What software does to a visit. -/
def Joins (t : Topology) (id : ComponentId) (s s' : State) : Prop :=
  match t.placed? id with
  | none => s' = s
  | some c => s'.machines = s.machines ∧
    s'.scripts.toList = (s.scripts.insertNew c []).toList.map
      (OrderedMap.adjustEntry c (· ++ (t.scriptsOf id).map (stepFor t)))

theorem handles_addCompute (id : ComponentId) :
    Handles (addCompute job id (job.model.topology.component id)) id (Opens job id) := by
  refine handles_once fun s s' h => ?_
  obtain ⟨tree, htree, h⟩ := yields_ofExcept_bind.mp h
  rw [yields_change] at h
  subst h
  exact ⟨⟨tree, htree, rfl⟩, rfl⟩

theorem handles_addSoftware {id : ComponentId}
    (hid : (job.model.topology.component id).isA .compute = false) :
    Handles (addSoftware job id (job.model.topology.component id)) id
      (Joins job.model.topology id) := by
  refine handles_once fun s s' h => ?_
  obtain ⟨compute?, hcompute, h⟩ := yields_ofExcept_bind.mp h
  unfold Joins
  rw [Topology.placed?_of_computeOf hid hcompute]
  cases compute? with
  | none =>
    obtain ⟨_, rfl⟩ := yields_pure.mp h
    exact ⟨rfl, rfl⟩
  | some c =>
    have hadds := adds_of_addScripts (yields_change_bind.mp h)
    exact ⟨⟨hadds.machines, hadds.scripts⟩, hadds.visited⟩

/-! ### The visit -/

/-- The machines and their scripts once some components are done. -/
structure ScriptsFor (job : Job (StateM σ)) (done : List ComponentId) (s : State) : Prop where
  keys : s.machines.keys = job.model.topology.computesOf done
  machines : ∀ e ∈ s.machines.toList,
    machine job e.1 (job.model.topology.component e.1) = .ok e.2
  scripts : ∀ e ∈ s.scripts.toList, e.1 ∈ job.model.topology.computesOf done ∧
    e.2 = (job.model.topology.scriptsOn done e.1).map (stepFor job.model.topology)
  complete : ∀ c, job.model.topology.scriptsOn done c ≠ [] → c ∈ s.scripts.keys

section Visit
variable {done rest : List ComponentId} {id : ComponentId} {s s' : State}

theorem ScriptsFor.compute (h : ScriptsFor job done s) (ht : job.model.topology.Built)
    (horder : job.model.topology.hostingOrder = .ok (done ++ id :: rest))
    (hid : (job.model.topology.component id).isA .compute = true) (hs : Opens job id s s') :
    ScriptsFor job (done ++ [id]) s' := by
  obtain ⟨tree, htree, rfl⟩ := hs
  have hsame := job.model.topology.scriptsOn_append_compute done hid
  have hcomputes := job.model.topology.computesOf_append_compute done hid
  have hnew : id ∉ s.machines.keys := by
    rw [h.keys]
    exact fun hmem => Topology.next_not_mem ht horder (List.mem_filter.mp hmem).1
  refine ⟨?_, fun e he => ?_, fun e he => ?_, fun c hc => ?_⟩
  · rw [OrderedMap.keys_insert, if_neg hnew, h.keys, hcomputes]
  · rw [OrderedMap.toList_insert_of_notMem hnew] at he
    rcases List.mem_append.mp he with he | he
    · exact h.machines e he
    · cases List.mem_singleton.mp he
      exact htree
  · obtain ⟨hmem, hscripts⟩ := h.scripts e he
    rw [hcomputes, hsame]
    exact ⟨List.mem_append_left _ hmem, hscripts⟩
  · rw [hsame] at hc
    exact h.complete c hc

/-- Room for the scripts of a compute changes none that are there. -/
theorem ScriptsFor.room (h : ScriptsFor job done s) {c : ComponentId}
    (hc : c ∈ job.model.topology.computesOf done) :
    ScriptsFor job done { s with scripts := s.scripts.insertNew c [] } := by
  refine ⟨h.keys, h.machines, fun e he => ?_, fun c' hc' => ?_⟩
  · rw [OrderedMap.toList_insertNew] at he
    split at he
    case isTrue => exact h.scripts e he
    case isFalse hnew =>
      rcases List.mem_append.mp he with he | he
      · exact h.scripts e he
      · cases List.mem_singleton.mp he
        have hnone : job.model.topology.scriptsOn done c = [] :=
          Decidable.byContradiction fun hsome => hnew (h.complete c hsome)
        exact ⟨hc, by rw [hnone]; rfl⟩
  · exact OrderedMap.mem_keys_insertNew.mpr (.inr (h.complete c' hc'))

/-- The scripts of what runs on a compute come after those that are there. -/
theorem ScriptsFor.append (h : ScriptsFor job done s)
    (hid : (job.model.topology.component id).isA .compute = false) {c : ComponentId}
    (hc : job.model.topology.placed? id = some c) (hroom : c ∈ s.scripts.keys)
    (hmachines : s'.machines = s.machines)
    (hscripts : s'.scripts.toList = s.scripts.toList.map (OrderedMap.adjustEntry c
      (· ++ (job.model.topology.scriptsOf id).map (stepFor job.model.topology)))) :
    ScriptsFor job (done ++ [id]) s' := by
  have hcomputes := job.model.topology.computesOf_append_software done hid
  have happend (c' : ComponentId) := job.model.topology.scriptsOn_append done id c'
  have hkeys : s'.scripts.keys = s.scripts.keys := by
    show s'.scripts.toList.map Prod.fst = s.scripts.toList.map Prod.fst
    rw [hscripts, List.map_map]
    exact List.map_congr_left fun e _ => OrderedMap.adjustEntry_fst c _ e
  refine ⟨?_, ?_, fun e he => ?_, fun c' hc' => ?_⟩
  · rw [hmachines, h.keys, hcomputes]
  · rw [hmachines]
    exact h.machines
  · rw [hscripts] at he
    obtain ⟨e, hold, rfl⟩ := List.mem_map.mp he
    obtain ⟨hmem, hold⟩ := h.scripts e hold
    rw [OrderedMap.adjustEntry_fst, hcomputes, happend, hc]
    refine ⟨hmem, ?_⟩
    by_cases heq : e.1 = c
    · simp [OrderedMap.adjustEntry, heq, hold]
    · simp [OrderedMap.adjustEntry, heq, hold, Ne.symm heq]
  · rw [hkeys]
    by_cases heq : c' = c
    · exact heq ▸ hroom
    · rw [happend, hc, if_neg (fun h => heq (Option.some.inj h).symm), List.append_nil] at hc'
      exact h.complete c' hc'

theorem ScriptsFor.software (h : ScriptsFor job done s) (ht : job.model.topology.Built)
    (horder : job.model.topology.hostingOrder = .ok (done ++ id :: rest))
    (hid : (job.model.topology.component id).isA .compute = false)
    (hs : Joins job.model.topology id s s') : ScriptsFor job (done ++ [id]) s' := by
  unfold Joins at hs
  cases hc : job.model.topology.placed? id with
  | none =>
    have hcomputes := job.model.topology.computesOf_append_software done hid
    have hsame := job.model.topology.scriptsOn_append_unplaced done hc
    rw [hc] at hs
    subst hs
    refine ⟨hcomputes ▸ h.keys, h.machines, ?_, ?_⟩
    · simp only [hcomputes, hsame]
      exact h.scripts
    · simp only [hsame]
      exact h.complete
  | some c =>
    rw [hc] at hs
    obtain ⟨hmachines, hscripts⟩ := hs
    have hroom := h.room (Topology.mem_done_of_placed? ht horder hc)
    exact hroom.append hid hc (OrderedMap.mem_keys_insertNew.mpr (.inl rfl)) hmachines hscripts

end Visit

theorem scriptsFor_of_visit (ht : job.model.topology.Built) {w : σ} {s' : Assembly State × σ}
    (h : Yields ((visitor job).visitComponents job.model.topology) ({ built := {} }, w) () s') :
    ∃ order, job.model.topology.hostingOrder = .ok order ∧ ScriptsFor job order s'.1.built := by
  refine Visitor.exists_order_of_hosts (p := ScriptsFor job) rfl ht handles_addCompute
    (fun id hid => handles_addSoftware hid) ?_
    (fun done id rest s s' horder hid hs hr => hs.compute ht horder hid hr)
    (fun done id rest s s' horder hid hs hr => hs.software ht horder hid hr) h
  exact ⟨rfl, fun e he => absurd he List.not_mem_nil, fun e he => absurd he List.not_mem_nil,
    fun c hc => absurd rfl hc⟩

/-! ### The template -/

theorem Template.resources_add (t : Template) (tree : ResourceTree) :
    (t.add tree).resources = t.resources ++ tree.flatten := by
  have hrequire (needed : List (String × Requirement)) (t : Template) :
      (needed.foldl Template.require t).resources = t.resources := by
    induction needed generalizing t with
    | nil => rfl
    | cons n rest ih =>
      rw [List.foldl_cons, ih]
      unfold Template.require
      split <;> rfl
  show (tree.requirements.toList.foldl Template.require t).resources ++ _ = _
  rw [hrequire]

theorem Template.resources_ofTrees (trees : List ResourceTree) :
    (Template.ofTrees trees).resources = trees.flatMap ResourceTree.flatten := by
  have hfold (t : Template) : (trees.foldl Template.add t).resources =
      t.resources ++ trees.flatMap ResourceTree.flatten := by
    induction trees generalizing t with
    | nil => simp
    | cons tree rest ih =>
      rw [List.foldl_cons, ih, Template.resources_add, List.append_assoc, List.flatMap_cons]
  exact hfold {}

/-- A machine comes behind its interface, and that one behind its group and its address. -/
theorem flatten_virtualMachine (name interface : String) (network group address : Resource)
    (profile : Profile) (publicKey : Option String) :
    (virtualMachine name (networkInterface interface network group address) profile
      publicKey).flatten =
      [group, address, (networkInterface interface network group address).value,
        (virtualMachine name (networkInterface interface network group address) profile
          publicKey).value] := by
  have hflatten : ∀ tree : ResourceTree, tree.parts = [.node group [], .node address []] →
      (virtualMachine name tree profile publicKey).flatten =
        [group, address, tree.value, (virtualMachine name tree profile publicKey).value] := by
    rintro ⟨interface, parts⟩ rfl
    rfl
  exact hflatten _ rfl

/-- A machine owns no extension. -/
theorem filter_flatten_machine {c : ComponentId} {component : Component} {tree : ResourceTree}
    (h : machine job c component = .ok tree) : tree.flatten.filter isExtension = [] := by
  obtain ⟨key, _, h⟩ := bind_eq_ok.mp h
  obtain ⟨ports, _, h⟩ := bind_eq_ok.mp h
  cases h
  rw [flatten_virtualMachine]
  rfl

theorem machineFor_eq {c : ComponentId} {tree : ResourceTree}
    (h : machine job c (job.model.topology.component c) = .ok tree) :
    machineFor job c = tree.value := by
  rw [machineFor, h]

section Template
variable {order : List ComponentId} {s : State}

/-- The extensions are those of the computes that have scripts. -/
theorem extension?_eq (h : ScriptsFor job order s) {e : ComponentId × List ScriptStep}
    (he : e ∈ s.scripts.toList) :
    extension? s e =
      if job.model.topology.scriptsOn order e.1 = [] then none
      else some (.node
        (extensionFor job e.1 (job.model.topology.scriptsOn order e.1)) []) := by
  obtain ⟨hmem, hsteps⟩ := h.scripts e he
  rw [← h.keys] at hmem
  obtain ⟨tree, htree⟩ := OrderedMap.mem_keys.mp hmem
  have hmachine := machineFor_eq (h.machines _ htree)
  unfold extension? extensionFor
  rw [OrderedMap.get?_eq_some.mpr htree, hsteps, hmachine]
  cases job.model.topology.scriptsOn order e.1 with
  | nil => rfl
  | cons first rest => rfl

theorem filter_flatMap_machines (h : ScriptsFor job order s) :
    (s.machines.values.flatMap ResourceTree.flatten).filter isExtension = [] := by
  rw [List.filter_flatMap]
  refine List.flatMap_eq_nil_iff.mpr fun tree htree => ?_
  obtain ⟨c, hc⟩ := OrderedMap.mem_values.mp htree
  exact filter_flatten_machine (h.machines _ hc)

/-- The extensions among resource trees are in the order in which their computes got scripts. -/
theorem filter_flatMap_extensions (h : ScriptsFor job order s) :
    ((s.scripts.toList.filterMap (extension? s)).flatMap ResourceTree.flatten).filter isExtension =
      (s.scripts.keys.filter fun c => job.model.topology.scriptsOn order c ≠ []).map fun c =>
        extensionFor job c (job.model.topology.scriptsOn order c) := by
  have hlist : ∀ l : List (ComponentId × List ScriptStep), (∀ e ∈ l, e ∈ s.scripts.toList) →
      ((l.filterMap (extension? s)).flatMap ResourceTree.flatten).filter isExtension =
        ((l.map Prod.fst).filter fun c => job.model.topology.scriptsOn order c ≠ []).map fun c =>
          extensionFor job c (job.model.topology.scriptsOn order c) := by
    intro l hl
    induction l with
    | nil => rfl
    | cons e rest ih =>
      obtain ⟨he, hrest⟩ := List.forall_mem_cons.mp hl
      rw [List.filterMap_cons, extension?_eq h he, List.map_cons, List.filter_cons]
      by_cases hnone : job.model.topology.scriptsOn order e.1 = []
      · simp only [hnone, if_true, ne_eq, not_true_eq_false, decide_false, Bool.false_eq_true,
          if_false]
        exact ih hrest
      · simp only [hnone, if_false, ne_eq, not_false_eq_true, decide_true, if_true,
          List.map_cons, List.flatMap_cons, List.filter_append, ih hrest]
        rfl
  exact hlist _ fun e he => he

theorem ScriptsFor.computesOf_eq_nil (h : ScriptsFor job order s)
    (hempty : s.machines.isEmpty = true) : job.model.topology.computesOf order = [] := by
  rw [← h.keys]
  exact List.map_eq_nil_iff.mpr (List.isEmpty_iff.mp hempty)

theorem filter_resources (h : ScriptsFor job order s) :
    (template job.model s).resources.filter isExtension =
      (s.scripts.keys.filter fun c => job.model.topology.scriptsOn order c ≠ []).map fun c =>
        extensionFor job c (job.model.topology.scriptsOn order c) := by
  unfold template
  split
  case isTrue hempty =>
    have hcomputes := h.computesOf_eq_nil hempty
    have hkeys : s.scripts.keys = [] := by
      refine List.eq_nil_iff_forall_not_mem.mpr fun c hc => ?_
      obtain ⟨steps, hsteps⟩ := OrderedMap.mem_keys.mp hc
      have hmem := (h.scripts _ hsteps).1
      rw [hcomputes] at hmem
      exact absurd hmem List.not_mem_nil
    rw [hkeys]
    rfl
  case isFalse =>
    rw [Template.resources_ofTrees, List.flatMap_append, List.flatMap_append, List.filter_append,
      List.filter_append, filter_flatMap_machines h, filter_flatMap_extensions h]
    rfl

/-- Exactly the computes that have scripts have an extension, each of them one. -/
theorem extensions_perm (h : ScriptsFor job order s) (ht : job.model.topology.Built)
    (horder : job.model.topology.hostingOrder = .ok order) :
    ((template job.model s).resources.filter isExtension).Perm
      (((job.model.topology.computesOf order).filter fun c =>
        job.model.topology.scriptsOn order c ≠ []).map fun c =>
          extensionFor job c (job.model.topology.scriptsOn order c)) := by
  rw [filter_resources h]
  refine List.Perm.map _ ((List.perm_ext_iff_of_nodup ?_ ?_).mpr fun c => ?_)
  · exact s.scripts.nodup.filter _
  · exact ((Topology.hostingOrder_nodup ht horder).filter _).filter _
  · rw [List.mem_filter, List.mem_filter]
    refine and_congr_left fun hsome => ⟨fun hc => ?_, fun _ => ?_⟩
    · obtain ⟨steps, hsteps⟩ := OrderedMap.mem_keys.mp hc
      exact (h.scripts _ hsteps).1
    · exact h.complete c (of_decide_eq_true hsome)

theorem value_mem_flatten (tree : ResourceTree) : tree.value ∈ tree.flatten := by
  obtain ⟨r, parts⟩ := tree
  exact List.mem_append_right _ List.mem_cons_self

/-- The machine of a compute is in the template with all that it owns. -/
theorem exists_machine_of_mem (h : ScriptsFor job order s) {c : ComponentId}
    (hc : c ∈ job.model.topology.computesOf order) :
    ∃ tree, machine job c (job.model.topology.component c) = .ok tree ∧
      ∀ r ∈ tree.flatten, r ∈ (template job.model s).resources := by
  rw [← h.keys] at hc
  obtain ⟨tree, htree⟩ := OrderedMap.mem_keys.mp hc
  refine ⟨tree, h.machines _ htree, fun r hr => ?_⟩
  have hsome : s.machines.isEmpty = false := by
    cases hempty : s.machines.isEmpty with
    | false => rfl
    | true =>
      rw [OrderedMap.toList, List.isEmpty_iff.mp hempty] at htree
      exact absurd htree List.not_mem_nil
  rw [template, hsome, if_neg Bool.false_ne_true, Template.resources_ofTrees]
  refine List.mem_flatMap.mpr ⟨tree, ?_, hr⟩
  exact List.mem_append_left _ (List.mem_append_right _ (OrderedMap.mem_values.mpr ⟨c, htree⟩))

/-- The machines of the computes are in the template. -/
theorem machineFor_mem (h : ScriptsFor job order s) {c : ComponentId}
    (hc : c ∈ job.model.topology.computesOf order) :
    (∃ tree, machine job c (job.model.topology.component c) = .ok tree) ∧
      machineFor job c ∈ (template job.model s).resources := by
  obtain ⟨tree, hmachine, hall⟩ := exists_machine_of_mem h hc
  rw [machineFor_eq hmachine]
  exact ⟨⟨tree, hmachine⟩, hall _ (value_mem_flatten tree)⟩

end Template

/-- A template has an extension for each compute that has scripts, with all of them in order,
on a machine of the template. It has no other extensions. -/
structure ExtensionsFor (job : Job (StateM σ)) (order : List ComponentId) (t : Template) :
    Prop where
  extensions : (t.resources.filter isExtension).Perm
    (((job.model.topology.computesOf order).filter fun c =>
      job.model.topology.scriptsOn order c ≠ []).map fun c =>
        extensionFor job c (job.model.topology.scriptsOn order c))
  machines : ∀ c ∈ job.model.topology.computesOf order,
    (∃ tree, machine job c (job.model.topology.component c) = .ok tree) ∧
      machineFor job c ∈ t.resources

/-- **Each script becomes one command and one file of the extension on the machine of the
compute that it runs on.** A run that succeeds writes a template with exactly these extensions. -/
theorem extensionsFor_of_run (ht : job.model.topology.Built) {w w' : σ} {p : Progress}
    (h : ((lifecycle job).run .idle).run w = ((.ok (), p), w')) :
    ∃ order template, job.model.topology.hostingOrder = .ok order ∧
      ExtensionsFor job order template ∧
      job.Delivers [(templateFile job.model, template.toJson.pretty)] w' := by
  obtain ⟨s, visited, w₁, w₂, w₃, hvisit, hwrite, hrelease⟩ := Job.exists_visit_of_run h
  obtain ⟨order, horder, hscripts⟩ := scriptsFor_of_visit ht hvisit
  exact ⟨order, template job.model s, horder,
    ⟨extensions_perm hscripts ht horder, fun c hc => machineFor_mem hscripts hc⟩,
    Job.delivers_of_write hwrite hrelease⟩

end Provision.Azure
