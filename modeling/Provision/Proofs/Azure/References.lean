import Provision.Proofs.Placement

/-! The references of an Azure template.

A resource refers to others by their ids: it depends on some, and its properties name some.
Going through the resources of a template, everything that a resource depends on is already
behind it: a machine follows what it owns, all machines follow the network, and the
extensions follow the machines that they are for. What the properties name is owned by the
resource or by one that it owns, so it is in the template as well. -/
namespace Provision.Azure
open Build

/-! ### Ids in expressions -/

namespace Expression

mutual

/-- The ids of resources in an expression. -/
def resourceIds : Expression → List Expression
  | .call function arguments =>
    (if function = "resourceId" then [.call function arguments] else []) ++
      resourceIdsOfAll arguments
  | _ => []

def resourceIdsOfAll : List Expression → List Expression
  | [] => []
  | e :: rest => e.resourceIds ++ resourceIdsOfAll rest

end

end Expression

/-- The ids of other resources in the properties of a resource. -/
def Resource.references (r : Resource) : List Term :=
  (r.properties.expressions.flatMap Expression.resourceIds).map .expression

/-! ### Resources in order -/

/-- Whatever a resource depends on is known, or comes before it in the list. -/
def InOrder (known : List Resource) : List Resource → Prop
  | [] => True
  | r :: rest => (∀ d ∈ r.dependsOn, ∃ s ∈ known, s.id = d) ∧ InOrder (r :: known) rest

namespace InOrder

variable {known known' l l' : List Resource}

theorem mono (h : InOrder known l) (hknown : known ⊆ known') : InOrder known' l := by
  induction l generalizing known known' with
  | nil => trivial
  | cons r rest ih =>
    obtain ⟨hr, hrest⟩ := h
    refine ⟨fun d hd => ?_, ih hrest (List.cons_subset_cons r hknown)⟩
    obtain ⟨s, hs, hid⟩ := hr d hd
    exact ⟨s, hknown hs, hid⟩

/-- What comes first is known to what follows. -/
theorem append (h : InOrder known l) (h' : InOrder (l ++ known) l') :
    InOrder known (l ++ l') := by
  induction l generalizing known with
  | nil => exact h'
  | cons r rest ih =>
    refine ⟨h.1, ih h.2 (h'.mono fun s hs => ?_)⟩
    simp only [List.mem_append, List.mem_cons] at hs ⊢
    tauto

/-- Lists that do not need each other can follow one another. -/
theorem flatMap {α : Type} {parts : List α} {f : α → List Resource}
    (h : ∀ part ∈ parts, InOrder known (f part)) : InOrder known (parts.flatMap f) := by
  induction parts generalizing known with
  | nil => trivial
  | cons part rest ih =>
    obtain ⟨hpart, hrest⟩ := List.forall_mem_cons.mp h
    rw [List.flatMap_cons]
    exact hpart.append (ih fun p hp => (hrest p hp).mono (List.subset_append_right _ _))

/-- A dependency stands at an earlier place. -/
theorem exists_before (h : InOrder known l) {i : Nat} {r : Resource} (hr : l[i]? = some r)
    {d : Term} (hd : d ∈ r.dependsOn) :
    (∃ s ∈ known, s.id = d) ∨ ∃ j < i, ∃ s, l[j]? = some s ∧ s.id = d := by
  induction l generalizing known i with
  | nil => simp at hr
  | cons first rest ih =>
    cases i with
    | zero =>
      cases hr
      exact .inl (h.1 d hd)
    | succ i =>
      rcases ih h.2 hr with ⟨s, hs, hid⟩ | ⟨j, hj, s, hs, hid⟩
      · rcases List.mem_cons.mp hs with rfl | hs
        · exact .inr ⟨0, Nat.succ_pos i, s, rfl, hid⟩
        · exact .inl ⟨s, hs, hid⟩
      · exact .inr ⟨j + 1, Nat.succ_lt_succ hj, s, hs, hid⟩

end InOrder

/-! ### Resources that refer to others -/

theorem expressionsOfItems_eq (items : List Content) :
    Content.expressionsOfItems items = items.flatMap Content.expressions := by
  induction items with
  | nil => rfl
  | cons c rest ih => rw [Content.expressionsOfItems, ih, List.flatMap_cons]

/-- Rules have no expressions. -/
theorem expressions_securityGroup (name : String) (ports : List UInt16) :
    (securityGroup name ports).properties.expressions = [] := by
  have hrules {rule : UInt16 × Nat → Content} (hrule : ∀ p, (rule p).expressions = []) :
      Content.expressionsOfItems ((openPorts ports).zipIdx.map rule) = [] := by
    rw [expressionsOfItems_eq, List.flatMap_map]
    exact List.flatMap_eq_nil_iff.mpr fun p _ => hrule p
  show Content.expressionsOfItems _ ++ [] = []
  rw [hrules fun _ => rfl]
  rfl

theorem references_securityGroup (name : String) (ports : List UInt16) :
    (securityGroup name ports).references = [] := by
  rw [Resource.references, expressions_securityGroup]
  rfl

/-- Files are loaded from the place that a parameter gives. -/
theorem expressions_scriptExtension (machine : Resource) (files : List String)
    (command : String) :
    (scriptExtension machine files command).properties.expressions = files.map scriptLocation := by
  have hfiles : Content.expressionsOfItems (files.map fun f => .expression (scriptLocation f)) =
      files.map scriptLocation := by
    rw [expressionsOfItems_eq, List.flatMap_map]
    exact List.flatMap_pure_eq_map scriptLocation files
  show (Content.expressionsOfItems _ ++ []) ++ [] = _
  rw [List.append_nil, List.append_nil, hfiles]

theorem references_scriptExtension (machine : Resource) (files : List String)
    (command : String) : (scriptExtension machine files command).references = [] := by
  have hfiles : (files.map scriptLocation).flatMap Expression.resourceIds = [] := by
    rw [List.flatMap_map]
    exact List.flatMap_eq_nil_iff.mpr fun file _ => rfl
  rw [Resource.references, expressions_scriptExtension, hfiles]
  rfl

theorem references_networkInterface (name group address : String) (ports : List UInt16)
    (network : Resource) :
    (networkInterface name network (securityGroup group ports)
      (publicAddress address)).value.references =
        [(publicAddress address).id, (securityGroup group ports).id] := rfl

theorem references_virtualMachine (name interface : String) (network group address : Resource)
    (profile : Profile) (publicKey : Option String) :
    (virtualMachine name (networkInterface interface network group address) profile
      publicKey).value.references =
        [(networkInterface interface network group address).value.id] := rfl

/-! ### The resources of a machine -/

section Machine
variable {c : ComponentId} {component : Component} {tree : ResourceTree}
variable {σ : Type} {job : Job (StateM σ)}

/-- A machine owns a network interface, and that one a group and an address. -/
theorem exists_eq_of_machine (h : machine job c component = .ok tree) :
    ∃ ports publicKey, component.publicKey = .ok publicKey ∧
      tree = virtualMachine (machineName component)
        (networkInterface (machineName component ++ "-nic") (network job.model)
          (securityGroup (machineName component ++ "-nsg") ports)
          (publicAddress (machineName component ++ "-ip"))) (profile job.settings) publicKey := by
  obtain ⟨publicKey, hkey, h⟩ := bind_eq_ok.mp h
  obtain ⟨ports, _, h⟩ := bind_eq_ok.mp h
  cases h
  exact ⟨ports, publicKey, hkey, rfl⟩

theorem name_machine (h : machine job c component = .ok tree) :
    tree.value.name = .text (machineName component) := by
  obtain ⟨ports, publicKey, _, rfl⟩ := exists_eq_of_machine h
  rfl

theorem inOrder_machine (h : machine job c component = .ok tree) :
    InOrder [network job.model] tree.flatten := by
  obtain ⟨ports, publicKey, _, rfl⟩ := exists_eq_of_machine h
  show InOrder _ [_, _, _, _]
  simp [InOrder, networkInterface, securityGroup, publicAddress, Resource.start,
    Resource.requiring, Composite.value]

/-- The machine refers to its interface, and that one to its address and its group. -/
theorem exists_of_references_machine (h : machine job c component = .ok tree) {r : Resource}
    (hr : r ∈ tree.flatten) {d : Term} (hd : d ∈ r.references) : ∃ s ∈ tree.flatten, s.id = d := by
  obtain ⟨ports, publicKey, _, rfl⟩ := exists_eq_of_machine h
  rw [flatten_virtualMachine] at hr ⊢
  simp only [List.mem_cons, List.not_mem_nil, or_false] at hr
  rcases hr with rfl | rfl | rfl | rfl
  · rw [references_securityGroup] at hd
    cases hd
  · cases hd
  · rw [references_networkInterface] at hd
    rcases List.mem_pair.mp hd with rfl | rfl
    · exact ⟨publicAddress _, by simp, rfl⟩
    · exact ⟨securityGroup _ _, by simp, rfl⟩
  · rw [references_virtualMachine] at hd
    cases List.mem_singleton.mp hd
    exact ⟨_, List.mem_of_getElem? (i := 2) rfl, rfl⟩

end Machine

/-! ### The template -/

/-- What a resource depends on stands before it, and what its properties refer to is there. -/
structure Template.Linked (t : Template) : Prop where
  ordered : ∀ (i : Nat) (r : Resource), t.resources[i]? = some r → ∀ d ∈ r.dependsOn,
    ∃ j < i, ∃ s : Resource, t.resources[j]? = some s ∧ s.id = d
  closed : ∀ r ∈ t.resources, ∀ d ∈ r.references, ∃ s ∈ t.resources, s.id = d

section Template
variable {σ : Type} {job : Job (StateM σ)} {order : List ComponentId} {s : State}

theorem exists_of_mem_values (h : ScriptsFor job order s) {tree : ResourceTree}
    (htree : tree ∈ s.machines.values) : ∃ c component, machine job c component = .ok tree := by
  obtain ⟨c, hc⟩ := OrderedMap.mem_values.mp htree
  exact ⟨c, _, h.machines _ hc⟩

/-- An extension is for one of the machines. -/
theorem exists_eq_of_extension? {e : ComponentId × List ScriptStep} {tree : ResourceTree}
    (h : extension? s e = some tree) : ∃ machine ∈ s.machines.values, ∃ files command,
      tree = .node (scriptExtension machine.value files command) [] := by
  unfold extension? at h
  split at h
  case h_1 machine step rest hmachine _ =>
    cases h
    exact ⟨machine, OrderedMap.mem_values.mpr ⟨e.1, OrderedMap.get?_eq_some.mp hmachine⟩,
      _, _, rfl⟩
  case h_2 => cases h

theorem resources_template_empty (hempty : s.machines.isEmpty = true) :
    (template job.model s).resources = [] := by
  rw [template, if_pos hempty]
  rfl

theorem resources_template (hsome : s.machines.isEmpty = false) :
    (template job.model s).resources = [network job.model] ++
      (s.machines.values.flatMap ResourceTree.flatten ++
        (s.scripts.toList.filterMap (extension? s)).flatMap ResourceTree.flatten) := by
  rw [template, hsome, if_neg Bool.false_ne_true, Template.resources_ofTrees, List.flatMap_append,
    List.flatMap_append, List.append_assoc]
  rfl

theorem inOrder_template (h : ScriptsFor job order s) (hsome : s.machines.isEmpty = false) :
    InOrder [] (template job.model s).resources := by
  rw [resources_template hsome]
  refine InOrder.append ⟨fun d hd => absurd hd List.not_mem_nil, trivial⟩ (.append ?_ ?_)
  · refine .flatMap fun tree htree => ?_
    obtain ⟨c, component, hmachine⟩ := exists_of_mem_values h htree
    exact inOrder_machine hmachine
  · refine .flatMap fun tree htree => ?_
    obtain ⟨e, _, he⟩ := List.mem_filterMap.mp htree
    obtain ⟨machine, hmem, files, command, rfl⟩ := exists_eq_of_extension? he
    refine ⟨fun d hd => ⟨machine.value, ?_, ?_⟩, trivial⟩
    · exact List.mem_append_left _ (List.mem_flatMap.mpr ⟨machine, hmem, value_mem_flatten machine⟩)
    · exact (List.mem_singleton.mp hd).symm

/-- A resource is the network, belongs to a machine, or is an extension of a machine. -/
theorem cases_of_mem_template (h : ScriptsFor job order s) (hsome : s.machines.isEmpty = false)
    {r : Resource} (hr : r ∈ (template job.model s).resources) :
    r = network job.model ∨
      (∃ tree ∈ s.machines.values, ∃ c component, machine job c component = .ok tree ∧
        r ∈ tree.flatten) ∨
      ∃ tree ∈ s.machines.values, ∃ c component, machine job c component = .ok tree ∧
        ∃ files command, r = scriptExtension tree.value files command := by
  rw [resources_template hsome, List.mem_append, List.mem_append] at hr
  rcases hr with hr | hr | hr
  · exact .inl (List.mem_singleton.mp hr)
  · obtain ⟨tree, htree, hr⟩ := List.mem_flatMap.mp hr
    obtain ⟨c, component, hmachine⟩ := exists_of_mem_values h htree
    exact .inr (.inl ⟨tree, htree, c, component, hmachine, hr⟩)
  · obtain ⟨extension, hextension, hr⟩ := List.mem_flatMap.mp hr
    obtain ⟨e, _, he⟩ := List.mem_filterMap.mp hextension
    obtain ⟨tree, htree, files, command, rfl⟩ := exists_eq_of_extension? he
    obtain ⟨c, component, hmachine⟩ := exists_of_mem_values h htree
    exact .inr (.inr ⟨tree, htree, c, component, hmachine, files, command,
      List.mem_singleton.mp hr⟩)

theorem exists_of_references (h : ScriptsFor job order s) (hsome : s.machines.isEmpty = false)
    {r : Resource} (hr : r ∈ (template job.model s).resources) {d : Term}
    (hd : d ∈ r.references) : ∃ s' ∈ (template job.model s).resources, s'.id = d := by
  rcases cases_of_mem_template h hsome hr with
    rfl | ⟨tree, htree, c, component, hmachine, hr⟩ | ⟨tree, _, _, _, _, files, command, rfl⟩
  · cases hd
  · obtain ⟨s', hs', hid⟩ := exists_of_references_machine hmachine hr hd
    refine ⟨s', ?_, hid⟩
    rw [resources_template hsome]
    exact List.mem_append_right _ (List.mem_append_left _ (List.mem_flatMap.mpr ⟨tree, htree, hs'⟩))
  · rw [references_scriptExtension] at hd
    cases hd

theorem linked_template (h : ScriptsFor job order s) : (template job.model s).Linked := by
  cases hsome : s.machines.isEmpty with
  | true =>
    have hnone : (template job.model s).resources = [] := resources_template_empty hsome
    refine ⟨fun i r hr => ?_, fun r hr => ?_⟩
    · simp [hnone] at hr
    · simp [hnone] at hr
  | false =>
    refine ⟨fun i r hr d hd => ?_, fun r hr d hd => exists_of_references h hsome hr hd⟩
    rcases (inOrder_template h hsome).exists_before hr hd with ⟨s', hs', _⟩ | hbefore
    · exact absurd hs' List.not_mem_nil
    · exact hbefore

end Template

/-- **A template can be deployed from front to back, and no reference in it dangles.** A run
that succeeds writes such a template, with the machines of all computes. -/
theorem linked_of_run {σ : Type} {job : Job (StateM σ)} {name : String} {g : EntityGraph}
    (hbuild : Model.build name g = .ok job.model) {w w' : σ} {p : Progress}
    (h : ((lifecycle job).run .idle).run w = ((.ok (), p), w')) :
    ∃ order s, job.model.topology.hostingOrder = .ok order ∧ ScriptsFor job order s ∧
      (template job.model s).Linked ∧
      job.Delivers [(templateFile job.model, (template job.model s).toJson.pretty)] w' := by
  obtain ⟨s, visited, w₁, w₂, w₃, hvisit, hwrite, hrelease⟩ := Job.exists_visit_of_run h
  obtain ⟨order, horder, hscripts⟩ := scriptsFor_of_visit (Model.built_of_build hbuild) hvisit
  exact ⟨order, s, horder, hscripts, linked_template hscripts,
    Job.delivers_of_write hwrite hrelease⟩

theorem linked_of_run_web : ∃ g model order s w', EntityGraph.ofValue true webDocument = .ok g ∧
    Model.build "web" g = .ok model ∧ model.topology.hostingOrder = .ok order ∧
    ScriptsFor (webJob model) order s ∧ (template model s).Linked ∧
    (webJob model).Delivers [(templateFile model, (template model s).toJson.pretty)] w' := by
  have hweb : (((EntityGraph.ofValue true webDocument).mapError (.unreadableModel "web.yaml") >>=
      Model.build "web").map (succeeds lifecycle)) = .ok true := by
    decide +kernel
  obtain ⟨model, hm, hazure⟩ := map_eq_ok.mp hweb
  obtain ⟨g, hg, hbuild⟩ := bind_eq_ok.mp hm
  obtain ⟨p, w', hrun⟩ := run_of_succeeds hazure
  have hjob : Model.build "web" g = .ok (webJob model).model := hbuild
  obtain ⟨order, s, horder, hscripts, hlinked, hdelivers⟩ := linked_of_run hjob hrun
  exact ⟨g, model, order, s, w', mapError_eq_ok.mp hg, hbuild, horder, hscripts, hlinked,
    hdelivers⟩

end Provision.Azure
