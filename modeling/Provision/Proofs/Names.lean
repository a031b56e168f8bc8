import Provision.Proofs.Ansible.Tasks
import Provision.Proofs.Azure.Names
import Provision.Proofs.Heat.Deployments
import Provision.Proofs.Kubernetes.Environments

/-! The names of machines.

A name of the model is reduced to an identifier before a backend uses it, so two computes
may end up with one. The graphs of two backends take no name twice, and their runs fail
then. The other two backends tell computes apart by their numbers. What they write names
two machines the same exactly if two computes have the same identifier. -/
namespace Provision
open Yaml (Value)

variable {σ : Type} {job : Job (StateM σ)}

namespace Topology

/-- The identifiers of the computes among some components. -/
def identifiers (t : Topology) (l : List ComponentId) : List String :=
  (t.computesOf l).map fun c => (t.component c).identifier

/-- No two computes have the same identifier. -/
def IdentifiersDistinct (t : Topology) : Prop :=
  ∀ c < t.size, ∀ c' < t.size, (t.component c).isA .compute = true →
    (t.component c').isA .compute = true →
      (t.component c).identifier = (t.component c').identifier → c = c'

variable {t : Topology} {order l : List ComponentId}

theorem nodup_identifiers (ht : t.Built) (horder : t.hostingOrder = .ok order) :
    (t.identifiers order).Nodup ↔ t.IdentifiersDistinct := by
  have hmem {c : ComponentId} :
      c ∈ t.computesOf order ↔ c < t.size ∧ (t.component c).isA .compute = true := by
    rw [computesOf, List.mem_filter, (hostingOrder_perm ht horder).mem_iff, mem_ids]
  have hnodup : (t.computesOf order).Nodup := (hostingOrder_nodup ht horder).filter _
  rw [identifiers, List.nodup_map_iff_inj_on hnodup]
  constructor
  · intro hinj c hc c' hc' hcompute hcompute'
    exact hinj c (hmem.mpr ⟨hc, hcompute⟩) c' (hmem.mpr ⟨hc', hcompute'⟩)
  · intro hdistinct c hc c' hc'
    obtain ⟨hlt, hcompute⟩ := hmem.mp hc
    obtain ⟨hlt', hcompute'⟩ := hmem.mp hc'
    exact hdistinct c hlt c' hlt' hcompute hcompute'

/-- Hyphens for underscores make no two identifiers the same. -/
theorem nodup_map_swap :
    ((t.identifiers l).map (Text.swap '_' '-')).Nodup ↔ (t.identifiers l).Nodup := by
  have hback : ∀ name ∈ t.identifiers l, Text.swap '-' '_' (Text.swap '_' '-' name) = name := by
    intro name hname
    obtain ⟨c, _, rfl⟩ := List.mem_map.mp hname
    exact Text.swap_swap (Text.notMem_identifier rfl _)
  refine ⟨List.Nodup.of_map _, fun hnodup => hnodup.map_on fun name hname name' hname' heq => ?_⟩
  rw [← hback name hname, heq, hback name' hname']

end Topology

namespace Heat

/-- The names of the servers of a template. -/
def serverNames (template : Template) : List String :=
  (template.graph.nodes.toList.filter isServer).map Resource.name

/-- A run that succeeds lists each resource under a name of its own, and the servers under the
identifiers of their computes. -/
theorem names_of_run (ht : job.model.topology.Built) {w w' : σ} {p : Progress}
    (h : ((lifecycle job).run .idle).run w = ((.ok (), p), w')) :
    ∃ order template, job.model.topology.hostingOrder = .ok order ∧
      job.Delivers [(templateFile job.model, Yaml.write template.toJson)] w' ∧
      serverNames template = job.model.topology.identifiers order ∧
      template.resources.keys = template.graph.names ∧ template.graph.names.Nodup := by
  obtain ⟨order, template, horder, hfor, hdelivers⟩ := deploymentsFor_of_run ht h
  refine ⟨order, template, horder, hdelivers, hfor.servers, ?_, hfor.unique⟩
  rw [OrderedMap.keys, ← OrderedMap.toList, hfor.listed, List.map_map,
    ← OutputGraph.map_name_zipIdx]
  rfl

theorem nodup_serverNames {template : Template} (h : template.graph.names.Nodup) :
    (serverNames template).Nodup :=
  h.sublist (List.filter_sublist.map _)

end Heat

namespace Kubernetes

/-- A run that succeeds makes a stack of its own name for each compute. -/
theorem names_of_run (ht : job.model.topology.Built) {w w' : σ} {p : Progress}
    (h : ((lifecycle job).run .idle).run w = ((.ok (), p), w')) :
    ∃ order graph, job.model.topology.hostingOrder = .ok order ∧
      job.Delivers (files graph) w' ∧
      graph.names = (job.model.topology.identifiers order).map Stack.label ∧
      graph.names.Nodup := by
  obtain ⟨s, visited, w₁, w₂, w₃, hvisit, hwrite, hrelease⟩ := Job.exists_visit_of_run h
  obtain ⟨order, horder, hfinished⟩ := finished_of_visit ht hvisit
  refine ⟨order, s.graph, horder, ⟨w₂, w₃, hwrite, hrelease⟩, ?_, hfinished.distinct⟩
  rw [Topology.identifiers, List.map_map]
  exact (map_eq_of_forall₂ hfinished.each fun _ _ hstack => hstack.name.symm).symm

end Kubernetes

namespace Ansible

/-- A run that succeeds makes a play for each compute, on the hosts of its identifier. -/
theorem names_of_run (ht : job.model.topology.Built) {w w' : σ} {p : Progress}
    (h : ((lifecycle job).run .idle).run w = ((.ok (), p), w')) :
    ∃ order plays, job.model.topology.hostingOrder = .ok order ∧
      job.Delivers [(playbookFile, Yaml.write (playbook plays))] w' ∧
      plays.values.map Play.hosts = job.model.topology.identifiers order := by
  obtain ⟨order, plays, horder, hplays, hdelivers⟩ := playsFor_of_run ht h
  refine ⟨order, plays, horder, hdelivers, ?_⟩
  rw [OrderedMap.values_eq_map, hplays, playsFor, List.map_map, List.map_map]
  rfl

end Ansible

namespace Azure

/-- A run that succeeds makes a machine for each compute, and no two resources of the template
have the same type and name exactly if no two machines have the same name. -/
theorem names_of_run (ht : job.model.topology.Built) {w w' : σ} {p : Progress}
    (h : ((lifecycle job).run .idle).run w = ((.ok (), p), w')) :
    ∃ order, ∃ template : Template, job.model.topology.hostingOrder = .ok order ∧
      job.Delivers [(templateFile job.model, template.toJson.pretty)] w' ∧
      machinesIn template.keys =
        (job.model.topology.identifiers order).map (Text.swap '_' '-') ∧
      (template.keys.Nodup ↔ (machinesIn template.keys).Nodup) := by
  obtain ⟨s, visited, w₁, w₂, w₃, hvisit, hwrite, hrelease⟩ := Job.exists_visit_of_run h
  obtain ⟨order, horder, hscripts⟩ := scriptsFor_of_visit ht hvisit
  have hnames : machineNames job.model.topology (job.model.topology.computesOf order) =
      (job.model.topology.identifiers order).map (Text.swap '_' '-') := by
    rw [Topology.identifiers, List.map_map]
    rfl
  obtain ⟨hmachines, hkeys⟩ := names_template hscripts
  rw [← hmachines] at hkeys
  exact ⟨order, template job.model s, horder, Job.delivers_of_write hwrite hrelease,
    hmachines.trans hnames, hkeys⟩

end Azure

/-- **Two backends refuse two machines of one name, the other two write both.** What a run that
succeeds writes names a machine for each compute. The names come from the identifiers of the
computes. If two of these are the same, no template for Heat and no stacks are written. A playbook
and a template for Azure are, and the names in them are distinct exactly if the identifiers are. -/
theorem names_distinct {name : String} {g : EntityGraph}
    (hbuild : Model.build name g = .ok job.model) :
    (∀ w w' p, ((Heat.lifecycle job).run .idle).run w = ((.ok (), p), w') →
      job.model.topology.IdentifiersDistinct ∧
      ∃ order template, job.model.topology.hostingOrder = .ok order ∧
        job.Delivers [(Heat.templateFile job.model, Yaml.write template.toJson)] w' ∧
        Heat.serverNames template = job.model.topology.identifiers order ∧
        (Heat.serverNames template).Nodup ∧
        template.resources.keys = template.graph.names ∧ template.graph.names.Nodup) ∧
    (∀ w w' p, ((Kubernetes.lifecycle job).run .idle).run w = ((.ok (), p), w') →
      job.model.topology.IdentifiersDistinct ∧
      ∃ order graph, job.model.topology.hostingOrder = .ok order ∧
        job.Delivers (Kubernetes.files graph) w' ∧
        graph.names = (job.model.topology.identifiers order).map Kubernetes.Stack.label ∧
        graph.names.Nodup) ∧
    (∀ w w' p, ((Ansible.lifecycle job).run .idle).run w = ((.ok (), p), w') →
      ∃ order plays, job.model.topology.hostingOrder = .ok order ∧
        job.Delivers [(Ansible.playbookFile, Yaml.write (Ansible.playbook plays))] w' ∧
        plays.values.map Ansible.Play.hosts = job.model.topology.identifiers order ∧
        ((plays.values.map Ansible.Play.hosts).Nodup ↔
          job.model.topology.IdentifiersDistinct)) ∧
    (∀ w w' p, ((Azure.lifecycle job).run .idle).run w = ((.ok (), p), w') →
      ∃ order, ∃ template : Azure.Template, job.model.topology.hostingOrder = .ok order ∧
        job.Delivers [(Azure.templateFile job.model, template.toJson.pretty)] w' ∧
        Azure.machinesIn template.keys =
          (job.model.topology.identifiers order).map (Text.swap '_' '-') ∧
        ((Azure.machinesIn template.keys).Nodup ↔ job.model.topology.IdentifiersDistinct) ∧
        (template.keys.Nodup ↔ job.model.topology.IdentifiersDistinct)) := by
  have ht := Model.built_of_build hbuild
  refine ⟨fun w w' p h => ?_, fun w w' p h => ?_, fun w w' p h => ?_, fun w w' p h => ?_⟩
  · obtain ⟨order, template, horder, hdelivers, hservers, hkeys, hnodup⟩ := Heat.names_of_run ht h
    have hnames := Heat.nodup_serverNames hnodup
    refine ⟨?_, order, template, horder, hdelivers, hservers, hnames, hkeys, hnodup⟩
    rwa [hservers, Topology.nodup_identifiers ht horder] at hnames
  · obtain ⟨order, graph, horder, hdelivers, hstacks, hnodup⟩ := Kubernetes.names_of_run ht h
    refine ⟨?_, order, graph, horder, hdelivers, hstacks, hnodup⟩
    rw [hstacks] at hnodup
    exact (Topology.nodup_identifiers ht horder).mp (hnodup.of_map _)
  · obtain ⟨order, plays, horder, hdelivers, hplays⟩ := Ansible.names_of_run ht h
    refine ⟨order, plays, horder, hdelivers, hplays, ?_⟩
    rw [hplays, Topology.nodup_identifiers ht horder]
  · obtain ⟨order, template, horder, hdelivers, hmachines, hkeys⟩ := Azure.names_of_run ht h
    have hnodup : (Azure.machinesIn template.keys).Nodup ↔
        job.model.topology.IdentifiersDistinct := by
      rw [hmachines, Topology.nodup_map_swap, Topology.nodup_identifiers ht horder]
    exact ⟨order, template, horder, hdelivers, hmachines, hnodup, hkeys.trans hnodup⟩

/-- Machines with names, and nothing on them. -/
def machinesDocument (names : List String) : Value :=
  BuiltIn.mapping
    [(Key.components, BuiltIn.mapping
      (names.map fun name => (name, BuiltIn.mapping [(Key.type, .string "compute")])))]

theorem names_distinct_pair : ∃ g model,
    EntityGraph.ofValue true (machinesDocument ["front", "back"]) = .ok g ∧
    Model.build "pair" g = .ok model ∧ model.topology.IdentifiersDistinct ∧
    (∃ template w', (webJob model).Delivers
        [(Heat.templateFile model, Yaml.write template.toJson)] w' ∧
      Heat.serverNames template = ["front", "back"] ∧ template.graph.names.Nodup) ∧
    (∃ graph w', (webJob model).Delivers (Kubernetes.files graph) w' ∧
      graph.names = ["front", "back"]) ∧
    (∃ plays w', (webJob model).Delivers
        [(Ansible.playbookFile, Yaml.write (Ansible.playbook plays))] w' ∧
      plays.values.map Ansible.Play.hosts = ["front", "back"]) ∧
    ∃ template : Azure.Template, ∃ w', (webJob model).Delivers
        [(Azure.templateFile model, template.toJson.pretty)] w' ∧
      Azure.machinesIn template.keys = ["front", "back"] ∧ template.keys.Nodup := by
  have hpair : (((EntityGraph.ofValue true (machinesDocument ["front", "back"])).mapError
      (.unreadableModel "pair.yaml") >>= Model.build "pair").map fun m =>
        (m.topology.hostingOrder.toOption.map m.topology.identifiers, succeeds Heat.lifecycle m,
        succeeds Kubernetes.lifecycle m, succeeds Ansible.lifecycle m,
        succeeds Azure.lifecycle m)) =
      .ok (some ["front", "back"], true, true, true, true) := by
    decide +kernel
  obtain ⟨g, model, hg, hbuild, hall⟩ := exists_model_of_map hpair
  obtain ⟨hfound, hheat, hkubernetes, hansible, hazure⟩ : _ ∧ _ ∧ _ ∧ _ ∧ _ := by
    simpa only [Prod.mk.injEq] using hall
  obtain ⟨p₁, w₁, hheat⟩ := run_of_succeeds hheat
  obtain ⟨p₂, w₂, hkubernetes⟩ := run_of_succeeds hkubernetes
  obtain ⟨p₃, w₃, hansible⟩ := run_of_succeeds hansible
  obtain ⟨p₄, w₄, hazure⟩ := run_of_succeeds hazure
  obtain ⟨order, horder, hidentifiers⟩ := Option.map_eq_some_iff.mp hfound
  rw [toOption_eq_some] at horder
  have hjob : Model.build "pair" g = .ok (webJob model).model := hbuild
  have hmodel : (webJob model).model = model := rfl
  obtain ⟨honHeat, honKubernetes, honAnsible, honAzure⟩ := names_distinct hjob
  rw [hmodel] at honHeat honKubernetes honAnsible honAzure
  obtain ⟨hdistinct, _, template, horder₁, hdelivers₁, hservers, _, _, hnodup⟩ :=
    honHeat _ _ _ hheat
  obtain ⟨_, _, graph, horder₂, hdelivers₂, hstacks, _⟩ := honKubernetes _ _ _ hkubernetes
  obtain ⟨_, plays, horder₃, hdelivers₃, hplays, _⟩ := honAnsible _ _ _ hansible
  obtain ⟨_, machines, horder₄, hdelivers₄, hmachines, _, hkeys⟩ := honAzure _ _ _ hazure
  cases horder.symm.trans horder₁
  cases horder.symm.trans horder₂
  cases horder.symm.trans horder₃
  cases horder.symm.trans horder₄
  rw [hidentifiers] at hservers hstacks hplays hmachines
  exact ⟨g, model, hg, hbuild, hdistinct,
    ⟨template, w₁, hdelivers₁, hservers, hnodup⟩, ⟨graph, w₂, hdelivers₂, hstacks⟩,
    ⟨plays, w₃, hdelivers₃, hplays⟩, machines, w₄, hdelivers₄, hmachines, hkeys.mpr hdistinct⟩

/-- Two machines whose names are reduced to one identifier are both written under it, by the
backends that do not refuse them. -/
theorem machines_named_alike : ∃ g model,
    EntityGraph.ofValue true (machinesDocument ["vm-1", "vm_1"]) = .ok g ∧
    Model.build "twins" g = .ok model ∧ ¬ model.topology.IdentifiersDistinct ∧
    succeeds Heat.lifecycle model = false ∧ succeeds Kubernetes.lifecycle model = false ∧
    (∃ p w' plays, ((Ansible.lifecycle (webJob model)).run .idle).run {} = ((.ok (), p), w') ∧
      (webJob model).Delivers [(Ansible.playbookFile, Yaml.write (Ansible.playbook plays))] w' ∧
      plays.values.map Ansible.Play.hosts = ["vm_1", "vm_1"]) ∧
    ∃ p w', ∃ template : Azure.Template,
      ((Azure.lifecycle (webJob model)).run .idle).run {} = ((.ok (), p), w') ∧
      (webJob model).Delivers [(Azure.templateFile model, template.toJson.pretty)] w' ∧
      Azure.machinesIn template.keys = ["vm-1", "vm-1"] ∧ ¬ template.keys.Nodup := by
  have htwins : (((EntityGraph.ofValue true (machinesDocument ["vm-1", "vm_1"])).mapError
      (.unreadableModel "twins.yaml") >>= Model.build "twins").map fun m =>
        (m.topology.hostingOrder.toOption.map m.topology.identifiers, succeeds Heat.lifecycle m,
        succeeds Kubernetes.lifecycle m, succeeds Ansible.lifecycle m,
        succeeds Azure.lifecycle m)) =
      .ok (some ["vm_1", "vm_1"], false, false, true, true) := by
    decide +kernel
  obtain ⟨g, model, hg, hbuild, hall⟩ := exists_model_of_map htwins
  obtain ⟨hfound, hheat, hkubernetes, hansible, hazure⟩ : _ ∧ _ ∧ _ ∧ _ ∧ _ := by
    simpa only [Prod.mk.injEq] using hall
  obtain ⟨p₁, w₁, hansible⟩ := run_of_succeeds hansible
  obtain ⟨p₂, w₂, hazure⟩ := run_of_succeeds hazure
  obtain ⟨order, horder, hidentifiers⟩ := Option.map_eq_some_iff.mp hfound
  rw [toOption_eq_some] at horder
  have ht : model.topology.Built := Model.built_of_build hbuild
  have hmodel : (webJob model).model = model := rfl
  obtain ⟨_, plays, horder₁, hdelivers₁, hplays⟩ := Ansible.names_of_run ht hansible
  obtain ⟨_, template, horder₂, hdelivers₂, hmachines, hkeys⟩ := Azure.names_of_run ht hazure
  cases horder.symm.trans horder₁
  cases horder.symm.trans horder₂
  rw [hmodel, hidentifiers] at hplays hmachines
  have hsame : Azure.machinesIn template.keys = ["vm-1", "vm-1"] := hmachines.trans (by decide)
  refine ⟨g, model, hg, hbuild, fun hdistinct => ?_, hheat, hkubernetes,
    ⟨p₁, w₁, plays, hansible, hdelivers₁, hplays⟩,
    p₂, w₂, template, hazure, hdelivers₂, hsame, fun hnodup => ?_⟩
  · rw [← Topology.nodup_identifiers ht horder, hidentifiers] at hdistinct
    exact absurd hdistinct (by decide)
  · rw [hkeys, hsame] at hnodup
    exact absurd hnodup (by decide)

end Provision
