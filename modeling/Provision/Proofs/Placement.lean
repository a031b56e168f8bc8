import Provision.Proofs.Ansible.Tasks
import Provision.Proofs.Azure.Extension
import Provision.Proofs.Heat.Deployments
import Provision.Proofs.Kubernetes.Copies
import Provision.Proofs.Model.Build
import Provision.Workspace

/-! What becomes of the scripts of a model.

The hosting order decides for every compute which scripts run on it, and in which order.
Every backend turns these scripts into steps of its own kind, one for each, at the place
that it makes for the compute. -/
namespace Provision
open Yaml (Value)

variable {σ : Type} {job : Job (StateM σ)}

/-- **No script is lost, run twice or put on another compute.** The scripts of a compute are all
those of the software that resolves to it, in hosting order and then in the order of their
operations. Whatever backend makes files of a model, if it succeeds, it has one step for each
script of a compute, in this order, in what it makes for the compute, and no other steps. -/
theorem scripts_placed {name : String} {g : EntityGraph}
    (hbuild : Model.build name g = .ok job.model) :
    (∀ c s, s ∈ job.model.topology.scriptsAt c ↔ s.component < job.model.topology.size ∧
      (job.model.topology.component s.component).isA .compute = false ∧
      job.model.topology.computeOf s.component = .ok (some c) ∧
      s.operation ∈ (job.model.topology.component s.component).operations.values ∧
      s.artifact ∈ s.operation.artifacts) ∧
    (∀ order, job.model.topology.hostingOrder = .ok order → ∀ c,
      (job.model.topology.scriptsOn order c).Perm (job.model.topology.scriptsAt c) ∧
        (job.model.topology.scriptsOn order c).Pairwise (PlacedScript.RunsBefore order) ∧
        (job.model.topology.scriptsAt c ≠ [] → c ∈ job.model.topology.computesOf order)) ∧
    (∀ w w' p, ((Ansible.lifecycle job).run .idle).run w = ((.ok (), p), w') →
      ∃ order plays, job.model.topology.hostingOrder = .ok order ∧
        plays.toList = Ansible.playsFor job.model.topology order ∧
        job.Delivers [(Ansible.playbookFile, Yaml.write (Ansible.playbook plays))] w') ∧
    (∀ w w' p, ((Azure.lifecycle job).run .idle).run w = ((.ok (), p), w') →
      ∃ order template, job.model.topology.hostingOrder = .ok order ∧
        Azure.ExtensionsFor job order template ∧
        job.Delivers [(Azure.templateFile job.model, template.toJson.pretty)] w') ∧
    (∀ w w' p, ((Kubernetes.lifecycle job).run .idle).run w = ((.ok (), p), w') →
      ∃ order graph, job.model.topology.hostingOrder = .ok order ∧
        List.Forall₂ (fun c stack => Kubernetes.StackFor job.model.topology c
          (job.model.topology.scriptsOn order c) stack)
          (job.model.topology.computesOf order) graph.nodes.toList ∧
        job.Delivers (Kubernetes.files graph) w') ∧
    (∀ w w' p, ((Heat.lifecycle job).run .idle).run w = ((.ok (), p), w') →
      ∃ order template, job.model.topology.hostingOrder = .ok order ∧
        Heat.DeploymentsFor job.model.topology order template ∧
        job.Delivers [(Heat.templateFile job.model, Yaml.write template.toJson)] w') := by
  have ht := Model.built_of_build hbuild
  refine ⟨fun c s => Topology.mem_scriptsAt, fun order horder c => ⟨?_, ?_, fun hsome => ?_⟩,
    fun w w' p h => ?_, fun w w' p h => ?_, fun w w' p h => ?_, fun w w' p h => ?_⟩
  · exact Topology.scriptsOn_perm ht horder c
  · exact Topology.scriptsOn_pairwise ht horder c
  · exact Topology.mem_computesOf_of_scriptsAt ht horder hsome
  · exact Ansible.playsFor_of_run ht h
  · exact Azure.extensionsFor_of_run ht h
  · exact Kubernetes.stackFor_of_run ht h
  · exact Heat.deploymentsFor_of_run ht h

/-- An application with three scripts that stands on a machine. -/
def webDocument : Value :=
  BuiltIn.mapping
    [(Key.components, BuiltIn.mapping
        [("app", BuiltIn.mapping
            [(Key.type, .string "web_application"),
              (Key.relations, .sequence [BuiltIn.mapping [("hosted_on", .string "vm")]]),
              (Key.operations, BuiltIn.mapping
                [("start", .string "start.sh"),
                  ("create", BuiltIn.mapping
                    [(Key.artifacts, .sequence
                      [BuiltIn.mapping [("cmd", .string "fetch.sh")],
                        BuiltIn.mapping [("cmd", .string "unpack.sh")]])])])]),
          ("vm", BuiltIn.mapping [(Key.type, .string "compute")])])]

def webJob (model : Model) : Job Memory.M where
  target := "web"
  model
  settings := {}
  workspace := Memory.workspace
    { sources := .ofList [("start.sh", "serve"), ("fetch.sh", "fetch"), ("unpack.sh", "unpack")] }

/-- A run in memory that is computed to succeed. -/
theorem exists_run {m : Lifecycle Memory.M} (h : ((m.run .idle).run {}).1.1.isOk = true) :
    ∃ p w', (m.run .idle).run {} = ((.ok (), p), w') := by
  rcases hrun : (m.run .idle).run {} with ⟨⟨_ | ⟨⟩, p⟩, w'⟩
  · rw [hrun] at h
    cases h
  · exact ⟨p, w', rfl⟩

/-- Whether a run of a backend succeeds. -/
def succeeds (backend : Job Memory.M → Lifecycle Memory.M) (model : Model) : Bool :=
  (((backend (webJob model)).run .idle).run {}).1.1.isOk

theorem run_of_succeeds {backend : Job Memory.M → Lifecycle Memory.M} {model : Model}
    (h : succeeds backend model = true) :
    ∃ p w', ((backend (webJob model)).run .idle).run {} = ((.ok (), p), w') :=
  exists_run h

/-- What is computed from the model of a document shows that there is one. -/
theorem exists_model_of_map {γ : Type} {origin name : String} {v : Value} {f : Model → γ} {c : γ}
    (h : ((EntityGraph.ofValue true v).mapError (.unreadableModel origin) >>=
      Model.build name).map f = .ok c) :
    ∃ g model, EntityGraph.ofValue true v = .ok g ∧ Model.build name g = .ok model ∧
      f model = c := by
  obtain ⟨model, hmodel, hc⟩ := map_eq_ok.mp h
  obtain ⟨g, hg, hbuild⟩ := bind_eq_ok.mp hmodel
  exact ⟨g, model, mapError_eq_ok.mp hg, hbuild, hc⟩

theorem scripts_placed_web : ∃ g model order, EntityGraph.ofValue true webDocument = .ok g ∧
    Model.build "web" g = .ok model ∧ model.topology.hostingOrder = .ok order ∧
    (model.topology.scriptsOn order 1).map (fun s => s.artifact.value) =
      ["fetch.sh", "unpack.sh", "start.sh"] ∧
    (model.topology.scriptsOn order 1).Perm (model.topology.scriptsAt 1) ∧
    (∃ plays w', plays.toList = Ansible.playsFor model.topology order ∧
      (webJob model).Delivers [(Ansible.playbookFile, Yaml.write (Ansible.playbook plays))] w') ∧
    (∃ template w', Azure.ExtensionsFor (webJob model) order template ∧
      (webJob model).Delivers [(Azure.templateFile model, template.toJson.pretty)] w') ∧
    (∃ graph w', List.Forall₂ (fun c stack => Kubernetes.StackFor model.topology c
        (model.topology.scriptsOn order c) stack)
        (model.topology.computesOf order) graph.nodes.toList ∧
      (webJob model).Delivers (Kubernetes.files graph) w') ∧
    (∃ template w', Heat.DeploymentsFor model.topology order template ∧
      (webJob model).Delivers [(Heat.templateFile model, Yaml.write template.toJson)] w') := by
  have hweb : (((EntityGraph.ofValue true webDocument).mapError (.unreadableModel "web.yaml") >>=
      Model.build "web").map fun m =>
        (m.topology.hostingOrder.toOption.map fun order =>
          (m.topology.scriptsOn order 1).map fun s => s.artifact.value,
        succeeds Ansible.lifecycle m, succeeds Azure.lifecycle m, succeeds Kubernetes.lifecycle m,
        succeeds Heat.lifecycle m)) =
      .ok (some ["fetch.sh", "unpack.sh", "start.sh"], true, true, true, true) := by
    decide +kernel
  obtain ⟨model, hm, hall⟩ := map_eq_ok.mp hweb
  obtain ⟨g, hg, hbuild⟩ := bind_eq_ok.mp hm
  obtain ⟨hscripts, hansible, hazure, hkubernetes, hheat⟩ : _ ∧ _ ∧ _ ∧ _ ∧ _ := by
    simpa only [Prod.mk.injEq] using hall
  obtain ⟨p₁, w₁, hansible⟩ := run_of_succeeds hansible
  obtain ⟨p₂, w₂, hazure⟩ := run_of_succeeds hazure
  obtain ⟨p₃, w₃, hkubernetes⟩ := run_of_succeeds hkubernetes
  obtain ⟨p₄, w₄, hheat⟩ := run_of_succeeds hheat
  have hjob : Model.build "web" g = .ok (webJob model).model := hbuild
  obtain ⟨_, hplaced, honAnsible, honAzure, honKubernetes, honHeat⟩ := scripts_placed hjob
  obtain ⟨order, plays, horder, hplays⟩ := honAnsible _ _ _ hansible
  obtain ⟨_, template, horder₂, htemplate⟩ := honAzure _ _ _ hazure
  obtain ⟨_, graph, horder₃, hgraph⟩ := honKubernetes _ _ _ hkubernetes
  obtain ⟨_, stack, horder₄, hstack⟩ := honHeat _ _ _ hheat
  cases horder.symm.trans horder₂
  cases horder.symm.trans horder₃
  cases horder.symm.trans horder₄
  have hfound : model.topology.hostingOrder = .ok order := horder
  rw [hfound] at hscripts
  exact ⟨g, model, order, mapError_eq_ok.mp hg, hbuild, horder, Option.some.inj hscripts,
    (hplaced order horder 1).1, ⟨plays, w₁, hplays⟩, ⟨template, w₂, htemplate⟩,
    ⟨graph, w₃, hgraph⟩, ⟨stack, w₄, hstack⟩⟩

end Provision
