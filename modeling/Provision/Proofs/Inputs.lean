import Provision.Proofs.Azure.Ports
import Provision.Proofs.Heat.Inputs
import Provision.Proofs.Placement

/-! The variables of scripts.

Each backend puts together on its own what the scripts of a component are given. A playbook
and an extension give them the variables of the component and of its hosts; a deployment
adds those of what the component is connected to. All three keep to one precedence. -/
namespace Provision
open Yaml (Value)

/-! ### Playbooks -/

namespace Ansible

/-- The environment of a task of a document: empty if it does not mention any. -/
def environmentOf? (task : Json) : Option (List (String × String)) :=
  match task.member? "environment" with
  | none => some []
  | some environment => environment.textMembers?

theorem environmentOf?_task (task : Task) :
    environmentOf? task.toJson = some task.environment.toList := by
  unfold environmentOf? Task.toJson
  cases hempty : task.environment.isEmpty with
  | true =>
    rw [OrderedMap.toList, List.isEmpty_iff.mp hempty]
    rfl
  | false => exact Json.textMembers?_texts task.environment

/-- The tasks of a play are those of the scripts on its compute, each with the environment of
its component. -/
structure TasksFor (t : Topology) (order : List ComponentId) (plays : Plays) : Prop where
  keys : plays.keys = t.computesOf order
  tasks : ∀ c play, plays.get? c = some play →
    List.Forall₂ (fun s task => task.script = scriptPath (t.component s.component) s.artifact ∧
      environmentOf? task.toJson = some (t.stackedEnvironment s.component).toList)
      (t.scriptsOn order c) play.tasks

theorem tasksFor_of_playsFor {t : Topology} {order : List ComponentId} {plays : Plays}
    (h : plays.toList = playsFor t order) : TasksFor t order plays where
  keys := keys_of_playsFor h
  tasks c play hplay := by
    rw [OrderedMap.get?_eq_some, h] at hplay
    obtain ⟨_, _, heq⟩ := List.mem_map.mp hplay
    cases heq
    show List.Forall₂ _ _ ((t.scriptsOn order c).map (taskFor t))
    refine List.forall₂_map_right_iff.mpr (List.forall₂_same.mpr fun s _ => ?_)
    exact ⟨rfl, environmentOf?_task _⟩

end Ansible

/-! ### Extensions -/

namespace Azure

/-- The command of an extension. -/
def commandOf? (extension : Resource) : Option String := do
  (← (← extension.properties.member? "protectedSettings").member? "commandToExecute").text?

/-- A script is run behind the assignments of the environment of its component. -/
def commandFor (t : Topology) (s : PlacedScript) : String :=
  assignments (t.stackedEnvironment s.component) ++ "sh " ++
    scriptFile (t.component s.component) s.artifact

/-- The commands of the extensions are those of the scripts on the computes. -/
def CommandsFor (t : Topology) (order : List ComponentId) (template : Template) : Prop :=
  ((template.resources.filter isExtension).map commandOf?).Perm
    (((t.computesOf order).filter fun c => t.scriptsOn order c ≠ []).map fun c =>
      some (" && ".intercalate ((t.scriptsOn order c).map (commandFor t))))

theorem commandOf?_extensionFor {σ : Type} (job : Job (StateM σ)) (c : ComponentId)
    (scripts : List PlacedScript) : commandOf? (extensionFor job c scripts) =
      some (" && ".intercalate (scripts.map (commandFor job.model.topology))) := by
  show some (" && ".intercalate ((scripts.map (stepFor job.model.topology)).map
    ScriptStep.command)) = _
  rw [List.map_map]
  rfl

theorem ExtensionsFor.commandsFor {σ : Type} {job : Job (StateM σ)} {order : List ComponentId}
    {template : Template} (h : ExtensionsFor job order template) :
    CommandsFor job.model.topology order template := by
  have hcommands := h.extensions.map commandOf?
  rw [List.map_map] at hcommands
  rw [CommandsFor]
  simpa only [Function.comp_def, commandOf?_extensionFor] using hcommands

end Azure

/-! ### The run -/

section Run
variable {σ : Type} {job : Job (StateM σ)}

/-- **What a component has itself comes before what the components have that it is connected to,
and that before what its hosts have; the last of the former and the nearest of the latter come
first.** In a run of Heat that succeeds each deployment gets exactly these variables, and its
config declares exactly their names. A task of a playbook and a command of an extension have the
same variables but for the connections. -/
theorem variables_supplied {name : String} {g : EntityGraph}
    (hbuild : Model.build name g = .ok job.model) :
    (∀ w w' p, ((Heat.lifecycle job).run .idle).run w = ((.ok (), p), w') →
      ∃ template, Heat.InputsFor job.model.topology template ∧
        job.Delivers [(Heat.templateFile job.model, Yaml.write template.toJson)] w') ∧
    (∀ id, job.model.topology.SuppliedWith (fun _ => False) id
      (job.model.topology.stackedEnvironment id).toList) ∧
    (∀ w w' p, ((Ansible.lifecycle job).run .idle).run w = ((.ok (), p), w') →
      ∃ order plays, job.model.topology.hostingOrder = .ok order ∧
        Ansible.TasksFor job.model.topology order plays ∧
        job.Delivers [(Ansible.playbookFile, Yaml.write (Ansible.playbook plays))] w') ∧
    (∀ w w' p, ((Azure.lifecycle job).run .idle).run w = ((.ok (), p), w') →
      ∃ order template, job.model.topology.hostingOrder = .ok order ∧
        Azure.CommandsFor job.model.topology order template ∧
        job.Delivers [(Azure.templateFile job.model, template.toJson.pretty)] w') := by
  have ht := Model.built_of_build hbuild
  refine ⟨fun w w' p h => Heat.inputsFor_of_run ht h,
    job.model.topology.suppliedWith_stackedEnvironment, fun w w' p h => ?_, fun w w' p h => ?_⟩
  · obtain ⟨order, plays, horder, hplays, hdelivers⟩ := Ansible.playsFor_of_run ht h
    exact ⟨order, plays, horder, Ansible.tasksFor_of_playsFor hplays, hdelivers⟩
  · obtain ⟨order, template, horder, hextensions, hdelivers⟩ := Azure.extensionsFor_of_run ht h
    exact ⟨order, template, horder, hextensions.commandsFor, hdelivers⟩

/-- An application on two servers, one upon the other, that is connected to two stores. They have
variables of the same names: both servers a mode, the near server, the application and the stores
a port, the near server and both stores a key. -/
def sharingDocument : Value :=
  let software (properties : List (String × Value)) (relations : List (String × String))
      (scripts : List (String × Value)) : Value :=
    BuiltIn.mapping
      [(Key.type, .string "software_component"), (Key.properties, BuiltIn.mapping properties),
        (Key.relations, .sequence (relations.map fun (kind, target) =>
          BuiltIn.mapping [(kind, .string target)])),
        (Key.operations, BuiltIn.mapping scripts)]
  BuiltIn.mapping
    [(Key.components, BuiltIn.mapping
        [("vm", BuiltIn.mapping [(Key.type, .string "compute")]),
          ("Web", software [("mode", .string "far")] [("hosted_on", "vm")] []),
          ("web", software
            [("mode", .string "near"), ("app_one_port", .string "near"),
              ("app_one_key", .string "near")] [("hosted_on", "Web")] []),
          ("web-app", software [("one_port", .string "own")]
            [("hosted_on", "web"), ("connects_to", "web.app.one"), ("connects_to", "web-app-one")]
            [("start", .string "start.sh")]),
          ("web-app-one", software [("port", .string "first"), ("key", .string "first")] [] []),
          ("web.app.one", software [("port", .string "last"), ("key", .string "last")] [] [])])]

/-- The variables that the machine gives to what stands on it. -/
def machineVariables : List (String × String) :=
  [("VM_OS_FAMILY", "linux"), ("VM_MACHINE_IMAGE", "ubuntu"), ("VM_INSTANCE_TYPE", "m1.small")]

theorem variables_supplied_sharing : ∃ g model order r values w', ∃ template : Heat.Template,
    EntityGraph.ofValue true sharingDocument = .ok g ∧ Model.build "sharing" g = .ok model ∧
    model.topology.hostingOrder = .ok order ∧
    (webJob model).Delivers [(Heat.templateFile model, Yaml.write template.toJson)] w' ∧
    template.resources.get? "web_app_start" = some r ∧
    Heat.suppliedOf? r = some values ∧ values.Perm (machineVariables ++
      [("WEB_MODE", "near"), ("WEB_APP_ONE_PORT", "own"), ("WEB_APP_ONE_KEY", "last")]) ∧
    (model.topology.stackedEnvironment 3).toList = machineVariables ++
      [("WEB_MODE", "near"), ("WEB_APP_ONE_PORT", "own"), ("WEB_APP_ONE_KEY", "near")] ∧
    (∃ plays w', Ansible.TasksFor model.topology order plays ∧
      (webJob model).Delivers
        [(Ansible.playbookFile, Yaml.write (Ansible.playbook plays))] w') ∧
    (∃ template w', Azure.CommandsFor model.topology order template ∧
      (webJob model).Delivers [(Azure.templateFile model, template.toJson.pretty)] w') := by
  have hsharing : (((EntityGraph.ofValue true sharingDocument).mapError
      (.unreadableModel "sharing.yaml") >>= Model.build "sharing").map fun m =>
        [succeeds Heat.lifecycle m, succeeds Ansible.lifecycle m, succeeds Azure.lifecycle m,
          3 < m.topology.size, (m.topology.component 3).isA .compute = false,
          (m.topology.computeOf 3).toOption = some (some 0),
          (m.topology.component 3).operations.values.map (fun o =>
            (o.hasArtifacts, Heat.deploymentName m.topology 3 o)) = [(true, "web_app_start")],
          (Heat.inputValues m.topology 3).toList = machineVariables ++
            [("WEB_MODE", "near"), ("WEB_APP_ONE_PORT", "own"), ("WEB_APP_ONE_KEY", "last")],
          (m.topology.stackedEnvironment 3).toList = machineVariables ++
            [("WEB_MODE", "near"), ("WEB_APP_ONE_PORT", "own"), ("WEB_APP_ONE_KEY", "near")]]) =
      .ok (List.replicate 9 true) := by
    decide +kernel
  obtain ⟨g, model, hg, hbuild, hall⟩ := exists_model_of_map hsharing
  simp only [List.replicate, List.cons.injEq, decide_eq_true_eq, toOption_eq_some, and_true]
    at hall
  obtain ⟨hheat, hansible, hazure, hlt, hsoftware, hplaced, hoperations, hvalues, hstacked⟩ := hall
  obtain ⟨_, w₁, hheat⟩ := run_of_succeeds hheat
  obtain ⟨_, w₂, hansible⟩ := run_of_succeeds hansible
  obtain ⟨_, w₃, hazure⟩ := run_of_succeeds hazure
  have hjob : Model.build "sharing" g = .ok (webJob model).model := hbuild
  obtain ⟨honHeat, _, honAnsible, honAzure⟩ := variables_supplied hjob
  obtain ⟨template, hinputs, htemplate⟩ := honHeat _ _ _ hheat
  obtain ⟨order, plays, horder, hplays⟩ := honAnsible _ _ _ hansible
  obtain ⟨_, machines, hsame, hmachines⟩ := honAzure _ _ _ hazure
  cases horder.symm.trans hsame
  obtain ⟨o, ho, hoperation⟩ := List.mem_map.mp (hoperations ▸ List.mem_cons_self)
  obtain ⟨hscripted, hname⟩ : o.hasArtifacts = true ∧
      Heat.deploymentName model.topology 3 o = "web_app_start" := Prod.ext_iff.mp hoperation
  obtain ⟨r, values, _, _, hr, _, hread, hsupplied, _⟩ :=
    hinputs.supplied 3 o ⟨hlt, hsoftware, ⟨0, hplaced⟩, ho, hscripted⟩
  have hperm := hsupplied.unique (model.topology.suppliedWith_inputValues 3)
  exact ⟨g, model, order, r, values, w₁, template, hg, hbuild, horder, htemplate, hname ▸ hr,
    hread, hperm.trans (.of_eq hvalues), hstacked, ⟨plays, w₂, hplays⟩, ⟨machines, w₃, hmachines⟩⟩

end Run

end Provision
