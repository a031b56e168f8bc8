import Provision.Proofs.Azure.Ports
import Provision.Proofs.Azure.Requirements

/-! The keys of the machines.

A machine is entered with a key, which it refers to as a parameter of its template. The key
that is declared for its compute becomes the default of this parameter. But all machines
refer to the parameter by one name, and where requirements of one name meet, the last one
replaces the others: the default is the key of the last compute in hosting order, and there
is none if that compute declares none. -/
namespace Provision.Azure
open Build

variable {σ : Type} {job : Job (StateM σ)}

/-! ### The parameters of a template -/

/-- The definition that a requirement gives to a parameter. -/
def Requirement.definition? : Requirement → Option Content
  | .parameter definition => some definition
  | .variableOf _ => none

/-- The definition of a parameter that a resource requires with all that it owns. -/
def ResourceTree.parameter? (tree : ResourceTree) (name : String) : Option Content :=
  (tree.requirements.get? name).bind Requirement.definition?

namespace Template

theorem get?_parameters_require (t : Template) (needed : String × Requirement) (name : String) :
    (t.require needed).parameters.get? name =
      if needed.1 = name then needed.2.definition?.or (t.parameters.get? name)
      else t.parameters.get? name := by
  obtain ⟨k, r⟩ := needed
  cases r with
  | parameter definition => exact OrderedMap.get?_insert _ _ _ _
  | variableOf value => exact (ite_self _).symm

theorem get?_parameters_foldl {needed : List (String × Requirement)}
    (hneeded : (needed.map Prod.fst).Nodup) (t : Template) (name : String) :
    (needed.foldl require t).parameters.get? name =
      ((OrderedMap.lookup name needed).bind Requirement.definition?).or
        (t.parameters.get? name) := by
  induction needed generalizing t with
  | nil => rfl
  | cons first rest ih =>
    obtain ⟨hfirst, hrest⟩ := List.nodup_cons.mp hneeded
    rw [List.foldl_cons, ih hrest, get?_parameters_require]
    by_cases hname : first.1 = name
    · have hnone : OrderedMap.lookup name rest = none :=
        OrderedMap.lookup_eq_none.mpr (hname ▸ hfirst)
      rw [hnone, OrderedMap.lookup, if_pos hname, if_pos hname]
      rfl
    · rw [OrderedMap.lookup, if_neg hname, if_neg hname]

/-- What a tree requires replaces what is there. -/
theorem get?_parameters_add (t : Template) (tree : ResourceTree) (name : String) :
    (t.add tree).parameters.get? name = (tree.parameter? name).or (t.parameters.get? name) :=
  get?_parameters_foldl tree.requirements.nodup t name

/-- Of the trees that require a parameter, the last one defines it. -/
theorem get?_parameters_ofTrees (trees : List ResourceTree) (name : String) :
    (ofTrees trees).parameters.get? name =
      trees.reverse.findSome? fun tree => tree.parameter? name := by
  induction trees using List.reverseRecOn with
  | nil => rfl
  | append_singleton before tree ih =>
    have hadd : ofTrees (before ++ [tree]) = (ofTrees before).add tree := List.foldl_concat ..
    rw [hadd, get?_parameters_add, ih, List.reverse_concat, OrderedMap.findSome?_cons_eq_or]

end Template

/-! ### The key of a machine -/

/-- The parameter of all keys. -/
def keyName : String := "adminPublicKey"

/-- The parameter that the key of a machine refers to. -/
def Resource.keyParameter? (machine : Resource) : Option String := do
  let os ← machine.properties.member? "osProfile"
  let ssh ← (← os.member? "linuxConfiguration").member? "ssh"
  match ← ssh.member? "publicKeys" with
  | .array [key] =>
    match ← key.member? "keyData" with
    | .term (.expression (.parameterValue name)) => some name
    | _ => none
  | _ => none

/-- The default of a parameter, if it is a text. -/
def defaultText? (definition : Content) : Option String := do
  (← definition.member? "defaultValue").text?

/-- The default of the parameter that the key of a machine refers to. -/
def Template.keyOf? (t : Template) (machine : Resource) : Option String := do
  defaultText? (← t.parameters.get? (← machine.keyParameter?))

theorem defaultText?_parameterDefinition (type : String) (key : Option String) :
    defaultText? (parameterDefinition type (key.map Content.text)) = key := by
  cases key <;> rfl

/-- A machine refers to the parameter of all keys, which it defines by its own. -/
theorem key_of_machine {c : ComponentId} {component : Component} {tree : ResourceTree}
    (h : machine job c component = .ok tree) :
    tree.value.keyParameter? = some keyName ∧ ∃ key, component.publicKey = .ok key ∧
      tree.parameter? keyName =
        some (parameterDefinition "securestring" (key.map Content.text)) := by
  obtain ⟨ports, publicKey, hkey, rfl⟩ := exists_eq_of_machine h
  exact ⟨rfl, publicKey, hkey, rfl⟩

theorem parameter?_extension (machine : Resource) (files : List String) (command : String) :
    ResourceTree.parameter? (.node (scriptExtension machine files command) []) keyName = none :=
  rfl

/-! ### The keys of a template -/

section Template
variable {order : List ComponentId} {s : State} {last : ComponentId}

/-- The last machine defines the parameter of all keys: the extensions behind it do not require
the parameter. -/
theorem keyDefinition_template (h : ScriptsFor job order s)
    (hlast : (job.model.topology.computesOf order).getLast? = some last) :
    ∃ key, (job.model.topology.component last).publicKey = .ok key ∧
      (template job.model s).parameters.get? keyName =
        some (parameterDefinition "securestring" (key.map Content.text)) := by
  rw [← h.keys, OrderedMap.keys, List.getLast?_map] at hlast
  obtain ⟨⟨_, tree⟩, hentry, rfl⟩ := Option.map_eq_some_iff.mp hlast
  obtain ⟨before, hmachines⟩ := List.getLast?_eq_some_iff.mp hentry
  have hmem := List.mem_of_getLast? hentry
  obtain ⟨_, key, hkey, hdefinition⟩ := key_of_machine (h.machines _ hmem)
  have hsome : s.machines.isEmpty = false := by
    rw [OrderedMap.isEmpty, hmachines]
    simp
  have hextensions : (s.scripts.toList.filterMap (extension? s)).reverse.findSome?
      (fun tree => tree.parameter? keyName) = none := by
    refine List.findSome?_eq_none_iff.mpr fun extension hextension => ?_
    obtain ⟨e, _, he⟩ := List.mem_filterMap.mp (List.mem_reverse.mp hextension)
    obtain ⟨machine, _, files, command, rfl⟩ := exists_eq_of_extension? he
    exact parameter?_extension machine.value files command
  have hvalues : s.machines.values = before.map Prod.snd ++ [tree] := by
    rw [OrderedMap.values, hmachines, List.map_append]
    rfl
  refine ⟨key, hkey, ?_⟩
  rw [template, hsome, if_neg Bool.false_ne_true, Template.get?_parameters_ofTrees,
    List.reverse_append, List.findSome?_append, hextensions, Option.none_or, List.reverse_append,
    hvalues, List.reverse_concat, List.cons_append, List.findSome?_cons_of_isSome]
  · exact hdefinition
  · rw [hdefinition]
    rfl

/-- All machines refer to this parameter. -/
theorem keyOf?_template (h : ScriptsFor job order s)
    (hlast : (job.model.topology.computesOf order).getLast? = some last) {c : ComponentId}
    (hc : c ∈ job.model.topology.computesOf order) :
    (machineFor job c).keyParameter? = some keyName ∧
      (job.model.topology.component last).publicKey =
        .ok ((template job.model s).keyOf? (machineFor job c)) := by
  obtain ⟨tree, hmachine, _⟩ := exists_machine_of_mem h hc
  obtain ⟨hparameter, _⟩ := key_of_machine hmachine
  obtain ⟨key, hkey, hdefinition⟩ := keyDefinition_template h hlast
  rw [← machineFor_eq hmachine] at hparameter
  refine ⟨hparameter, ?_⟩
  rw [hkey, Template.keyOf?, hparameter, Option.bind_eq_bind, Option.bind_some, hdefinition]
  exact congrArg Except.ok (defaultText?_parameterDefinition _ _).symm

end Template

/-! ### The run -/

/-- **All machines are entered with the key of the last compute.** A run that succeeds writes a
template with a machine for each compute. The key of each machine refers to one parameter, whose
default is the key of the last compute in hosting order, and which has no default if that compute
has no key. So the machines of all computes with a key keep their own exactly if all these have
the key of the last compute. -/
theorem keys_shared {name : String} {g : EntityGraph}
    (hbuild : Model.build name g = .ok job.model) {w w' : σ} {p : Progress}
    (h : ((lifecycle job).run .idle).run w = ((.ok (), p), w')) :
    ∃ order, ∃ template : Template, job.model.topology.hostingOrder = .ok order ∧
      job.Delivers [(templateFile job.model, template.toJson.pretty)] w' ∧
      (∀ c < job.model.topology.size, (job.model.topology.component c).isA .compute = true →
        c ∈ job.model.topology.computesOf order) ∧
      (∀ c ∈ job.model.topology.computesOf order, machineFor job c ∈ template.resources ∧
        (machineFor job c).name = .text (machineName (job.model.topology.component c))) ∧
      ∀ last, (job.model.topology.computesOf order).getLast? = some last →
        (∃ key, (job.model.topology.component last).publicKey = .ok key ∧
          template.parameters.get? keyName =
            some (parameterDefinition "securestring" (key.map Content.text)) ∧
          ∀ c ∈ job.model.topology.computesOf order,
            (machineFor job c).keyParameter? = some keyName ∧
              template.keyOf? (machineFor job c) = key) ∧
        ((∀ c ∈ job.model.topology.computesOf order, ∀ k,
            (job.model.topology.component c).publicKey = .ok (some k) →
              template.keyOf? (machineFor job c) = some k) ↔
          ∀ c ∈ job.model.topology.computesOf order, ∀ k,
            (job.model.topology.component c).publicKey = .ok (some k) →
              (job.model.topology.component last).publicKey = .ok (some k)) := by
  have ht := Model.built_of_build hbuild
  obtain ⟨s, visited, w₁, w₂, w₃, hvisit, hwrite, hrelease⟩ := Job.exists_visit_of_run h
  obtain ⟨order, horder, hscripts⟩ := scriptsFor_of_visit ht hvisit
  refine ⟨order, template job.model s, horder, Job.delivers_of_write hwrite hrelease,
    fun c hc hcompute => ?_, fun c hc => ⟨(machineFor_mem hscripts hc).2, ?_⟩,
    fun last hlast => ?_⟩
  · refine List.mem_filter.mpr ⟨?_, hcompute⟩
    exact (Topology.hostingOrder_perm ht horder).mem_iff.mpr (Topology.mem_ids.mpr hc)
  · obtain ⟨tree, hmachine, _⟩ := exists_machine_of_mem hscripts hc
    rw [machineFor_eq hmachine, name_machine hmachine]
  · obtain ⟨key, hkey, hdefinition⟩ := keyDefinition_template hscripts hlast
    have hshared {c : ComponentId} (hc : c ∈ job.model.topology.computesOf order) :
        (machineFor job c).keyParameter? = some keyName ∧
          (template job.model s).keyOf? (machineFor job c) = key := by
      obtain ⟨hparameter, hof⟩ := keyOf?_template hscripts hlast hc
      exact ⟨hparameter, (Except.ok.inj (hkey.symm.trans hof)).symm⟩
    refine ⟨⟨key, hkey, hdefinition, fun c hc => hshared hc⟩, ?_⟩
    refine forall₂_congr fun c hc => forall₂_congr fun k _ => ?_
    rw [(hshared hc).2, hkey, Except.ok.injEq]

/-- Machines with keys, and machines without. -/
def keysDocument (keys : List (String × Option String)) : Yaml.Value :=
  BuiltIn.mapping
    [(Key.components, BuiltIn.mapping (keys.map fun (name, key) =>
        (name, BuiltIn.mapping
          [(Key.type, .string "compute"),
            (Key.properties, BuiltIn.mapping
              (key.map fun k => ("public_key", Yaml.Value.string k)).toList)])))]

/-- Three machines, of which two have different keys. -/
def keyedDocument : Yaml.Value :=
  keysDocument [("left", some "ssh-rsa left"), ("middle", none), ("right", some "ssh-rsa right")]

/-- The model of this document: its run succeeds, and the computes have these keys. -/
theorem exists_keyed : ∃ g model p w', EntityGraph.ofValue true keyedDocument = .ok g ∧
    Model.build "keyed" g = .ok model ∧
    ((lifecycle (webJob model)).run .idle).run {} = ((.ok (), p), w') ∧
    model.topology.hostingOrder = .ok [0, 1, 2] ∧
    model.topology.computesOf [0, 1, 2] = [0, 1, 2] ∧
    (model.topology.component 0).publicKey = .ok (some "ssh-rsa left") ∧
    (model.topology.component 2).publicKey = .ok (some "ssh-rsa right") := by
  have hkeyed : (((EntityGraph.ofValue true keyedDocument).mapError
      (.unreadableModel "keyed.yaml") >>= Model.build "keyed").map fun m =>
        [succeeds lifecycle m, m.topology.hostingOrder.toOption = some [0, 1, 2],
          m.topology.computesOf [0, 1, 2] = [0, 1, 2],
          (m.topology.component 0).publicKey.toOption = some (some "ssh-rsa left"),
          (m.topology.component 2).publicKey.toOption = some (some "ssh-rsa right")]) =
      .ok (List.replicate 5 true) := by
    decide +kernel
  obtain ⟨g, model, hg, hbuild, hall⟩ := exists_model_of_map hkeyed
  simp only [List.replicate, List.cons.injEq, decide_eq_true_eq, toOption_eq_some, and_true]
    at hall
  obtain ⟨hsucceeds, hfacts⟩ := hall
  obtain ⟨p, w', hrun⟩ := run_of_succeeds hsucceeds
  exact ⟨g, model, p, w', hg, hbuild, hrun, hfacts⟩

theorem keys_shared_keyed : ∃ g model, ∃ template : Template, ∃ p w',
    EntityGraph.ofValue true keyedDocument = .ok g ∧ Model.build "keyed" g = .ok model ∧
    ((lifecycle (webJob model)).run .idle).run {} = ((.ok (), p), w') ∧
    (webJob model).Delivers [(templateFile model, template.toJson.pretty)] w' ∧
    ∀ c ∈ [0, 1, 2], machineFor (webJob model) c ∈ template.resources ∧
      template.keyOf? (machineFor (webJob model) c) = some "ssh-rsa right" := by
  obtain ⟨g, model, p, w', hg, hbuild, hrun, horder, hcomputes, _, hright⟩ := exists_keyed
  have hjob : Model.build "keyed" g = .ok (webJob model).model := hbuild
  obtain ⟨_, template, hsame, hdelivers, _, hmachines, hkeys⟩ := keys_shared hjob hrun
  have hmodel : (webJob model).model = model := rfl
  rw [hmodel] at hsame hmachines hkeys
  cases horder.symm.trans hsame
  rw [hcomputes] at hmachines hkeys
  obtain ⟨⟨key, hkey, _, hshared⟩, _⟩ := hkeys 2 rfl
  cases hkey.symm.trans hright
  exact ⟨g, model, template, p, w', hg, hbuild, hrun, hdelivers,
    fun c hc => ⟨(hmachines c hc).1, (hshared c hc).2⟩⟩

/-- The first machine is entered with the key of the last one, and not with its own. -/
theorem key_replaced : ∃ g model, ∃ template : Template, ∃ p w',
    EntityGraph.ofValue true keyedDocument = .ok g ∧ Model.build "keyed" g = .ok model ∧
    ((lifecycle (webJob model)).run .idle).run {} = ((.ok (), p), w') ∧
    (webJob model).Delivers [(templateFile model, template.toJson.pretty)] w' ∧
    (model.topology.component 0).publicKey = .ok (some "ssh-rsa left") ∧
    machineFor (webJob model) 0 ∈ template.resources ∧
    template.keyOf? (machineFor (webJob model) 0) = some "ssh-rsa right" := by
  obtain ⟨g, model, p, w', hg, hbuild, hrun, horder, hcomputes, hleft, hright⟩ := exists_keyed
  have ht := Model.built_of_build hbuild
  obtain ⟨s, visited, w₁, w₂, w₃, hvisit, hwrite, hrelease⟩ := Job.exists_visit_of_run hrun
  obtain ⟨_, hsame, hscripts⟩ := scriptsFor_of_visit ht hvisit
  cases horder.symm.trans hsame
  have hfirst : 0 ∈ model.topology.computesOf [0, 1, 2] := by simp [hcomputes]
  have hlast : (model.topology.computesOf [0, 1, 2]).getLast? = some 2 := by rw [hcomputes]; rfl
  obtain ⟨_, hof⟩ := keyOf?_template hscripts hlast hfirst
  exact ⟨g, model, template model s, p, w', hg, hbuild, hrun,
    Job.delivers_of_write hwrite hrelease, hleft, (machineFor_mem hscripts hfirst).2,
    (Except.ok.inj (hright.symm.trans hof)).symm⟩

end Provision.Azure
