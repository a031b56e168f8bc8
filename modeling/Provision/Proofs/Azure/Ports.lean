import Provision.Proofs.Azure.References
import Provision.Proofs.Topology.Stack

/-! The ports that a machine opens.

The security group of a machine opens the port for access, and the port of each database
system and web server that stands on the machine's compute. What runs on a compute stands
on it, so its port is open there. The converse holds only where no compute stands on
another one: the software of a compute stands on everything below that compute as well,
and all machines below open its port. -/
namespace Provision

/-! ### Software with ports -/

namespace Topology

/-- A database system or web server that stands on a compute, directly or not, has a port. -/
def StandsWithPort (t : Topology) (c : ComponentId) (port : UInt16) : Prop :=
  ∃ id, Relation.TransGen t.HostedOn id c ∧ (t.component id).servicePort = .ok (some port)

/-- A database system or web server that runs on a compute has a port. -/
def RunsWithPort (t : Topology) (c : ComponentId) (port : UInt16) : Prop :=
  ∃ id < t.size, t.computeOf id = .ok (some c) ∧ (t.component id).servicePort = .ok (some port)

section
variable {t : Topology} {order : List ComponentId} {c : ComponentId} {port : UInt16}

/-- Only database systems and web servers have ports, so no compute has one. -/
theorem not_compute_of_servicePort {component : Component}
    (h : component.servicePort = .ok (some port)) : component.isA .compute = false := by
  unfold Component.servicePort Component.isA at *
  cases hkind : component.kind <;> simp_all [Kind.isA, Kind.lineage, ComponentKind.lineage]

/-- What runs on a compute stands on it. -/
theorem RunsWithPort.stands (h : t.RunsWithPort c port) : t.StandsWithPort c port := by
  obtain ⟨id, _, hof, hport⟩ := h
  obtain ⟨hcompute, hreach⟩ := computeOf_eq_some hof
  rcases Relation.reflTransGen_iff_eq_or_transGen.mp hreach with rfl | hreach
  · rw [not_compute_of_servicePort hport] at hcompute
    cases hcompute
  · exact ⟨id, hreach, hport⟩

/-- What stands on a compute runs on it, or on a compute that stands on it. -/
theorem standsWithPort_iff (ht : t.Built) (hsingle : t.SingleHosted)
    (horder : t.hostingOrder = .ok order) (hc : (t.component c).isA .compute) :
    t.StandsWithPort c port ↔ t.RunsWithPort c port ∨
      ∃ other, Relation.TransGen t.HostedOn other c ∧ t.RunsWithPort other port := by
  constructor
  · rintro ⟨id, hreach, hport⟩
    obtain ⟨_, hfirst, _⟩ := Relation.TransGen.head'_iff.mp hreach
    have hid := (ht.lt_of_hostedOn hfirst).1
    obtain ⟨other, hof, hother⟩ := exists_computeOf ht hsingle horder hc hreach
    rcases Relation.reflTransGen_iff_eq_or_transGen.mp hother with rfl | hother
    · exact .inl ⟨id, hid, hof, hport⟩
    · exact .inr ⟨other, hother, id, hid, hof, hport⟩
  · rintro (hruns | ⟨other, hother, hruns⟩)
    · exact hruns.stands
    · obtain ⟨id, hreach, hport⟩ := hruns.stands
      exact ⟨id, hreach.trans hother, hport⟩

end
end Topology

namespace Azure

/-! ### The rules of a group -/

/-- The value of a member of an object. -/
def Content.member? (name : String) : Content → Option Content
  | .object members => (members.find? fun m => m.1 = name).map Prod.snd
  | _ => none

def Content.text? : Content → Option String
  | .term (.text s) => some s
  | _ => none

/-- The ports that a rule lets through from outside. -/
def openedBy? (rule : Content) : Option String := do
  let properties ← rule.member? "properties"
  let access ← (← properties.member? "access").text?
  let direction ← (← properties.member? "direction").text?
  if access = "Allow" ∧ direction = "Inbound" then
    (← properties.member? "destinationPortRange").text?
  else none

/-- The ports that a security group opens, as its rules have them. -/
def Resource.openedPorts (r : Resource) : List String :=
  match r.properties.member? "securityRules" with
  | some (.array rules) => rules.filterMap openedBy?
  | _ => []

theorem openedPorts_securityGroup (name : String) (ports : List UInt16) :
    (securityGroup name ports).openedPorts = (openPorts ports).map fun p => toString p.toNat := by
  let text (port : UInt16) : String := toString port.toNat
  have hrule (rule : UInt16 × Nat) :
      openedBy? (securityRule rule.1 rule.2) = some ((text ∘ Prod.fst) rule) := rfl
  show ((openPorts ports).zipIdx.map fun rule => securityRule rule.1 rule.2).filterMap openedBy? =
    (openPorts ports).map text
  rw [List.filterMap_map, show openedBy? ∘ _ = some ∘ (text ∘ Prod.fst) from funext hrule,
    List.filterMap_eq_map, ← List.map_map, List.zipIdx_map_fst]

/-! ### The ports of a machine -/

/-- Each port is noted once. -/
theorem ports_addPort {c : Component} {ports ports' : List UInt16}
    (h : addPort ports c = .ok ports') :
    (∀ port, port ∈ ports' ↔ port ∈ ports ∨ c.servicePort = .ok (some port)) ∧
      (ports.Nodup → ports'.Nodup) := by
  obtain ⟨port?, hport, h⟩ := bind_eq_ok.mp h
  cases port? with
  | none =>
    cases h
    simp [hport]
  | some p =>
    cases h
    by_cases hp : p ∈ ports
    · rw [if_pos hp, hport]
      refine ⟨fun port => ⟨.inl, ?_⟩, id⟩
      rintro (hold | hnew)
      · exact hold
      · cases hnew
        exact hp
    · rw [if_neg hp, hport]
      refine ⟨fun port => ?_, fun hports => ?_⟩
      · simp [eq_comm]
      · simpa using hports.concat hp

theorem ports_addPorts {components : List Component} {ports ports' : List UInt16}
    (h : components.foldlM addPort ports = .ok ports') :
    (∀ port, port ∈ ports' ↔
      port ∈ ports ∨ ∃ c ∈ components, c.servicePort = .ok (some port)) ∧
      (ports.Nodup → ports'.Nodup) := by
  induction components generalizing ports with
  | nil =>
    cases h
    simp
  | cons c rest ih =>
    rw [List.foldlM_cons] at h
    obtain ⟨ports₁, hc, h⟩ := bind_eq_ok.mp h
    obtain ⟨hmem, hnodup⟩ := ports_addPort hc
    obtain ⟨hmem', hnodup'⟩ := ih h
    refine ⟨fun port => ?_, hnodup' ∘ hnodup⟩
    rw [hmem', hmem, List.exists_mem_cons_iff, or_assoc]

theorem mem_openPorts {ports : List UInt16} {port : UInt16} :
    port ∈ openPorts ports ↔ port = sshPort ∨ port ∈ ports := by
  rw [openPorts, List.mem_cons, List.mem_filter]
  by_cases hport : port = sshPort <;> simp [hport]

theorem nodup_openPorts {ports : List UInt16} (h : ports.Nodup) : (openPorts ports).Nodup := by
  refine List.nodup_cons.mpr ⟨fun hmem => ?_, h.filter _⟩
  simpa using (List.mem_filter.mp hmem).2

/-- The ports noted for a compute are those of what stands on it. -/
theorem mem_exposedPorts {t : Topology} {order : List ComponentId} {c : ComponentId}
    {ports : List UInt16} (ht : t.Built) (hsingle : t.SingleHosted)
    (horder : t.hostingOrder = .ok order) (hc : c < t.size) (h : exposedPorts t c = .ok ports)
    {port : UInt16} : port ∈ ports ↔ t.StandsWithPort c port := by
  rw [(ports_addPorts h).1]
  simp only [List.not_mem_nil, false_or, List.mem_map, exists_exists_and_eq_and,
    Topology.mem_stackOn ht hsingle horder hc, Topology.StandsWithPort]

/-! ### The groups of a template -/

def isGroup (r : Resource) : Bool := r.type = "Microsoft.Network/networkSecurityGroups"

/-- A machine owns one group, which is made from the ports noted for its compute. -/
theorem exists_group_of_machine {σ : Type} {job : Job (StateM σ)} {c : ComponentId}
    {component : Component} {tree : ResourceTree} (h : machine job c component = .ok tree) :
    ∃ ports, exposedPorts job.model.topology c = .ok ports ∧
      tree.flatten.filter isGroup = [securityGroup (machineName component ++ "-nsg") ports] := by
  obtain ⟨publicKey, _, h⟩ := bind_eq_ok.mp h
  obtain ⟨ports, hports, h⟩ := bind_eq_ok.mp h
  cases h
  refine ⟨ports, hports, ?_⟩
  rw [flatten_virtualMachine]
  rfl

/-- The security group of the machine of a compute, and the ports that it opens, in a template. -/
structure GroupFor {σ : Type} (job : Job (StateM σ)) (t : Template) (c : ComponentId)
    (group : Resource) (ports : List UInt16) : Prop where
  name : group.name = .text (machineName (job.model.topology.component c) ++ "-nsg")
  owned : ∃ tree, machine job c (job.model.topology.component c) = .ok tree ∧
    tree.flatten.filter isGroup = [group] ∧ ∀ r ∈ tree.flatten, r ∈ t.resources
  opened : group.openedPorts = ports.map fun port => toString port.toNat
  nodup : ports.Nodup

/-- Each compute has such a group, with the ports of what stands on it. -/
theorem exists_groupFor {σ : Type} {job : Job (StateM σ)} {order : List ComponentId} {s : State}
    {c : ComponentId} (ht : job.model.topology.Built)
    (hsingle : job.model.topology.SingleHosted)
    (horder : job.model.topology.hostingOrder = .ok order) (hscripts : ScriptsFor job order s)
    (hc : c ∈ job.model.topology.computesOf order) :
    ∃ group ports, GroupFor job (template job.model s) c group ports ∧
      ∀ port, port ∈ ports ↔ port = sshPort ∨ job.model.topology.StandsWithPort c port := by
  have hlt := Topology.mem_ids.mp
    ((Topology.hostingOrder_perm ht horder).mem_iff.mp (List.mem_filter.mp hc).1)
  obtain ⟨tree, hmachine, hlisted⟩ := exists_machine_of_mem hscripts hc
  obtain ⟨ports, hports, hgroup⟩ := exists_group_of_machine hmachine
  refine ⟨_, openPorts ports, ⟨rfl, ⟨tree, hmachine, hgroup, hlisted⟩,
    openedPorts_securityGroup _ ports, nodup_openPorts ((ports_addPorts hports).2 .nil)⟩, ?_⟩
  intro port
  rw [mem_openPorts, mem_exposedPorts ht hsingle horder hlt hports]

/-- **A machine opens the port for access and the ports of all software that stands on it.** These
are the ports of the software that runs on the machine, and the ports of the software on other
machines that stand on it. So a machine opens no ports but those of the software that it runs
exactly if it runs software with the same ports as those other machines, which is so if none
stands on it. -/
theorem ports_opened {σ : Type} {job : Job (StateM σ)} {name : String} {g : EntityGraph}
    (hbuild : Model.build name g = .ok job.model) {w w' : σ} {p : Progress}
    (h : ((lifecycle job).run .idle).run w = ((.ok (), p), w')) :
    ∃ order template, job.model.topology.hostingOrder = .ok order ∧
      job.Delivers [(templateFile job.model, template.toJson.pretty)] w' ∧
      ∀ c ∈ job.model.topology.computesOf order, ∃ group ports,
        GroupFor job template c group ports ∧
        (∀ port, port ∈ ports ↔ port = sshPort ∨ job.model.topology.StandsWithPort c port) ∧
        (∀ port, port = sshPort ∨ job.model.topology.RunsWithPort c port → port ∈ ports) ∧
        ((∀ port, port ∈ ports ↔ port = sshPort ∨ job.model.topology.RunsWithPort c port) ↔
          ∀ other, Relation.TransGen job.model.topology.HostedOn other c →
            ∀ port, job.model.topology.RunsWithPort other port →
              port = sshPort ∨ job.model.topology.RunsWithPort c port) := by
  have ht := Model.built_of_build hbuild
  have hsingle := Topology.singleHosted_of_build hbuild
  obtain ⟨s, visited, w₁, w₂, w₃, hvisit, hwrite, hrelease⟩ := Job.exists_visit_of_run h
  obtain ⟨order, horder, hscripts⟩ := scriptsFor_of_visit ht hvisit
  refine ⟨order, template job.model s, horder, Job.delivers_of_write hwrite hrelease,
    fun c hc => ?_⟩
  obtain ⟨group, ports, hgroup, hopen⟩ := exists_groupFor ht hsingle horder hscripts hc
  refine ⟨group, ports, hgroup, hopen,
    fun port hport => (hopen port).mpr (hport.imp_right Topology.RunsWithPort.stands), ?_⟩
  simp only [hopen, Topology.standsWithPort_iff ht hsingle horder (List.mem_filter.mp hc).2]
  constructor
  · intro hsame other hother port hruns
    exact (hsame port).mp (.inr (.inr ⟨other, hother, hruns⟩))
  · rintro hnone port
    refine ⟨?_, fun hport => hport.imp_right .inl⟩
    rintro (hssh | hruns | ⟨other, hother, hruns⟩)
    · exact .inl hssh
    · exact .inr hruns
    · exact hnone other hother port hruns

/-- A web server on a machine that stands on another machine. -/
def nestedDocument : Yaml.Value :=
  let hostedOn (name : String) : String × Yaml.Value :=
    (Key.relations, .sequence [BuiltIn.mapping [("hosted_on", .string name)]])
  BuiltIn.mapping
    [(Key.components, BuiltIn.mapping
        [("outer", BuiltIn.mapping [(Key.type, .string "compute")]),
          ("inner", BuiltIn.mapping [(Key.type, .string "compute"), hostedOn "outer"]),
          ("tomcat", BuiltIn.mapping
            [(Key.type, .string "tomcat"),
              (Key.properties, BuiltIn.mapping [("port", .integer 8080)]), hostedOn "inner"])])]

/-- The model of this document: its run succeeds, and what has a port stands on both machines. -/
theorem exists_nested : ∃ g model order p w', EntityGraph.ofValue true nestedDocument = .ok g ∧
    Model.build "nested" g = .ok model ∧
    ((lifecycle (webJob model)).run .idle).run {} = ((.ok (), p), w') ∧
    model.topology.hostingOrder = .ok order ∧ model.topology.computesOf order = [0, 1] ∧
    model.topology.hostsAbove 2 = [1, 0] ∧
    (model.topology.component 2).servicePort = .ok (some 8080) ∧
    ∀ id, model.topology.computeOf id = .ok (some 0) → id < model.topology.size → id = 0 := by
  have hnested : (((EntityGraph.ofValue true nestedDocument).mapError
      (.unreadableModel "nested.yaml") >>= Model.build "nested").map fun m =>
        (succeeds lifecycle m, m.topology.hostingOrder.toOption.map m.topology.computesOf,
          (m.topology.component 2).servicePort.toOption, [m.topology.hostsAbove 2,
            m.topology.ids.filter fun id => (m.topology.computeOf id).toOption = some (some 0)])) =
      .ok (true, some [0, 1], some (some 8080), [[1, 0], [0]]) := by
    decide +kernel
  obtain ⟨model, hm, hall⟩ := map_eq_ok.mp hnested
  obtain ⟨g, hg, hbuild⟩ := bind_eq_ok.mp hm
  obtain ⟨hazure, hfound, hport, habove, hruns, _⟩ : _ ∧ _ ∧ _ ∧ _ ∧ _ ∧ _ := by
    simpa only [Prod.mk.injEq, List.cons.injEq] using hall
  obtain ⟨p, w', hrun⟩ := run_of_succeeds hazure
  obtain ⟨order, horder, hcomputes⟩ := Option.map_eq_some_iff.mp hfound
  refine ⟨g, model, order, p, w', mapError_eq_ok.mp hg, hbuild, hrun,
    toOption_eq_some.mp horder, hcomputes, habove, toOption_eq_some.mp hport, fun id hof hid => ?_⟩
  rw [← List.mem_singleton (a := id), ← hruns, List.mem_filter, Topology.mem_ids,
    decide_eq_true_iff, toOption_eq_some]
  exact ⟨hid, hof⟩

theorem ports_opened_nested : ∃ g model order template group ports w',
    EntityGraph.ofValue true nestedDocument = .ok g ∧ Model.build "nested" g = .ok model ∧
    model.topology.hostingOrder = .ok order ∧
    (webJob model).Delivers [(templateFile model, template.toJson.pretty)] w' ∧
    GroupFor (webJob model) template 1 group ports ∧
    (∀ port, port ∈ ports ↔ port = sshPort ∨ model.topology.StandsWithPort 1 port) ∧
    (∀ port, port = sshPort ∨ model.topology.RunsWithPort 1 port → port ∈ ports) := by
  obtain ⟨g, model, order, p, w', hg, hbuild, hrun, hfound, hcomputes, _⟩ := exists_nested
  have hjob : Model.build "nested" g = .ok (webJob model).model := hbuild
  obtain ⟨_, template, horder, hdelivers, hgroups⟩ := ports_opened hjob hrun
  have hmodel : (webJob model).model = model := rfl
  rw [hmodel] at horder hgroups
  cases hfound.symm.trans horder
  have hmem : 1 ∈ model.topology.computesOf order := by simp [hcomputes]
  obtain ⟨group, ports, hgroup, hstands, hruns, _⟩ := hgroups 1 hmem
  exact ⟨g, model, order, template, group, ports, w', hg, hbuild, horder, hdelivers, hgroup, hstands,
    hruns⟩

/-- The lower of two machines opens the port of a web server that runs on the upper one. -/
theorem nested_port_opened : ∃ g model order template group ports p w',
    EntityGraph.ofValue true nestedDocument = .ok g ∧ Model.build "nested" g = .ok model ∧
    ((lifecycle (webJob model)).run .idle).run {} = ((.ok (), p), w') ∧
    model.topology.hostingOrder = .ok order ∧ 0 ∈ model.topology.computesOf order ∧
    (webJob model).Delivers [(templateFile model, template.toJson.pretty)] w' ∧
    GroupFor (webJob model) template 0 group ports ∧
    8080 ∈ ports ∧ 8080 ≠ sshPort ∧ ¬ model.topology.RunsWithPort 0 8080 := by
  obtain ⟨g, model, order, p, w', hg, hbuild, hrun, hfound, hcomputes, habove, hport, hruns⟩ :=
    exists_nested
  have ht := Model.built_of_build hbuild
  have hsingle := Topology.singleHosted_of_build hbuild
  obtain ⟨s, visited, w₁, w₂, w₃, hvisit, hwrite, hrelease⟩ := Job.exists_visit_of_run hrun
  obtain ⟨_, horder, hscripts⟩ := scriptsFor_of_visit ht hvisit
  cases hfound.symm.trans horder
  have hmem : 0 ∈ model.topology.computesOf order := by simp [hcomputes]
  have hcompute := (List.mem_filter.mp hmem).2
  obtain ⟨group, ports, hgroup, hopen⟩ := exists_groupFor ht hsingle horder hscripts hmem
  have hstands : model.topology.StandsWithPort 0 8080 := by
    refine ⟨2, (Topology.mem_hostsAbove ht hsingle horder).mp ?_, hport⟩
    simp [habove]
  refine ⟨g, model, order, template model s, group, ports, p, w', hg, hbuild, hrun, horder, hmem,
    Job.delivers_of_write hwrite hrelease, hgroup, (hopen 8080).mpr (.inr hstands), by decide, ?_⟩
  rintro ⟨id, hid, hof, hserves⟩
  rw [hruns id hof hid] at hserves
  rw [Topology.not_compute_of_servicePort hserves] at hcompute
  cases hcompute

end Azure
end Provision
