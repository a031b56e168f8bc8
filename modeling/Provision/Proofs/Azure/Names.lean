import Provision.Proofs.Azure.References

/-! The names of Azure resources.

A resource is known by its type and its name. Every machine gives its own name to
itself, and with an ending of their own to the three resources that it owns and to its
extension, all of different types. So the names of the machines are distinct exactly if
no two resources of the template have the same type and name. -/
namespace Provision.Azure

/-- What a resource is known by. -/
def Resource.key (r : Resource) : String × String := (r.type, r.name.render)

def Template.keys (t : Template) : List (String × String) := t.resources.map Resource.key

def machineType : String := "Microsoft.Compute/virtualMachines"

/-- What a machine with a name and all that it owns are known by. -/
def machineKeys (name : String) : List (String × String) :=
  [("Microsoft.Network/networkSecurityGroups", name ++ "-nsg"),
    ("Microsoft.Network/publicIPAddresses", name ++ "-ip"),
    ("Microsoft.Network/networkInterfaces", name ++ "-nic"), (machineType, name)]

/-- What the extension of a machine with a name is known by. -/
def extensionKey (name : String) : String × String :=
  ("Microsoft.Compute/virtualMachines/extensions", name ++ "/deploy")

def networkKey : String × String := ("Microsoft.Network/virtualNetworks", "[variables('vnetName')]")

/-! ### Keys and names -/

section Keys
variable {name name' : String} {names extended : List String}

theorem nodup_machineKeys (name : String) : (machineKeys name).Nodup := by
  simp [machineKeys, machineType]

theorem eq_of_mem_machineKeys {key : String × String} (h : key ∈ machineKeys name)
    (h' : key ∈ machineKeys name') : name = name' := by
  simp only [machineKeys, List.mem_cons, List.not_mem_nil, or_false] at h
  rcases h with rfl | rfl | rfl | rfl <;> simpa [machineKeys, machineType] using h'

theorem extensionKey_injective : Function.Injective extensionKey := by
  intro name name' h
  simpa [extensionKey] using h

theorem nodup_flatMap_machineKeys : (names.flatMap machineKeys).Nodup ↔ names.Nodup := by
  rw [List.nodup_flatMap]
  refine ⟨fun h => h.2.imp fun hdisjoint heq => ?_, fun h => ⟨fun name _ => nodup_machineKeys name,
    h.imp fun hne => ?_⟩⟩
  · subst heq
    exact hdisjoint List.mem_cons_self List.mem_cons_self
  · exact List.disjoint_left.mpr fun key hkey hkey' => hne (eq_of_mem_machineKeys hkey hkey')

/-- All keys of a template differ exactly if the names of its machines do. -/
theorem nodup_keys (hextended : names.Nodup → extended.Nodup) :
    (networkKey :: (names.flatMap machineKeys ++ extended.map extensionKey)).Nodup ↔
      names.Nodup := by
  have hnetwork : networkKey ∉ names.flatMap machineKeys ++ extended.map extensionKey := by
    simp [networkKey, machineKeys, machineType, extensionKey]
  have hdisjoint : (names.flatMap machineKeys).Disjoint (extended.map extensionKey) := by
    rintro key hkey hkey'
    obtain ⟨name, _, hkey⟩ := List.mem_flatMap.mp hkey
    obtain ⟨name', _, rfl⟩ := List.mem_map.mp hkey'
    simp [machineKeys, machineType, extensionKey] at hkey
  rw [List.nodup_cons, List.nodup_append', nodup_flatMap_machineKeys]
  exact ⟨fun h => h.2.1,
    fun h => ⟨hnetwork, h, (hextended h).map extensionKey_injective, hdisjoint⟩⟩

/-- The names of the machines can be read off the keys of a template. -/
def machinesIn (keys : List (String × String)) : List String :=
  (keys.filter fun key => key.1 = machineType).map Prod.snd

theorem machinesIn_keys : machinesIn
    (networkKey :: (names.flatMap machineKeys ++ extended.map extensionKey)) = names := by
  have hmachine : ∀ name, (machineKeys name).filter (fun key => key.1 = machineType) =
      [(machineType, name)] := fun name => by simp [machineKeys, machineType]
  have hextension : (extended.map extensionKey).filter (fun key => key.1 = machineType) = [] := by
    simp [extensionKey, machineType]
  have hnetwork : ¬ networkKey.1 = machineType := by decide
  rw [machinesIn, List.filter_cons_of_neg (by simpa using hnetwork), List.filter_append, hextension,
    List.append_nil, List.filter_flatMap, List.map_flatMap]
  simp only [hmachine, List.map_cons, List.map_nil]
  exact List.flatMap_singleton' names

end Keys

/-! ### The template -/

section Template
variable {σ : Type} {job : Job (StateM σ)} {order : List ComponentId} {s : State}

/-- The names of the machines, in the order of their computes. -/
def machineNames (t : Topology) (l : List ComponentId) : List String :=
  l.map fun c => machineName (t.component c)

theorem map_key_machine {c : ComponentId} {component : Component} {tree : ResourceTree}
    (h : machine job c component = .ok tree) :
    tree.flatten.map Resource.key = machineKeys (machineName component) := by
  obtain ⟨ports, publicKey, _, rfl⟩ := exists_eq_of_machine h
  rw [flatten_virtualMachine]
  rfl

theorem map_key_machines (h : ScriptsFor job order s) :
    (s.machines.values.flatMap ResourceTree.flatten).map Resource.key =
      (machineNames job.model.topology (job.model.topology.computesOf order)).flatMap
        machineKeys := by
  rw [List.map_flatMap, machineNames, ← h.keys, OrderedMap.values_eq_map, OrderedMap.keys,
    ← OrderedMap.toList, List.map_map, List.flatMap_map, List.flatMap_map]
  exact List.flatMap_congr fun e he => map_key_machine (h.machines e he)

/-- The computes that have scripts, in the order in which they got them. -/
def extended (t : Topology) (order : List ComponentId) (s : State) : List ComponentId :=
  s.scripts.keys.filter fun c => t.scriptsOn order c ≠ []

theorem mem_computesOf_of_extended (h : ScriptsFor job order s) {c : ComponentId}
    (hc : c ∈ extended job.model.topology order s) :
    c ∈ job.model.topology.computesOf order := by
  obtain ⟨steps, hsteps⟩ := OrderedMap.mem_keys.mp (List.mem_filter.mp hc).1
  exact (h.scripts _ hsteps).1

theorem map_key_extensions (h : ScriptsFor job order s) :
    ((s.scripts.toList.filterMap (extension? s)).flatMap ResourceTree.flatten).map Resource.key =
      (machineNames job.model.topology (extended job.model.topology order s)).map
        extensionKey := by
  have hall : ∀ r ∈ (s.scripts.toList.filterMap (extension? s)).flatMap ResourceTree.flatten,
      isExtension r = true := by
    intro r hr
    obtain ⟨tree, htree, hr⟩ := List.mem_flatMap.mp hr
    obtain ⟨e, _, he⟩ := List.mem_filterMap.mp htree
    obtain ⟨machine, _, files, command, rfl⟩ := exists_eq_of_extension? he
    cases List.mem_singleton.mp hr
    rfl
  rw [← List.filter_eq_self.mpr hall, filter_flatMap_extensions h, machineNames, List.map_map,
    List.map_map]
  refine List.map_congr_left fun c hc => ?_
  obtain ⟨tree, hmachine, _⟩ := exists_machine_of_mem h (mem_computesOf_of_extended h hc)
  obtain ⟨ports, publicKey, _, rfl⟩ := exists_eq_of_machine hmachine
  show (extensionFor job c _).key = _
  rw [extensionFor, machineFor_eq hmachine]
  rfl

theorem map_key_template (h : ScriptsFor job order s) (hsome : s.machines.isEmpty = false) :
    (template job.model s).keys = networkKey ::
      ((machineNames job.model.topology (job.model.topology.computesOf order)).flatMap
          machineKeys ++
        (machineNames job.model.topology (extended job.model.topology order s)).map
          extensionKey) := by
  rw [Template.keys, resources_template hsome, List.map_append, List.map_append, map_key_machines h,
    map_key_extensions h]
  rfl

/-- The machines of a template have the names of their computes, and no two of its resources have
the same type and name exactly if no two machines have the same name. -/
theorem names_template (h : ScriptsFor job order s) :
    machinesIn (template job.model s).keys =
        machineNames job.model.topology (job.model.topology.computesOf order) ∧
      ((template job.model s).keys.Nodup ↔
        (machineNames job.model.topology (job.model.topology.computesOf order)).Nodup) := by
  cases hsome : s.machines.isEmpty with
  | true =>
    rw [Template.keys, resources_template_empty hsome, h.computesOf_eq_nil hsome]
    exact ⟨rfl, iff_of_true .nil .nil⟩
  | false =>
    refine ⟨?_, ?_⟩
    · rw [map_key_template h hsome, machinesIn_keys]
    · rw [map_key_template h hsome, nodup_keys fun hnames => ?_]
      refine List.Nodup.map_on (fun c hc c' hc' => ?_) (s.scripts.nodup.filter _)
      exact List.inj_on_of_nodup_map hnames (mem_computesOf_of_extended h hc)
        (mem_computesOf_of_extended h hc')

end Template
end Provision.Azure
