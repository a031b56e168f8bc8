import Provision.Ansible.Backend
import Provision.Proofs.Backend.Success
import Provision.Proofs.Data.OrderedMap

/-! The tasks of a playbook.

Along the hosting order, the plays are those of the computes that are done, and the tasks
of a play those of the scripts that are done and run on its compute. A compute opens a play
without tasks, since nothing that is done runs on it yet. What runs on a compute adds its
tasks to the end of the play, which is there. -/
namespace Provision.Ansible
open Build

variable {σ : Type} {job : Job (StateM σ)}

/-- The task of a script. -/
def taskFor (t : Topology) (s : PlacedScript) : Task :=
  let c := t.component s.component
  { name := c.identifier ++ "_" ++ Text.identifier s.operation.name
    script := scriptPath c s.artifact
    environment := t.stackedEnvironment s.component }

/-- The play of a compute. -/
def playFor (t : Topology) (compute : ComponentId) (scripts : List PlacedScript) : Play :=
  let c := t.component compute
  { name := "deploy " ++ c.identifier, hosts := c.identifier, tasks := scripts.map (taskFor t) }

/-- The plays once some components are done. -/
def playsFor (t : Topology) (done : List ComponentId) : List (ComponentId × Play) :=
  (t.computesOf done).map fun c => (c, playFor t c (t.scriptsOn done c))

/-! ### One component -/

theorem taskOf_eq {id : ComponentId} {o : Operation} {a : Artifact} {w w' : σ} {task : Task}
    {t : Topology}
    (h : Ends (taskOf job (t.component id) (t.stackedEnvironment id) o a) w task w') :
    task = taskFor t { component := id, operation := o, artifact := a } := by
  obtain ⟨_, _, _, h⟩ := ends_bind.mp h
  obtain ⟨_, _, _, h⟩ := ends_bind.mp h
  exact (ends_pure.mp h).1.symm

theorem tasksOf_eq {id : ComponentId} {w w' : σ} {tasks : List Task} {t : Topology}
    (h : Ends (tasksOf job (t.component id) (t.stackedEnvironment id)) w tasks w') :
    tasks = (t.scriptsOf id).map (taskFor t) := by
  obtain ⟨taskss, w₁, hmap, h⟩ := ends_bind.mp h
  obtain ⟨rfl, _⟩ := ends_pure.mp h
  have htaskss := eq_map_of_ends_mapM (fun o _ _ _ ho =>
    eq_map_of_ends_mapM (fun a _ _ _ ha => taskOf_eq ha) ho) hmap
  rw [htaskss, Topology.map_scriptsOf, List.flatMap_def]

theorem handles_addCompute (t : Topology) (id : ComponentId) :
    Handles (addCompute id (t.component id) : Step (StateM σ) Unit) id fun plays plays' =>
      plays' = plays.insert id (playFor t id []) := by
  refine handles_once fun s s' h => ?_
  rw [yields_change] at h
  subst h
  exact ⟨rfl, rfl⟩

theorem handles_addSoftware {id : ComponentId}
    (hid : (job.model.topology.component id).isA .compute = false) :
    Handles (addSoftware job id (job.model.topology.component id)) id fun plays plays' =>
      plays' = match job.model.topology.placed? id with
        | none => plays
        | some compute => plays.adjust compute fun p =>
          { p with
            tasks := p.tasks ++
              (job.model.topology.scriptsOf id).map (taskFor job.model.topology) } := by
  refine handles_once fun s s' h => ?_
  obtain ⟨compute?, hcompute, h⟩ := yields_ofExcept_bind.mp h
  rw [Topology.placed?_of_computeOf hid hcompute]
  cases compute? with
  | none =>
    obtain ⟨_, rfl⟩ := yields_pure.mp h
    exact ⟨rfl, rfl⟩
  | some compute =>
    obtain ⟨tasks, w, htasks, h⟩ := yields_lift_bind.mp h
    rw [yields_change, tasksOf_eq htasks] at h
    subst h
    exact ⟨rfl, rfl⟩

/-! ### The visit -/

section Visit
variable {t : Topology} {done rest : List ComponentId} {id : ComponentId}

theorem keys_of_playsFor {plays : Plays} (h : plays.toList = playsFor t done) :
    plays.keys = t.computesOf done := by
  show plays.toList.map Prod.fst = _
  rw [h, playsFor, List.map_map]
  exact List.map_id _

/-- A compute opens a play without tasks. -/
theorem playsFor_compute (ht : t.Built) (horder : t.hostingOrder = .ok (done ++ id :: rest))
    (hid : (t.component id).isA .compute = true) :
    playsFor t (done ++ [id]) = playsFor t done ++ [(id, playFor t id [])] := by
  simp only [playsFor, Topology.computesOf_append_compute done hid,
    Topology.scriptsOn_append_compute done hid, List.map_append, List.map_cons, List.map_nil,
    Topology.scriptsOn_next ht horder]

/-- What runs on a compute adds its tasks to the play of the compute. -/
theorem playsFor_software (hid : (t.component id).isA .compute = false) {c : ComponentId}
    (hc : t.placed? id = some c) :
    playsFor t (done ++ [id]) = (playsFor t done).map (OrderedMap.adjustEntry c fun p =>
      { p with tasks := p.tasks ++ (t.scriptsOf id).map (taskFor t) }) := by
  simp only [playsFor, Topology.computesOf_append_software done hid, List.map_map]
  refine List.map_congr_left fun compute _ => ?_
  rw [Topology.scriptsOn_append, hc]
  by_cases h : compute = c
  · subst h
    simp [OrderedMap.adjustEntry, playFor]
  · simp [OrderedMap.adjustEntry, h, Ne.symm h]

/-- Where nothing is placed, nothing is added. -/
theorem playsFor_unplaced (hid : (t.component id).isA .compute = false)
    (hc : t.placed? id = none) : playsFor t (done ++ [id]) = playsFor t done := by
  simp only [playsFor, Topology.computesOf_append_software done hid,
    Topology.scriptsOn_append_unplaced done hc]

end Visit

/-- The plays of a visit are those of the computes, each with the tasks of its scripts. -/
theorem plays_of_visit (ht : job.model.topology.Built) {w : σ} {s' : Assembly Plays × σ}
    (h : Yields ((visitor job).visitComponents job.model.topology) ({ built := .empty }, w) () s') :
    ∃ order, job.model.topology.hostingOrder = .ok order ∧
      s'.1.built.toList = playsFor job.model.topology order := by
  refine Visitor.exists_order_of_hosts
    (p := fun done plays => plays.toList = playsFor job.model.topology done) rfl ht
    (handles_addCompute job.model.topology) (fun id hid => handles_addSoftware hid) rfl
    (fun done id rest plays plays' horder hid hplays hr => ?_)
    (fun done id rest plays plays' _ hid hplays hr => ?_) h
  · have hnew : id ∉ plays.keys := by
      rw [keys_of_playsFor hplays]
      exact fun hmem => Topology.next_not_mem ht horder (List.mem_filter.mp hmem).1
    rw [hr, OrderedMap.toList_insert_of_notMem hnew, hplays, playsFor_compute ht horder hid]
  · cases hc : job.model.topology.placed? id with
    | none =>
      rw [hc] at hr
      rw [hr, hplays, playsFor_unplaced hid hc]
    | some c =>
      rw [hc] at hr
      rw [hr, OrderedMap.toList_adjust, hplays, playsFor_software hid hc]

/-- **Each script becomes one task, in the play of the compute that it runs on.** A run that
succeeds writes a playbook that has nothing else. -/
theorem playsFor_of_run (ht : job.model.topology.Built) {w w' : σ} {p : Progress}
    (h : ((lifecycle job).run .idle).run w = ((.ok (), p), w')) :
    ∃ order plays, job.model.topology.hostingOrder = .ok order ∧
      plays.toList = playsFor job.model.topology order ∧
      job.Delivers [(playbookFile, Yaml.write (playbook plays))] w' := by
  obtain ⟨plays, visited, w₁, w₂, w₃, hvisit, hwrite, hrelease⟩ := Job.exists_visit_of_run h
  obtain ⟨order, horder, hplays⟩ := plays_of_visit ht hvisit
  exact ⟨order, plays, horder, hplays, Job.delivers_of_write hwrite hrelease⟩

end Provision.Ansible
