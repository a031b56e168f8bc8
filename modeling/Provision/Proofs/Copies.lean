import Provision.Proofs.Placement
import Provision.Proofs.Workspace.Copies

/-! The files of copied scripts.

Along the hosting order, software on a compute copies its scripts in the order in which
they run, and nothing else that is written before the end touches the files. A backend
names a copy by the component and by the last part of the path of the script. The files
that it generates in the end have names of another shape, so they replace no script. -/
namespace Provision
open Build
open Yaml (Value)

variable {σ : Type} {job : Job (StateM σ)} {source? : Files} {file? : σ → Files}

/-- The scripts of what runs on computes, in the order of some components. -/
def Topology.scriptsIn (t : Topology) (l : List ComponentId) : List PlacedScript :=
  (l.filter fun id => (t.placed? id).isSome).flatMap t.scriptsOf

section ScriptsIn
variable {t : Topology} {id : ComponentId} (l : List ComponentId)

theorem Topology.scriptsIn_placed {c : ComponentId} (h : t.placed? id = some c) :
    t.scriptsIn (l ++ [id]) = t.scriptsIn l ++ t.scriptsOf id := by
  simp [scriptsIn, h]

theorem Topology.scriptsIn_unplaced (h : t.placed? id = none) :
    t.scriptsIn (l ++ [id]) = t.scriptsIn l := by
  simp [scriptsIn, h]

theorem Topology.mem_scriptsIn {s : PlacedScript} :
    s ∈ t.scriptsIn l ↔ ∃ c, s ∈ t.scriptsOn l c := by
  simp only [scriptsIn, scriptsOn, List.mem_flatMap, List.mem_filter, Option.isSome_iff_exists,
    decide_eq_true_eq]
  constructor
  · rintro ⟨id, ⟨hid, c, hc⟩, hs⟩
    exact ⟨c, id, ⟨hid, hc⟩, hs⟩
  · rintro ⟨c, id, ⟨hid, hc⟩, hs⟩
    exact ⟨id, ⟨hid, c, hc⟩, hs⟩

end ScriptsIn

theorem Topology.scriptsOf_eq (t : Topology) (id : ComponentId) :
    t.scriptsOf id = (t.component id).scriptedOperations.flatMap fun o =>
      o.artifacts.flatMap fun a => [{ component := id, operation := o, artifact := a }] := by
  have hscripts := t.map_scriptsOf id fun s => s
  rw [List.map_id'] at hscripts
  rw [hscripts]
  simp only [List.map_eq_flatMap]

/-- A step copies each script of a component. -/
theorem copies_of_scripts {γ : Type} {t : Topology} {id : ComponentId}
    {path : PlacedScript → String} {f : Operation → Artifact → ExceptT Fault (StateM σ) γ}
    (hf : ∀ o a w r w', Ends (f o a) w r w' →
      Copies source? path [⟨id, o, a⟩] (file? w) (file? w'))
    {w w' : σ} {rs : List (List γ)}
    (h : Ends ((t.component id).scriptedOperations.mapM fun o => o.artifacts.mapM (f o)) w rs w') :
    Copies source? path (t.scriptsOf id) (file? w) (file? w') := by
  rw [t.scriptsOf_eq]
  exact copies_of_mapM (fun o w r w' ho => copies_of_mapM (hf o) ho) h

/-- What a component copies, if it runs on a compute. -/
def Moves (source? : Files) (file? : σ → Files) (t : Topology) (path : PlacedScript → String)
    (id : ComponentId) (w w' : σ) : Prop :=
  match t.placed? id with
  | none => w' = w
  | some _ => Copies source? path (t.scriptsOf id) (file? w) (file? w')

theorem Copies.append {t : Topology} {path : PlacedScript → String} {done : List ComponentId}
    {id : ComponentId} {w w₁ w₂ : σ}
    (h : Copies source? path (t.scriptsIn done) (file? w) (file? w₁))
    (hid : Moves source? file? t path id w₁ w₂) :
    Copies source? path (t.scriptsIn (done ++ [id])) (file? w) (file? w₂) := by
  unfold Moves at hid
  cases hc : t.placed? id with
  | none =>
    rw [hc] at hid
    rwa [hid, t.scriptsIn_unplaced done hc]
  | some c =>
    rw [hc] at hid
    rw [t.scriptsIn_placed done hc]
    exact h.trans hid

/-- Visitors of hosts that copy scripts, whatever they build. -/
theorem copies_of_visit {β : Type} {v : Visitor (Build β (StateM σ))}
    {compute software : ComponentId → Component → Build β (StateM σ) Unit} {target : String}
    {t : Topology} {path : PlacedScript → String} {start : β} {w : σ} {s' : Assembly β × σ}
    (hv : v.component? = (Visitor.onHosts target compute software).component?) (ht : t.Built)
    (hopens : ∀ id, Carries (compute id (t.component id)) id fun s s' => s'.2 = s.2)
    (hjoins : ∀ id, (t.component id).isA .compute = false →
      Carries (software id (t.component id)) id fun s s' =>
        Moves source? file? t path id s.2 s'.2)
    (h : Yields (v.visitComponents t) ({ built := start }, w) () s') :
    ∃ order, t.hostingOrder = .ok order ∧
      Copies source? path (t.scriptsIn order) (file? w) (file? s'.2) := by
  refine Visitor.exists_order_of_carries
    (p := fun done s => Copies source? path (t.scriptsIn done) (file? w) (file? s.2)) hv ht hopens
    hjoins (.refl _) (fun done id rest s s' _ hid hs hr => ?_)
    (fun done id rest s s' _ _ hs hr => hs.append hr) h
  rw [hr, t.scriptsIn_unplaced done (Topology.placed?_of_isA hid)]
  exact hs

namespace Ansible

/-- The file that the task of a script runs. -/
def copyPath (t : Topology) (s : PlacedScript) : String := (taskFor t s).script

theorem copies_of_tasksOf (hkeeps : job.workspace.Keeps source? file?) {t : Topology}
    {id : ComponentId} {environment : OrderedMap String String} {w w' : σ} {tasks : List Task}
    (h : Ends (tasksOf job (t.component id) environment) w tasks w') :
    Copies source? (copyPath t) (t.scriptsOf id) (file? w) (file? w') := by
  obtain ⟨taskss, w₁, hmap, h⟩ := ends_bind.mp h
  obtain ⟨_, rfl⟩ := ends_pure.mp h
  refine copies_of_scripts (fun o a w r w' ha => ?_) hmap
  obtain ⟨text, w₁, hread, ha⟩ := ends_bind.mp ha
  obtain ⟨_, w₂, hwrite, ha⟩ := ends_bind.mp ha
  obtain ⟨_, rfl⟩ := ends_pure.mp ha
  exact hkeeps.copy ⟨id, o, a⟩ hread hwrite

theorem copies_of_visit (hkeeps : job.workspace.Keeps source? file?)
    (ht : job.model.topology.Built) {w : σ} {s' : Assembly Plays × σ}
    (h : Yields ((visitor job).visitComponents job.model.topology) ({ built := .empty }, w) () s') :
    ∃ order, job.model.topology.hostingOrder = .ok order ∧
      Copies source? (copyPath job.model.topology) (job.model.topology.scriptsIn order)
        (file? w) (file? s'.2) := by
  refine Provision.copies_of_visit rfl ht
    (fun id => (handles_addCompute job.model.topology id).carries_once fun s s' hid => ?_)
    (fun id hid => (handles_addSoftware hid).carries_once fun s s' hsoftware => ?_) h
  · rw [yields_change] at hid
    subst hid
    rfl
  · obtain ⟨compute?, hcompute, hsoftware⟩ := yields_ofExcept_bind.mp hsoftware
    unfold Moves
    rw [Topology.placed?_of_computeOf hid hcompute]
    cases compute? with
    | none =>
      obtain ⟨_, rfl⟩ := yields_pure.mp hsoftware
      rfl
    | some c =>
      obtain ⟨tasks, w₁, htasks, hsoftware⟩ := yields_lift_bind.mp hsoftware
      rw [yields_change] at hsoftware
      subst hsoftware
      exact copies_of_tasksOf hkeeps htasks

theorem copyPath_ne (t : Topology) (s : PlacedScript) : playbookFile ≠ copyPath t s := by
  intro h
  have hfirst := congrArg (fun p => p.toList.head?) h
  simp [playbookFile, copyPath, taskFor, scriptPath] at hfirst

/-- **Of the scripts copied to one path, the playbook runs the last one.** -/
theorem kept_of_run (hkeeps : job.workspace.Keeps source? file?)
    (ht : job.model.topology.Built) {w w' : σ} {p : Progress}
    (h : ((lifecycle job).run .idle).run w = ((.ok (), p), w')) :
    ∃ order plays, job.model.topology.hostingOrder = .ok order ∧
      plays.toList = playsFor job.model.topology order ∧
      job.Delivers [(playbookFile, Yaml.write (playbook plays))] w' ∧
      Kept source? (copyPath job.model.topology) (job.model.topology.scriptsIn order)
        (file? w') := by
  obtain ⟨plays, visited, w₁, w₂, w₃, hvisit, hwrite, hrelease⟩ := Job.exists_visit_of_run h
  obtain ⟨order, horder, hplays⟩ := plays_of_visit ht hvisit
  obtain ⟨_, horder', hcopies⟩ := copies_of_visit hkeeps ht hvisit
  cases horder.symm.trans horder'
  refine ⟨order, plays, horder, hplays, Job.delivers_of_write hwrite hrelease,
    hcopies.kept fun s _ => ?_⟩
  rw [hkeeps.release _ _ hrelease, hkeeps.write _ _ _ _ hwrite,
    Function.update_of_ne (copyPath_ne _ s).symm]

end Ansible

/-! ### Names without slashes -/

theorem slash_not_mem_label (s : String) :
    '/' ∉ (Kubernetes.Stack.label (Text.identifier s)).toList := by
  rw [Kubernetes.Stack.label, Text.swap, String.toList_ofList]
  intro h
  obtain ⟨c, hc, heq⟩ := List.mem_map.mp h
  split at heq
  · cases heq
  · subst heq
    exact Text.notMem_identifier rfl s hc

namespace Azure

/-- The file that the command of a script runs. All of them are loaded from one directory. -/
def copyPath (t : Topology) (s : PlacedScript) : String := "scripts/" ++ (stepFor t s).file

theorem copies_of_addScripts (hkeeps : job.workspace.Keeps source? file?) {t : Topology}
    {id compute : ComponentId} {environment : OrderedMap String String}
    {s s' : Assembly State × σ}
    (h : Yields ((t.component id).scriptedOperations.forM fun o =>
      o.artifacts.forM (addScript job compute (t.component id) environment)) s () s') :
    Copies source? (copyPath t) (t.scriptsOf id) (file? s.2) (file? s'.2) := by
  rw [t.scriptsOf_eq]
  refine yields_forM_invariant (p := fun done s₁ => Copies source? (copyPath t)
    (done.flatMap fun o => o.artifacts.flatMap fun a => [⟨id, o, a⟩]) (file? s.2) (file? s₁.2))
      ?_ h (.refl _)
  intro done o rest s₁ s₂ _ hdone ho
  rw [List.flatMap_append, List.flatMap_singleton]
  refine hdone.trans ?_
  refine yields_forM_invariant (p := fun done s => Copies source? (copyPath t)
    (done.flatMap fun a => [⟨id, o, a⟩]) (file? s₁.2) (file? s.2)) ?_ ho (.refl _)
  intro done a rest s₃ s₄ _ hdone ha
  rw [List.flatMap_append, List.flatMap_singleton]
  obtain ⟨text, w₁, hread, ha⟩ := yields_lift_bind.mp ha
  obtain ⟨_, w₂, hwrite, ha⟩ := yields_lift_bind.mp ha
  rw [yields_change] at ha
  subst ha
  exact hdone.trans (hkeeps.copy ⟨id, o, a⟩ hread hwrite)

theorem copies_of_visit (hkeeps : job.workspace.Keeps source? file?)
    (ht : job.model.topology.Built) {w : σ} {s' : Assembly State × σ}
    (h : Yields ((visitor job).visitComponents job.model.topology) ({ built := {} }, w) () s') :
    ∃ order, job.model.topology.hostingOrder = .ok order ∧
      Copies source? (copyPath job.model.topology) (job.model.topology.scriptsIn order)
        (file? w) (file? s'.2) := by
  refine Provision.copies_of_visit rfl ht
    (fun id => (handles_addCompute id).carries_once fun s s' hid => ?_)
    (fun id hid => (handles_addSoftware hid).carries_once fun s s' hsoftware => ?_) h
  · obtain ⟨tree, _, hid⟩ := yields_ofExcept_bind.mp hid
    rw [yields_change] at hid
    subst hid
    rfl
  · obtain ⟨compute?, hcompute, hsoftware⟩ := yields_ofExcept_bind.mp hsoftware
    unfold Moves
    rw [Topology.placed?_of_computeOf hid hcompute]
    cases compute? with
    | none =>
      obtain ⟨_, rfl⟩ := yields_pure.mp hsoftware
      rfl
    | some c =>
      have hadded := copies_of_addScripts hkeeps (yields_change_bind.mp hsoftware)
      exact hadded

theorem copyPath_ne (model : Model) (t : Topology) (s : PlacedScript) :
    templateFile model ≠ copyPath t s := by
  intro h
  have hslash : '/' ∉ (templateFile model).toList := by
    rw [templateFile, String.toList_append, List.mem_append, not_or]
    exact ⟨Text.notMem_identifier rfl _, by decide⟩
  rw [h, copyPath, String.toList_append] at hslash
  exact hslash (List.mem_append_left _ (by decide))

/-- **Of the scripts copied to one path, the extension runs the last one.** -/
theorem kept_of_run (hkeeps : job.workspace.Keeps source? file?)
    (ht : job.model.topology.Built) {w w' : σ} {p : Progress}
    (h : ((lifecycle job).run .idle).run w = ((.ok (), p), w')) :
    ∃ order template, job.model.topology.hostingOrder = .ok order ∧
      ExtensionsFor job order template ∧
      job.Delivers [(templateFile job.model, template.toJson.pretty)] w' ∧
      Kept source? (copyPath job.model.topology) (job.model.topology.scriptsIn order)
        (file? w') := by
  obtain ⟨s, visited, w₁, w₂, w₃, hvisit, hwrite, hrelease⟩ := Job.exists_visit_of_run h
  obtain ⟨order, horder, hscripts⟩ := scriptsFor_of_visit ht hvisit
  obtain ⟨_, horder', hcopies⟩ := copies_of_visit hkeeps ht hvisit
  cases horder.symm.trans horder'
  refine ⟨order, template job.model s, horder,
    ⟨extensions_perm hscripts ht horder, fun c hc => machineFor_mem hscripts hc⟩,
    Job.delivers_of_write hwrite hrelease, hcopies.kept fun x _ => ?_⟩
  rw [hkeeps.release _ _ hrelease, hkeeps.write _ _ _ _ hwrite,
    Function.update_of_ne (copyPath_ne _ _ x).symm]

end Azure

namespace Kubernetes

/-- The file that a script is copied from into the image. An image is made in the directory of
the stack. -/
def copyPath (t : Topology) (s : PlacedScript) : String :=
  let directory := match t.placed? s.component with
    | some c => Stack.label (t.component c).identifier
    | none => ""
  directory ++ "/" ++ (scriptFor t s).source

theorem copies_of_copyScripts (hkeeps : job.workspace.Keeps source? file?) {t : Topology}
    {id c : ComponentId} (hc : t.placed? id = some c) {w w' : σ} {scripts : List Script}
    (h : Ends (copyScripts job (Stack.label (t.component c).identifier) (t.component id))
      w scripts w') :
    Copies source? (copyPath t) (t.scriptsOf id) (file? w) (file? w') := by
  obtain ⟨scriptss, w₁, hmap, h⟩ := ends_bind.mp h
  obtain ⟨_, rfl⟩ := ends_pure.mp h
  refine copies_of_scripts (fun o a w r w' ha => ?_) hmap
  obtain ⟨text, w₁, hread, ha⟩ := ends_bind.mp ha
  obtain ⟨_, w₂, hwrite, ha⟩ := ends_bind.mp ha
  obtain ⟨_, rfl⟩ := ends_pure.mp ha
  refine hkeeps.copy ⟨id, o, a⟩ hread ?_
  unfold copyPath
  rw [hc]
  exact hwrite

theorem copies_of_components (hkeeps : job.workspace.Keeps source? file?)
    (ht : job.model.topology.Built) {w : σ} {s' : Assembly State × σ}
    (h : Yields ((visitor job).visitComponents job.model.topology) ({ built := {} }, w) () s') :
    ∃ order, job.model.topology.hostingOrder = .ok order ∧
      StacksFor job.model.topology order s'.1.built ∧
      Copies source? (copyPath job.model.topology) (job.model.topology.scriptsIn order)
        (file? w) (file? s'.2) := by
  have hopens (id : ComponentId) :
      Carries (addCompute job id (job.model.topology.component id)) id fun s s' =>
        Opens job.model.topology id s.1 s'.1 ∧ s'.2 = s.2 := by
    refine (handles_addCompute id).and ((handles_addCompute id).carries_once fun s s' hid => ?_)
    obtain ⟨image, _, hid⟩ := yields_ofExcept_bind.mp hid
    obtain ⟨node, _, hid⟩ := yields_ofExcept_bind.mp (yields_built_bind.mp hid)
    rw [yields_change] at hid
    subst hid
    rfl
  have hjoins (id : ComponentId) (hid : (job.model.topology.component id).isA .compute = false) :
      Carries (addSoftware job id (job.model.topology.component id)) id fun s s' =>
        Joins job.model.topology id s.1 s'.1 ∧ ∀ done, StacksFor job.model.topology done s.1 →
          Moves source? file? job.model.topology (copyPath job.model.topology) id s.2 s'.2 := by
    refine (handles_addSoftware hid).and
      ((handles_addSoftware hid).carries_once fun s s' hsoftware done hstacks => ?_)
    have hsoftware := yields_built_bind.mp hsoftware
    obtain ⟨node, hstack, hsoftware⟩ := yields_ofExcept_bind.mp hsoftware
    obtain ⟨port, _, hsoftware⟩ := yields_ofExcept_bind.mp hsoftware
    obtain ⟨scripts, w₁, hscripts, hsoftware⟩ := yields_lift_bind.mp hsoftware
    rw [yields_change] at hsoftware
    subst hsoftware
    obtain ⟨c, hof, hnode⟩ := stackOf_eq_ok.mp hstack
    have hc := Topology.placed?_of_computeOf hid hof
    rw [hstacks.nameOf_eq hnode] at hscripts
    unfold Moves
    rw [hc]
    exact copies_of_copyScripts hkeeps hc hscripts
  refine Visitor.exists_order_of_carries
    (p := fun done s => StacksFor job.model.topology done s.1 ∧
      Copies source? (copyPath job.model.topology) (job.model.topology.scriptsIn done)
        (file? w) (file? s.2)) rfl ht hopens hjoins ⟨⟨.nil, fun c node hnode => ?_⟩, .refl _⟩
    (fun done id rest s s' horder hid hs hr => ⟨hs.1.compute ht horder hid hr.1, ?_⟩)
    (fun done id rest s s' horder hid hs hr =>
      ⟨hs.1.software ht horder hid hr.1, hs.2.append (hr.2 done hs.1)⟩) h
  · cases hnode
  · rw [hr.2, Topology.scriptsIn_unplaced done (Topology.placed?_of_isA hid)]
    exact hs.2

/-- The number of slashes in a path. -/
def slashes (path : String) : Nat := path.toList.count '/'

theorem slashes_append (a b : String) : slashes (a ++ b) = slashes a + slashes b := by
  rw [slashes, String.toList_append, List.count_append]
  rfl

theorem slashes_label (s : String) : slashes (Stack.label (Text.identifier s)) = 0 :=
  List.count_eq_zero.mpr (slash_not_mem_label s)

theorem two_le_slashes_copyPath (t : Topology) (s : PlacedScript) : 2 ≤ slashes (copyPath t s) := by
  have hslash : slashes "/" = 1 := rfl
  rw [copyPath, scriptFor, slashes_append, slashes_append, slashes_append, slashes_append, hslash]
  omega

theorem slashes_of_mem_filesOf {s : Stack} (hname : slashes s.name = 0)
    {environment : OrderedMap String String} {file : String × String}
    (h : file ∈ filesOf s environment) : slashes file.1 = 1 := by
  have hslash : slashes "/" = 1 := rfl
  have hyaml : slashes ".yaml" = 0 := rfl
  have hdockerfile : slashes "/Dockerfile" = 1 := rfl
  have hmanifest (suffix : String) (hsuffix : slashes suffix = 0) :
      slashes (s.name ++ "/" ++ (s.name ++ suffix) ++ ".yaml") = 1 := by
    rw [slashes_append, slashes_append, slashes_append, slashes_append, hname, hsuffix, hslash,
      hyaml]
  rcases List.mem_append.mp h with h | h
  · rcases List.mem_pair.mp h with rfl | rfl
    · rw [slashes_append, hname, hdockerfile]
    · exact hmanifest "-deployment" rfl
  · split at h
    · cases h
    · cases List.mem_singleton.mp h
      exact hmanifest "-service" rfl

/-- **Of the scripts copied to one path, the stack runs the last one.** -/
theorem kept_of_run (hkeeps : job.workspace.Keeps source? file?)
    (ht : job.model.topology.Built) {w w' : σ} {p : Progress}
    (h : ((lifecycle job).run .idle).run w = ((.ok (), p), w')) :
    ∃ order graph, job.model.topology.hostingOrder = .ok order ∧
      List.Forall₂ (fun c stack => StackFor job.model.topology c
          (job.model.topology.scriptsOn order c) stack)
        (job.model.topology.computesOf order) graph.nodes.toList ∧
      job.Delivers (files graph) w' ∧
      Kept source? (copyPath job.model.topology) (job.model.topology.scriptsIn order)
        (file? w') := by
  obtain ⟨s, visited, w₁, w₂, w₃, hvisit, hwrite, hrelease⟩ := Job.exists_visit_of_run h
  obtain ⟨_, s₁, hcomponents, hrelations⟩ := yields_bind.mp hvisit
  obtain ⟨order, horder, hstacks, hcopies⟩ := copies_of_components hkeeps ht hcomponents
  obtain ⟨hnodes, _, hworld⟩ :
      s.graph.nodes = s₁.1.built.graph.nodes ∧ s.nodeOf = s₁.1.built.nodeOf ∧ w₂ = s₁.2 :=
    kept_of_acceptRelations hrelations
  have heach := hnodes ▸ hstacks.each
  refine ⟨order, s.graph, horder, heach, ⟨w₂, w₃, hwrite, hrelease⟩, hcopies.kept fun x _ => ?_⟩
  rw [hkeeps.release _ _ hrelease, ← hworld]
  refine hkeeps.of_writes (fun file hfile heq => ?_) hwrite
  obtain ⟨⟨stack, node⟩, hstack, hfile⟩ := List.mem_flatMap.mp hfile
  have hmem := List.mem_of_getElem? (List.mem_zipIdx_iff_getElem?.mp hstack)
  obtain ⟨c, _, hfor⟩ := exists_mem_of_forall₂ heach.flip hmem
  have hone := slashes_of_mem_filesOf (hfor.name ▸ slashes_label _) hfile
  have htwo := two_le_slashes_copyPath job.model.topology x
  rw [heq] at hone
  omega

end Kubernetes

/-! ### All backends -/

/-- **A file holds the script that was copied to it last.** After a run that succeeds, the steps
of a backend all run what is in the sources exactly if the scripts that are copied to one file
have the same text. -/
theorem copies_kept {name : String} {g : EntityGraph}
    (hbuild : Model.build name g = .ok job.model) (hkeeps : job.workspace.Keeps source? file?) :
    (∀ order s, s ∈ job.model.topology.scriptsIn order ↔
      ∃ c, s ∈ job.model.topology.scriptsOn order c) ∧
    (∀ w w' p, ((Ansible.lifecycle job).run .idle).run w = ((.ok (), p), w') →
      ∃ order plays, job.model.topology.hostingOrder = .ok order ∧
        plays.toList = Ansible.playsFor job.model.topology order ∧
        job.Delivers [(Ansible.playbookFile, Yaml.write (Ansible.playbook plays))] w' ∧
        Kept source? (Ansible.copyPath job.model.topology)
          (job.model.topology.scriptsIn order) (file? w')) ∧
    (∀ w w' p, ((Kubernetes.lifecycle job).run .idle).run w = ((.ok (), p), w') →
      ∃ order graph, job.model.topology.hostingOrder = .ok order ∧
        List.Forall₂ (fun c stack => Kubernetes.StackFor job.model.topology c
          (job.model.topology.scriptsOn order c) stack)
          (job.model.topology.computesOf order) graph.nodes.toList ∧
        job.Delivers (Kubernetes.files graph) w' ∧
        Kept source? (Kubernetes.copyPath job.model.topology)
          (job.model.topology.scriptsIn order) (file? w')) ∧
    (∀ w w' p, ((Azure.lifecycle job).run .idle).run w = ((.ok (), p), w') →
      ∃ order template, job.model.topology.hostingOrder = .ok order ∧
        Azure.ExtensionsFor job order template ∧
        job.Delivers [(Azure.templateFile job.model, template.toJson.pretty)] w' ∧
        Kept source? (Azure.copyPath job.model.topology)
          (job.model.topology.scriptsIn order) (file? w')) := by
  have ht := Model.built_of_build hbuild
  refine ⟨fun order s => Topology.mem_scriptsIn order, fun w w' p h => ?_, fun w w' p h => ?_,
    fun w w' p h => ?_⟩
  · exact Ansible.kept_of_run hkeeps ht h
  · exact Kubernetes.kept_of_run hkeeps ht h
  · exact Azure.kept_of_run hkeeps ht h

/-- The sources of an application with three scripts. -/
def webSetup : Memory.Setup :=
  { sources := .ofList [("start.sh", "serve"), ("fetch.sh", "fetch"), ("unpack.sh", "unpack")] }

theorem copies_kept_web : ∃ g model order, EntityGraph.ofValue true webDocument = .ok g ∧
    Model.build "web" g = .ok model ∧ model.topology.hostingOrder = .ok order ∧
    (∃ p w', ((Ansible.lifecycle (webJob model)).run .idle).run {} = ((.ok (), p), w') ∧
      Kept webSetup.source? (Ansible.copyPath model.topology) (model.topology.scriptsIn order)
        w'.file? ∧
      ∀ s ∈ model.topology.scriptsIn order,
        w'.file? (Ansible.copyPath model.topology s) = webSetup.source? s.artifact.value) ∧
    (∃ p w', ((Kubernetes.lifecycle (webJob model)).run .idle).run {} = ((.ok (), p), w') ∧
      Kept webSetup.source? (Kubernetes.copyPath model.topology) (model.topology.scriptsIn order)
        w'.file?) ∧
    (∃ p w', ((Azure.lifecycle (webJob model)).run .idle).run {} = ((.ok (), p), w') ∧
      Kept webSetup.source? (Azure.copyPath model.topology) (model.topology.scriptsIn order)
        w'.file?) := by
  have hweb : (((EntityGraph.ofValue true webDocument).mapError (.unreadableModel "web.yaml") >>=
      Model.build "web").map fun m =>
        (m.topology.hostingOrder.toOption.map fun order =>
          (m.topology.scriptsIn order).map (Ansible.copyPath m.topology),
        succeeds Ansible.lifecycle m, succeeds Kubernetes.lifecycle m,
        succeeds Azure.lifecycle m)) =
      .ok (some ["files/app/fetch.sh", "files/app/unpack.sh", "files/app/start.sh"],
        true, true, true) := by
    decide +kernel
  obtain ⟨model, hm, hall⟩ := map_eq_ok.mp hweb
  obtain ⟨g, hg, hbuild⟩ := bind_eq_ok.mp hm
  obtain ⟨hpaths, hansible, hkubernetes, hazure⟩ : _ ∧ _ ∧ _ ∧ _ := by
    simpa only [Prod.mk.injEq] using hall
  obtain ⟨p₁, w₁, hansible⟩ := run_of_succeeds hansible
  obtain ⟨p₂, w₂, hkubernetes⟩ := run_of_succeeds hkubernetes
  obtain ⟨p₃, w₃, hazure⟩ := run_of_succeeds hazure
  have hjob : Model.build "web" g = .ok (webJob model).model := hbuild
  have hkeeps : (webJob model).workspace.Keeps webSetup.source? Memory.Store.file? :=
    Memory.keeps webSetup
  obtain ⟨_, honAnsible, honKubernetes, honAzure⟩ := copies_kept hjob hkeeps
  obtain ⟨order, _, horder, _, _, hkept₁⟩ := honAnsible _ _ _ hansible
  obtain ⟨_, _, horder₂, _, _, hkept₂⟩ := honKubernetes _ _ _ hkubernetes
  obtain ⟨_, _, horder₃, _, _, hkept₃⟩ := honAzure _ _ _ hazure
  cases horder.symm.trans horder₂
  cases horder.symm.trans horder₃
  have hfound : model.topology.hostingOrder = .ok order := horder
  rw [hfound] at hpaths
  have hpaths : (model.topology.scriptsIn order).map (Ansible.copyPath model.topology) =
      ["files/app/fetch.sh", "files/app/unpack.sh", "files/app/start.sh"] :=
    Option.some.inj hpaths
  have hdistinct : ((model.topology.scriptsIn order).map
      (Ansible.copyPath model.topology)).Nodup := by
    rw [hpaths]
    decide
  refine ⟨g, model, order, mapError_eq_ok.mp hg, hbuild, horder,
    ⟨p₁, w₁, hansible, hkept₁, hkept₁.all_iff.mpr fun s hs s' hs' hpath => ?_⟩,
    ⟨p₂, w₂, hkubernetes, hkept₂⟩, ⟨p₃, w₃, hazure, hkept₃⟩⟩
  rw [List.inj_on_of_nodup_map hdistinct hs hs' hpath]

/-- An application with two scripts of one name. -/
def clashDocument : Value :=
  BuiltIn.mapping
    [(Key.components, BuiltIn.mapping
        [("vm", BuiltIn.mapping [(Key.type, .string "compute")]),
          ("app", BuiltIn.mapping
            [(Key.type, .string "software_component"),
              (Key.operations, BuiltIn.mapping
                [("create", .string "a/run.sh"), ("start", .string "b/run.sh")]),
              (Key.relations, .sequence [BuiltIn.mapping [("hosted_on", .string "vm")]])])])]

def clashSetup : Memory.Setup :=
  { sources := .ofList [("a/run.sh", "first"), ("b/run.sh", "second")] }

def clashJob (model : Model) : Job Memory.M :=
  { webJob model with workspace := Memory.workspace clashSetup }

/-- What is left of a script after a run. -/
structure Remnant where
  script : String
  source : Option String
  /-- The file that the step of the script refers to. -/
  file : String
  held : Option String
  deriving DecidableEq

/-- What is left of the scripts after a run that succeeds. -/
def remnants? (backend : Job Memory.M → Lifecycle Memory.M)
    (path : Topology → PlacedScript → String) (model : Model) (order : List ComponentId) :
    Option (List Remnant) :=
  let ((result, _), store) := ((backend (clashJob model)).run .idle).run {}
  result.toOption.map fun _ =>
    (model.topology.scriptsIn order).map fun s =>
      { script := s.artifact.value, source := clashSetup.source? s.artifact.value,
        file := path model.topology s, held := store.file? (path model.topology s) }

/-- Of two scripts of one name the second one replaces the first one. -/
theorem clash_overwritten : (((EntityGraph.ofValue true clashDocument).mapError
    (.unreadableModel "clash.yaml") >>= Model.build "clash").map fun model =>
      model.topology.hostingOrder.toOption.map fun order =>
        (remnants? Ansible.lifecycle Ansible.copyPath model order,
          remnants? Kubernetes.lifecycle Kubernetes.copyPath model order,
          remnants? Azure.lifecycle Azure.copyPath model order)) =
    .ok (some
      (some [⟨"a/run.sh", some "first", "files/app/run.sh", some "second"⟩,
          ⟨"b/run.sh", some "second", "files/app/run.sh", some "second"⟩],
        some [⟨"a/run.sh", some "first", "vm/app/run.sh", some "second"⟩,
          ⟨"b/run.sh", some "second", "vm/app/run.sh", some "second"⟩],
        some [⟨"a/run.sh", some "first", "scripts/app_run.sh", some "second"⟩,
          ⟨"b/run.sh", some "second", "scripts/app_run.sh", some "second"⟩])) := by
  decide +kernel

end Provision
