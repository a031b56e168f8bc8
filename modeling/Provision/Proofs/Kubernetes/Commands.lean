import Provision.Proofs.Kubernetes.Environments

/-! The scripts that a container executes.

An image runs a script while it is made, or hands it to the container as the command to run
when it starts. All scripts of a stack are copied into its image. Those of the operation
`start` are not run while it is made, and each of them takes the place of the command: the
stack has one command, and any number of components with any number of such scripts. So the
last one in hosting order is executed, and an earlier one only by accident, if another
script that is executed lies at the same path. -/
namespace Provision.Kubernetes
open Build
open Yaml (Value)

variable {σ : Type} {job : Job (StateM σ)}

/-! ### What an image executes -/

/-- A script at a path of the image is run when the image is made, or when the container starts. -/
def Stack.Executes (s : Stack) (path : String) : Prop :=
  .run path ∈ s.instructions ∨ s.command = some path

/-- A script that is left to the container. -/
def Script.starts (x : Script) : Bool := x.operation = "start"

/-- What a script adds to the description of an image. -/
def Script.instructions (x : Script) : List Instruction :=
  if x.starts then [.copy x.source x.destination]
  else [.copy x.source x.destination, .run x.destination]

/-- What the container runs, of some scripts: the last one that is left to it. -/
def command? (xs : List Script) : Option String :=
  (xs.filter Script.starts).getLast?.map Script.destination

/-- Of some scripts, one at a path is run while the image is made, or is what the container runs. -/
def Executed (xs : List Script) (path : String) : Prop :=
  (∃ x ∈ xs, x.operation ≠ "start" ∧ x.destination = path) ∨ command? xs = some path

instance (xs : List Script) (path : String) : Decidable (Executed xs path) :=
  inferInstanceAs (Decidable (_ ∨ _))

/-- A stack has some scripts, in this order, and no others. -/
structure Stack.Carries (s : Stack) (xs : List Script) : Prop where
  instructions : s.instructions = xs.flatMap Script.instructions
  command : s.command = command? xs

section Carries
variable {s : Stack} {xs : List Script}

theorem Stack.Carries.add (h : s.Carries xs) (x : Script) : (s.add x).Carries (xs ++ [x]) := by
  unfold Stack.add
  by_cases hx : x.operation = "start"
  · rw [if_pos hx]
    refine ⟨?_, ?_⟩
    · simp [Stack.startScript, h.instructions, Script.instructions, Script.starts, hx]
    · simp [Stack.startScript, command?, Script.starts, hx]
  · rw [if_neg hx]
    refine ⟨?_, ?_⟩
    · simp [Stack.runScript, h.instructions, Script.instructions, Script.starts, hx]
    · simp [Stack.runScript, h.command, command?, Script.starts, hx]

theorem Stack.Carries.foldl_add (h : s.Carries xs) (ys : List Script) :
    (ys.foldl Stack.add s).Carries (xs ++ ys) := by
  induction ys generalizing s xs with
  | nil => rwa [List.append_nil]
  | cons y rest ih =>
    rw [List.append_cons]
    exact ih (h.add y)

theorem Stack.Carries.host (h : s.Carries xs) (c : Component) (port : Option UInt16)
    (ys : List Script) : (s.host c port ys).Carries (xs ++ ys) := by
  obtain ⟨ready, heq, _, _, hinstructions, hcommand, _⟩ := s.exists_ready c port ys
  have hready : ready.Carries xs :=
    ⟨hinstructions.trans h.instructions, hcommand.trans h.command⟩
  rw [heq]
  exact hready.foldl_add ys

/-- Exactly the scripts of a stack are copied into its image. -/
theorem Stack.Carries.copy_mem (h : s.Carries xs) {source destination : String} :
    .copy source destination ∈ s.instructions ↔
      ∃ x ∈ xs, x.source = source ∧ x.destination = destination := by
  rw [h.instructions, List.mem_flatMap]
  refine exists_congr fun x => and_congr_right fun _ => ?_
  unfold Script.instructions
  split <;> simp [eq_comm]

theorem Stack.Carries.executes_iff (h : s.Carries xs) {path : String} :
    s.Executes path ↔ Executed xs path := by
  rw [Stack.Executes, h.instructions, h.command, List.mem_flatMap]
  refine or_congr_left (exists_congr fun x => and_congr_right fun _ => ?_)
  unfold Script.instructions Script.starts
  by_cases hx : x.operation = "start" <;> simp [hx, eq_comm]

/-- All scripts are executed if those that are left to the container are. -/
theorem Stack.Carries.all_executed_iff (h : s.Carries xs) :
    (∀ source destination, .copy source destination ∈ s.instructions → s.Executes destination) ↔
      ∀ x ∈ xs, x.operation = "start" → Executed xs x.destination := by
  constructor
  · intro hall x hx _
    exact h.executes_iff.mp (hall x.source x.destination (h.copy_mem.mpr ⟨x, hx, rfl, rfl⟩))
  · intro hstarts source destination hcopy
    obtain ⟨x, hx, rfl, rfl⟩ := h.copy_mem.mp hcopy
    refine h.executes_iff.mpr ?_
    by_cases hstart : x.operation = "start"
    · exact hstarts x hx hstart
    · exact .inl ⟨x, hx, hstart, rfl⟩

/-- If no more than one script is left to the container, it is the one that the container runs. -/
theorem command?_eq_of_length_le (hone : (xs.filter Script.starts).length ≤ 1) {x : Script}
    (hx : x ∈ xs) (hstart : x.operation = "start") : command? xs = some x.destination := by
  have hmem : x ∈ xs.filter Script.starts :=
    List.mem_filter.mpr ⟨hx, by simp [Script.starts, hstart]⟩
  obtain ⟨y, hy⟩ := List.length_eq_one_iff.mp
    (Nat.le_antisymm hone (List.length_pos_of_mem hmem))
  rw [hy, List.mem_singleton] at hmem
  rw [command?, hy, hmem]
  rfl

end Carries

/-! ### The visit -/

/-- The scripts of a compute, as its stack has them. -/
def scriptsFor (t : Topology) (order : List ComponentId) (c : ComponentId) : List Script :=
  (t.scriptsOn order c).map (scriptFor t)

/-- A compute begins with a stack without scripts. -/
def OpensBare (s s' : State) : Prop :=
  ∃ stack : Stack, stack.Carries [] ∧ s'.graph.nodes = s.graph.nodes.push stack

theorem handles_addCompute_bare (id : ComponentId) :
    Handles (addCompute job id (job.model.topology.component id)) id fun s s' =>
      Opens job.model.topology id s s' ∧ OpensBare s s' := by
  refine (handles_addCompute id).and ((handles_addCompute id).carries_once fun s s' h => ?_)
  obtain ⟨image, _, h⟩ := yields_ofExcept_bind.mp h
  obtain ⟨⟨node, graph⟩, hnode, h⟩ := yields_ofExcept_bind.mp (yields_built_bind.mp h)
  obtain ⟨_, rfl, rfl⟩ := OutputGraph.addNode_eq_ok.mp hnode
  rw [yields_change] at h
  subst h
  exact ⟨_, ⟨rfl, rfl⟩, rfl⟩

/-- The stacks and their scripts once some components are done. -/
structure CommandsFor (t : Topology) (done : List ComponentId) (s : State) : Prop where
  placed : StacksFor t done s
  each : List.Forall₂ (fun c stack => stack.Carries (scriptsFor t done c))
    (t.computesOf done) s.graph.nodes.toList

section Visit
variable {t : Topology} {done rest : List ComponentId} {id : ComponentId} {s s' : State}

theorem CommandsFor.compute (h : CommandsFor t done s) (ht : t.Built)
    (horder : t.hostingOrder = .ok (done ++ id :: rest))
    (hid : (t.component id).isA .compute = true) (hs : Opens t id s s') (hbare : OpensBare s s') :
    CommandsFor t (done ++ [id]) s' := by
  obtain ⟨stack, hstack, hnodes⟩ := hbare
  refine ⟨h.placed.compute ht horder hid hs, ?_⟩
  simp only [scriptsFor, hnodes, Array.toList_push, t.computesOf_append_compute done hid,
    Topology.scriptsOn_append_compute done hid]
  refine List.rel_append h.each (.cons ?_ .nil)
  rwa [scriptsFor, Topology.scriptsOn_next ht horder]

theorem CommandsFor.software (h : CommandsFor t done s) (ht : t.Built)
    (horder : t.hostingOrder = .ok (done ++ id :: rest))
    (hid : (t.component id).isA .compute = false) (hs : Joins t id s s') :
    CommandsFor t (done ++ [id]) s' := by
  refine ⟨h.placed.software ht horder hid hs, hs.forall₂ ht horder hid h.placed.known h.each
    (fun c port stack hc hstack => ?_) fun c stack hc hstack => ?_⟩
  · rw [scriptsFor, Topology.scriptsOn_append, if_pos hc, List.map_append]
    exact hstack.host _ port _
  · rwa [scriptsFor, Topology.scriptsOn_append, if_neg hc, List.append_nil]

end Visit

theorem commandsFor_of_visit (ht : job.model.topology.Built) {w : σ} {s' : Assembly State × σ}
    (h : Yields ((visitor job).visitComponents job.model.topology) ({ built := {} }, w) () s') :
    ∃ order, job.model.topology.hostingOrder = .ok order ∧
      CommandsFor job.model.topology order s'.1.built := by
  refine Visitor.exists_order_of_hosts (p := CommandsFor job.model.topology) rfl ht
    handles_addCompute_bare (fun id hid => handles_addSoftware hid)
    ⟨⟨.nil, fun c node hnode => ?_⟩, .nil⟩
    (fun done id rest s s' horder hid hs hr => hs.compute ht horder hid hr.1 hr.2)
    (fun done id rest s s' horder hid hs hr => hs.software ht horder hid hr) h
  cases hnode

/-- A run that succeeds makes a stack for each compute, with the scripts that run on it. -/
theorem carries_of_run (ht : job.model.topology.Built) {w w' : σ} {p : Progress}
    (h : ((lifecycle job).run .idle).run w = ((.ok (), p), w')) :
    ∃ order, ∃ made : List Stack, job.model.topology.hostingOrder = .ok order ∧
      made.map Stack.compute = job.model.topology.computesOf order ∧
      job.Delivers (made.flatMap fun s =>
        filesOf s (job.model.topology.stackEnvironment order s.compute)) w' ∧
      ∀ s ∈ made, s.Carries (scriptsFor job.model.topology order s.compute) := by
  obtain ⟨s, visited, w₁, w₂, w₃, hvisit, hwrite, hrelease⟩ := Job.exists_visit_of_run h
  obtain ⟨order, horder, hfinished⟩ := finished_of_visit ht hvisit
  obtain ⟨_, s₁, hcomponents, hrelations⟩ := yields_bind.mp hvisit
  obtain ⟨_, hsame, hcommands⟩ := commandsFor_of_visit ht hcomponents
  cases horder.symm.trans hsame
  have hnodes : s.graph.nodes = s₁.1.built.graph.nodes := (kept_of_acceptRelations hrelations).1
  refine ⟨order, s.graph.nodes.toList, horder, hfinished.map_compute, ⟨w₂, w₃, ?_, hrelease⟩, ?_⟩
  · rw [← hfinished.files_eq ht horder]
    exact hwrite
  · have hcarries := hcommands.each
    rwa [← hnodes, ← hfinished.map_compute, List.forall₂_map_left_iff, List.forall₂_same]
      at hcarries

/-! ### The run -/

/-- **Of the scripts that start a container, the last one is executed.** The image of each stack
that a successful run makes has copies of the scripts that run on its compute, and of nothing else.
It executes those of other operations, and one of `start`: the last one in hosting order. So all of
its scripts are executed exactly if each script of `start` is that one, or lies at the path of a
script that is executed. That is so wherever no more than one of them runs on the compute. -/
theorem scripts_executed {name : String} {g : EntityGraph}
    (hbuild : Model.build name g = .ok job.model) {w w' : σ} {p : Progress}
    (h : ((lifecycle job).run .idle).run w = ((.ok (), p), w')) :
    ∃ order, ∃ made : List Stack, job.model.topology.hostingOrder = .ok order ∧
      made.map Stack.compute = job.model.topology.computesOf order ∧
      job.Delivers (made.flatMap fun s =>
        filesOf s (job.model.topology.stackEnvironment order s.compute)) w' ∧
      ∀ s ∈ made, ∃ xs, xs = scriptsFor job.model.topology order s.compute ∧
        (∀ source destination, .copy source destination ∈ s.instructions ↔
          ∃ x ∈ xs, x.source = source ∧ x.destination = destination) ∧
        (∀ path, s.Executes path ↔ Executed xs path) ∧
        ((∀ source destination, .copy source destination ∈ s.instructions →
            s.Executes destination) ↔
          ∀ x ∈ xs, x.operation = "start" → Executed xs x.destination) ∧
        ((xs.filter Script.starts).length ≤ 1 →
          ∀ source destination, .copy source destination ∈ s.instructions →
            s.Executes destination) := by
  obtain ⟨order, made, horder, hmade, hdelivers, hcarries⟩ :=
    carries_of_run (Model.built_of_build hbuild) h
  refine ⟨order, made, horder, hmade, hdelivers, fun s hs => ⟨_, rfl, ?_⟩⟩
  have hstack := hcarries s hs
  refine ⟨fun _ _ => hstack.copy_mem, fun _ => hstack.executes_iff, hstack.all_executed_iff,
    fun hone => hstack.all_executed_iff.mpr fun x hx hstart => ?_⟩
  exact .inr (command?_eq_of_length_le hone hx hstart)

/-- A database and an application on one machine, both with a script that starts them. -/
def startsDocument : Value :=
  let software (operations : List (String × Value)) : Value :=
    BuiltIn.mapping
      [(Key.type, .string "software_component"), (Key.operations, BuiltIn.mapping operations),
        (Key.relations, .sequence [BuiltIn.mapping [("hosted_on", .string "vm")]])]
  BuiltIn.mapping
    [(Key.components, BuiltIn.mapping
        [("vm", BuiltIn.mapping [(Key.type, .string "compute")]),
          ("db", software [("start", .string "start.sh")]),
          ("app", software [("create", .string "fetch.sh"), ("start", .string "start.sh")])])]

/-- The description of their image. -/
def startsImage : String :=
  "FROM ubuntu:latest\n" ++
  "COPY db/start.sh /opt/db/start.sh\n" ++
  "COPY app/fetch.sh /opt/app/fetch.sh\n" ++
  "RUN chmod +x /opt/app/fetch.sh && /opt/app/fetch.sh\n" ++
  "COPY app/start.sh /opt/app/start.sh\n" ++
  "CMD [\"/opt/app/start.sh\"]\n"

/-- The model of two components that are started, and what its run leaves. -/
theorem exists_run_starts : ∃ g model p w', EntityGraph.ofValue true startsDocument = .ok g ∧
    Model.build "starts" g = .ok model ∧
    ((lifecycle (webJob model)).run .idle).run {} = ((.ok (), p), w') ∧
    w'.files.get? "vm/Dockerfile" = some startsImage ∧
    model.topology.hostingOrder = .ok [0, 1, 2] ∧ model.topology.computesOf [0, 1, 2] = [0] ∧
    Executed (scriptsFor model.topology [0, 1, 2] 0) "/opt/app/fetch.sh" ∧
    Executed (scriptsFor model.topology [0, 1, 2] 0) "/opt/app/start.sh" ∧
    ¬ Executed (scriptsFor model.topology [0, 1, 2] 0) "/opt/db/start.sh" ∧
    (scriptsFor model.topology [0, 1, 2] 0).map (fun x => (x.source, x.destination)) =
      [("db/start.sh", "/opt/db/start.sh"), ("app/fetch.sh", "/opt/app/fetch.sh"),
        ("app/start.sh", "/opt/app/start.sh")] := by
  have hstarts : (((EntityGraph.ofValue true startsDocument).mapError
      (.unreadableModel "starts.yaml") >>= Model.build "starts").map fun m =>
        [succeeds lifecycle m,
          (((lifecycle (webJob m)).run .idle).run {}).2.files.get? "vm/Dockerfile" =
            some startsImage,
          m.topology.hostingOrder.toOption = some [0, 1, 2],
          m.topology.computesOf [0, 1, 2] = [0],
          Executed (scriptsFor m.topology [0, 1, 2] 0) "/opt/app/fetch.sh",
          Executed (scriptsFor m.topology [0, 1, 2] 0) "/opt/app/start.sh",
          ¬ Executed (scriptsFor m.topology [0, 1, 2] 0) "/opt/db/start.sh",
          (scriptsFor m.topology [0, 1, 2] 0).map (fun x => (x.source, x.destination)) =
            [("db/start.sh", "/opt/db/start.sh"), ("app/fetch.sh", "/opt/app/fetch.sh"),
              ("app/start.sh", "/opt/app/start.sh")]]) = .ok (List.replicate 8 true) := by
    decide +kernel
  obtain ⟨g, model, hg, hbuild, hall⟩ := exists_model_of_map hstarts
  simp only [List.replicate, List.cons.injEq, decide_eq_true_eq, toOption_eq_some, and_true]
    at hall
  obtain ⟨hsucceeds, hfile, hfacts⟩ := hall
  obtain ⟨p, w', hrun⟩ := run_of_succeeds hsucceeds
  rw [hrun] at hfile
  exact ⟨g, model, p, w', hg, hbuild, hrun, hfile, hfacts⟩

theorem scripts_executed_starts : ∃ g model, ∃ made : List Stack, ∃ p w',
    EntityGraph.ofValue true startsDocument = .ok g ∧ Model.build "starts" g = .ok model ∧
    ((lifecycle (webJob model)).run .idle).run {} = ((.ok (), p), w') ∧
    made.map Stack.compute = [0] ∧
    (webJob model).Delivers (made.flatMap fun s =>
      filesOf s (model.topology.stackEnvironment [0, 1, 2] s.compute)) w' ∧
    ∀ s ∈ made, s.Executes "/opt/app/fetch.sh" ∧ s.Executes "/opt/app/start.sh" ∧
      ¬ s.Executes "/opt/db/start.sh" := by
  obtain ⟨g, model, p, w', hg, hbuild, hrun, _, horder, hcomputes, hfetch, hstart, hlost, _⟩ :=
    exists_run_starts
  have hjob : Model.build "starts" g = .ok (webJob model).model := hbuild
  obtain ⟨_, made, hsame, hmade, hdelivers, hexecuted⟩ := scripts_executed hjob hrun
  cases horder.symm.trans hsame
  refine ⟨g, model, made, p, w', hg, hbuild, hrun, hmade.trans hcomputes, hdelivers,
    fun s hs => ?_⟩
  obtain ⟨_, rfl, _, hiff, _⟩ := hexecuted s hs
  have hcompute : s.compute = 0 := by
    have hmem := List.mem_map_of_mem (f := Stack.compute) hs
    rwa [hmade, show (webJob model).model = model from rfl, hcomputes, List.mem_singleton] at hmem
  rw [hiff, hiff, hiff, hcompute]
  exact ⟨hfetch, hstart, hlost⟩

/-- The script that starts the database is copied into the image, and nothing executes it. -/
theorem start_overwritten : ∃ g model, ∃ made : List Stack, ∃ p w',
    EntityGraph.ofValue true startsDocument = .ok g ∧ Model.build "starts" g = .ok model ∧
    ((lifecycle (webJob model)).run .idle).run {} = ((.ok (), p), w') ∧
    (webJob model).Delivers (made.flatMap fun s =>
      filesOf s (model.topology.stackEnvironment [0, 1, 2] s.compute)) w' ∧
    w'.files.get? "vm/Dockerfile" = some startsImage ∧
    ∃ s ∈ made, .copy "db/start.sh" "/opt/db/start.sh" ∈ s.instructions ∧
      ¬ s.Executes "/opt/db/start.sh" := by
  obtain ⟨g, model, p, w', hg, hbuild, hrun, hfile, horder, hcomputes, _, _, hlost, hscripts⟩ :=
    exists_run_starts
  have ht : (webJob model).model.topology.Built := Model.built_of_build hbuild
  obtain ⟨_, made, hsame, hmade, hdelivers, hcarries⟩ := carries_of_run ht hrun
  cases horder.symm.trans hsame
  obtain ⟨s, hs, hcompute⟩ : ∃ s ∈ made, s.compute = 0 := by
    refine List.mem_map.mp ?_
    rw [hmade, show (webJob model).model = model from rfl, hcomputes]
    exact List.mem_singleton_self 0
  have hstack : s.Carries (scriptsFor model.topology [0, 1, 2] 0) := hcompute ▸ hcarries s hs
  have hcopied : ("db/start.sh", "/opt/db/start.sh") ∈
      (scriptsFor model.topology [0, 1, 2] 0).map fun x => (x.source, x.destination) := by
    rw [hscripts]
    exact List.mem_cons_self
  obtain ⟨x, hx, hpaths⟩ := List.mem_map.mp hcopied
  obtain ⟨hsource, hdestination⟩ := Prod.mk.inj hpaths
  exact ⟨g, model, made, p, w', hg, hbuild, hrun, hdelivers, hfile, s, hs,
    hstack.copy_mem.mpr ⟨x, hx, hsource, hdestination⟩, fun h => hlost (hstack.executes_iff.mp h)⟩

end Provision.Kubernetes
