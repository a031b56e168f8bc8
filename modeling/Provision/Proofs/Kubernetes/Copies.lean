import Provision.Kubernetes.Backend
import Provision.Proofs.Backend.Success
import Provision.Proofs.Data.Except
import Provision.Proofs.Data.OrderedMap
import Provision.Proofs.Output.Graph

/-! The copied scripts of a container stack.

Along the hosting order, the stacks are those of the computes that are done, and a stack
copies exactly the scripts that are done and run on its compute. The edges that follow the
components connect stacks and leave what is in them alone. -/
namespace Provision.Kubernetes
open Build

variable {σ : Type} {job : Job (StateM σ)}

def Instruction.isCopy : Instruction → Bool
  | .copy _ _ => true
  | .run _ => false

/-- The instruction that copies a script into the image. -/
def copyFor (t : Topology) (s : PlacedScript) : Instruction :=
  let path := (t.component s.component).identifier ++ "/" ++ s.artifact.fileName
  .copy path ("/opt/" ++ path)

/-- A stack is that of a compute and copies some scripts. -/
structure StackFor (t : Topology) (c : ComponentId) (scripts : List PlacedScript)
    (s : Stack) : Prop where
  compute : s.compute = c
  name : s.name = Stack.label (t.component c).identifier
  copies : s.instructions.filter Instruction.isCopy = scripts.map (copyFor t)

/-! ### What a component adds -/

theorem Stack.add_compute (s : Stack) (x : Script) : (s.add x).compute = s.compute := by
  unfold Stack.add
  split <;> rfl

theorem Stack.add_name (s : Stack) (x : Script) : (s.add x).name = s.name := by
  unfold Stack.add
  split <;> rfl

theorem Stack.add_copies (s : Stack) (x : Script) :
    (s.add x).instructions.filter Instruction.isCopy =
      s.instructions.filter Instruction.isCopy ++ [.copy x.source x.destination] := by
  unfold Stack.add
  split
  · exact List.filter_append ..
  · exact List.filter_append ..

theorem Stack.add_environment (s : Stack) (x : Script) :
    (s.add x).environment = s.environment := by
  unfold Stack.add
  split <;> rfl

/-- Scripts are copied in order, whether they start the container or not. -/
theorem Stack.foldl_add (scripts : List Script) (s : Stack) :
    (scripts.foldl Stack.add s).compute = s.compute ∧ (scripts.foldl Stack.add s).name = s.name ∧
      (scripts.foldl Stack.add s).environment = s.environment ∧
      (scripts.foldl Stack.add s).instructions.filter Instruction.isCopy =
        s.instructions.filter Instruction.isCopy ++
          scripts.map fun x => .copy x.source x.destination := by
  induction scripts generalizing s with
  | nil => simp
  | cons x rest ih =>
    obtain ⟨hcompute, hname, henvironment, hcopies⟩ := ih (s.add x)
    rw [List.foldl_cons, hcompute, hname, henvironment, hcopies, s.add_compute, s.add_name,
      s.add_environment, s.add_copies, List.append_assoc]
    exact ⟨rfl, rfl, rfl, rfl⟩

/-- Before its scripts, a component adds its variables and its port. -/
theorem Stack.exists_ready (s : Stack) (c : Component) (port : Option UInt16)
    (scripts : List Script) :
    ∃ ready : Stack, s.host c port scripts = scripts.foldl Stack.add ready ∧
      ready.compute = s.compute ∧ ready.name = s.name ∧ ready.instructions = s.instructions ∧
      ready.command = s.command ∧ ready.environment = s.environment.merge c.environment := by
  refine ⟨_, rfl, ?_⟩
  cases port with
  | none => exact ⟨rfl, rfl, rfl, rfl, rfl⟩
  | some p =>
    show ((s.declare c.environment).expose p).compute = _ ∧
      ((s.declare c.environment).expose p).name = _ ∧
      ((s.declare c.environment).expose p).instructions = _ ∧
      ((s.declare c.environment).expose p).command = _ ∧
      ((s.declare c.environment).expose p).environment = _
    unfold Stack.expose
    split <;> exact ⟨rfl, rfl, rfl, rfl, rfl⟩

/-- Neither a port nor scripts change what a stack declares. -/
theorem Stack.host_environment (s : Stack) (c : Component) (port : Option UInt16)
    (scripts : List Script) :
    (s.host c port scripts).environment = s.environment.merge c.environment := by
  obtain ⟨ready, heq, _, _, _, _, henvironment⟩ := s.exists_ready c port scripts
  rw [heq, (Stack.foldl_add scripts ready).2.2.1, henvironment]

/-- The copy of a script, with where it comes from and goes to. -/
def scriptFor (t : Topology) (s : PlacedScript) : Script :=
  let path := (t.component s.component).identifier ++ "/" ++ s.artifact.fileName
  { operation := s.operation.name, source := path, destination := "/opt/" ++ path }

theorem StackFor.host {t : Topology} {compute : ComponentId} {placed added : List PlacedScript}
    {s : Stack} (h : StackFor t compute placed s) (c : Component) (port : Option UInt16) :
    StackFor t compute (placed ++ added) (s.host c port (added.map (scriptFor t))) := by
  obtain ⟨ready, heq, hcompute, hname, hinstructions, _⟩ :=
    s.exists_ready c port (added.map (scriptFor t))
  obtain ⟨hcompute', hname', _, hcopies⟩ := Stack.foldl_add (added.map (scriptFor t)) ready
  rw [heq]
  refine ⟨?_, ?_, ?_⟩
  · rw [hcompute', hcompute, h.compute]
  · rw [hname', hname, h.name]
  · rw [hcopies, hinstructions, h.copies, List.map_append, List.map_map]
    rfl

theorem copyScript_eq {id : ComponentId} {directory : String} {o : Operation} {a : Artifact}
    {t : Topology} {w w' : σ} {x : Script}
    (h : Ends (copyScript job directory (t.component id) o a) w x w') :
    x = scriptFor t { component := id, operation := o, artifact := a } := by
  obtain ⟨_, _, _, h⟩ := ends_bind.mp h
  obtain ⟨_, _, _, h⟩ := ends_bind.mp h
  exact (ends_pure.mp h).1.symm

theorem copyScripts_eq {id : ComponentId} {directory : String} {t : Topology} {w w' : σ}
    {scripts : List Script}
    (h : Ends (copyScripts job directory (t.component id)) w scripts w') :
    scripts = (t.scriptsOf id).map (scriptFor t) := by
  obtain ⟨scriptss, w₁, hmap, h⟩ := ends_bind.mp h
  obtain ⟨rfl, _⟩ := ends_pure.mp h
  have hscriptss := eq_map_of_ends_mapM (fun o _ _ _ ho =>
    eq_map_of_ends_mapM (fun a _ _ _ ha => copyScript_eq ha) ho) hmap
  rw [hscriptss, Topology.map_scriptsOf, List.flatMap_def]

/-- What a compute does to the stacks. -/
def Opens (t : Topology) (id : ComponentId) (s s' : State) : Prop :=
  ∃ stack, StackFor t id [] stack ∧ stack.environment = .empty ∧ stack.name ∉ s.graph.names ∧
    s' = { graph := { s.graph with nodes := s.graph.nodes.push stack }
           nodeOf := s.nodeOf.insert id s.graph.size }

/-- What software does to the stacks. -/
def Joins (t : Topology) (id : ComponentId) (s s' : State) : Prop :=
  ∃ c node port, t.placed? id = some c ∧ s.nodeOf.get? c = some node ∧
    s' = { s with
      graph := s.graph.adjust node fun stack =>
        stack.host (t.component id) port ((t.scriptsOf id).map (scriptFor t)) }

/-- The stack of a component is that of the compute that it resolves to. -/
theorem stackOf_eq_ok {t : Topology} {s : State} {id : ComponentId} {node : NodeId} :
    stackOf t s id = .ok node ↔
      ∃ c, t.computeOf id = .ok (some c) ∧ s.nodeOf.get? c = some node := by
  unfold stackOf
  rw [bind_eq_ok]
  constructor
  · rintro ⟨_ | c, hof, h⟩
    · cases h
    · cases hnode : s.nodeOf.get? c with
      | none =>
        rw [Option.bind_some, hnode] at h
        cases h
      | some found =>
        rw [Option.bind_some, hnode] at h
        cases h
        exact ⟨c, hof, hnode⟩
  · rintro ⟨c, hof, hnode⟩
    refine ⟨some c, hof, ?_⟩
    rw [Option.bind_some, hnode]
    rfl

theorem handles_addCompute (id : ComponentId) :
    Handles (addCompute job id (job.model.topology.component id)) id
      (Opens job.model.topology id) := by
  refine handles_once fun s s' h => ?_
  obtain ⟨image, _, h⟩ := yields_ofExcept_bind.mp h
  obtain ⟨⟨node, graph⟩, hnode, h⟩ := yields_ofExcept_bind.mp (yields_built_bind.mp h)
  obtain ⟨hnew, rfl, rfl⟩ := OutputGraph.addNode_eq_ok.mp hnode
  rw [yields_change] at h
  subst h
  let stack : Stack :=
    { name := Stack.label (job.model.topology.component id).identifier, compute := id,
      baseImage := image }
  exact ⟨⟨stack, ⟨rfl, rfl, rfl⟩, rfl, hnew, rfl⟩, rfl⟩

theorem handles_addSoftware {id : ComponentId}
    (hid : (job.model.topology.component id).isA .compute = false) :
    Handles (addSoftware job id (job.model.topology.component id)) id
      (Joins job.model.topology id) := by
  refine handles_once fun s s' h => ?_
  have h := yields_built_bind.mp h
  obtain ⟨node, hstack, h⟩ := yields_ofExcept_bind.mp h
  obtain ⟨port, _, h⟩ := yields_ofExcept_bind.mp h
  obtain ⟨scripts, w, hscripts, h⟩ := yields_lift_bind.mp h
  rw [yields_change, copyScripts_eq hscripts] at h
  subst h
  obtain ⟨c, hof, hnode⟩ := stackOf_eq_ok.mp hstack
  exact ⟨⟨c, node, port, Topology.placed?_of_computeOf hid hof, hnode, rfl⟩, rfl⟩

/-! ### The visit -/

/-- The stacks once some components are done. -/
structure StacksFor (t : Topology) (done : List ComponentId) (s : State) : Prop where
  each : List.Forall₂ (fun c stack => StackFor t c (t.scriptsOn done c) stack)
    (t.computesOf done) s.graph.nodes.toList
  known : ∀ c node, s.nodeOf.get? c = some node → (t.computesOf done)[node]? = some c

section Visit
variable {t : Topology} {done rest : List ComponentId} {id : ComponentId} {s s' : State}

/-- What holds of the stacks of all computes holds once software has joined one of them, if it goes
on to hold of that one and of all others. -/
theorem Joins.forall₂ {r r' : ComponentId → Stack → Prop} (hs : Joins t id s s') (ht : t.Built)
    (horder : t.hostingOrder = .ok (done ++ id :: rest))
    (hid : (t.component id).isA .compute = false)
    (hknown : ∀ c node, s.nodeOf.get? c = some node → (t.computesOf done)[node]? = some c)
    (heach : List.Forall₂ r (t.computesOf done) s.graph.nodes.toList)
    (hjoined : ∀ c port stack, t.placed? id = some c → r c stack →
      r' c (stack.host (t.component id) port ((t.scriptsOf id).map (scriptFor t))))
    (hother : ∀ c stack, t.placed? id ≠ some c → r c stack → r' c stack) :
    List.Forall₂ r' (t.computesOf (done ++ [id])) s'.graph.nodes.toList := by
  obtain ⟨c, node, port, hc, hnode, rfl⟩ := hs
  have hnodup : (t.computesOf done).Nodup :=
    ((List.nodup_append.mp (Topology.hostingOrder_nodup ht horder)).1).filter _
  rw [t.computesOf_append_software done hid, OutputGraph.toList_nodes_adjust]
  refine forall₂_modify heach hnodup (hknown c node hnode) (fun stack => hjoined c port stack hc)
    fun other stack hne => hother other stack ?_
  rw [hc]
  exact fun heq => hne (Option.some.inj heq).symm

theorem StacksFor.compute (h : StacksFor t done s) (ht : t.Built)
    (horder : t.hostingOrder = .ok (done ++ id :: rest))
    (hid : (t.component id).isA .compute = true) (hs : Opens t id s s') :
    StacksFor t (done ++ [id]) s' := by
  obtain ⟨stack, hstack, _, _, rfl⟩ := hs
  have hcomputes := t.computesOf_append_compute done hid
  refine ⟨?_, fun c node hnode => ?_⟩
  · simp only [hcomputes, Topology.scriptsOn_append_compute done hid, Array.toList_push]
    refine List.rel_append h.each (.cons ?_ .nil)
    rwa [Topology.scriptsOn_next ht horder]
  · rw [hcomputes]
    rw [OrderedMap.get?_insert] at hnode
    split at hnode
    case isTrue hc =>
      cases hnode
      have hsize : s.graph.size = (t.computesOf done).length := by
        rw [OutputGraph.size, ← Array.length_toList, h.each.length_eq]
      rw [hsize, hc, List.getElem?_concat_length]
    case isFalse =>
      have hold := h.known c node hnode
      rw [List.getElem?_append_left (List.getElem?_eq_some_iff.mp hold).1, hold]

theorem StacksFor.software (h : StacksFor t done s) (ht : t.Built)
    (horder : t.hostingOrder = .ok (done ++ id :: rest))
    (hid : (t.component id).isA .compute = false) (hs : Joins t id s s') :
    StacksFor t (done ++ [id]) s' := by
  refine ⟨hs.forall₂ ht horder hid h.known h.each (fun c port stack hc hstack => ?_)
    fun c stack hc hstack => ?_, ?_⟩
  · rw [Topology.scriptsOn_append, if_pos hc]
    exact hstack.host _ port
  · rw [Topology.scriptsOn_append, if_neg hc, List.append_nil]
    exact hstack
  · obtain ⟨_, _, _, _, _, rfl⟩ := hs
    exact t.computesOf_append_software done hid ▸ h.known

/-- The node of a compute is its stack. -/
theorem StacksFor.nameOf_eq (h : StacksFor t done s) {c : ComponentId} {node : NodeId}
    (hnode : s.nodeOf.get? c = some node) :
    s.graph.nameOf node = Stack.label (t.component c).identifier := by
  obtain ⟨stack, hnode, hstack⟩ := getElem?_of_forall₂ h.each (h.known c node hnode)
  rw [OutputGraph.nameOf, OutputGraph.node?, ← Array.getElem?_toList, hnode]
  exact hstack.name

end Visit

theorem stacksFor_of_visit (ht : job.model.topology.Built) {w : σ} {s' : Assembly State × σ}
    (h : Yields ((visitor job).visitComponents job.model.topology) ({ built := {} }, w) () s') :
    ∃ order, job.model.topology.hostingOrder = .ok order ∧
      StacksFor job.model.topology order s'.1.built := by
  refine Visitor.exists_order_of_hosts (p := StacksFor job.model.topology) rfl ht
    handles_addCompute (fun id hid => handles_addSoftware hid) ⟨.nil, fun c node hnode => ?_⟩
    (fun done id rest s s' horder hid hs hr => hs.compute ht horder hid hr)
    (fun done id rest s s' horder hid hs hr => hs.software ht horder hid hr) h
  cases hnode

theorem keys_of_done (ht : job.model.topology.Built) {w : σ} {done rest : List ComponentId}
    {s : Assembly State × σ}
    (horder : job.model.topology.hostingOrder = .ok (done ++ rest))
    (h : Yields (done.forM fun id =>
      (visitor job).acceptComponent id (job.model.topology.component id))
      ({ built := {} }, w) () s) :
    s.1.built.nodeOf.keys = job.model.topology.computesOf done := by
  refine Visitor.keys_of_hosts (fun s => s.nodeOf.keys) rfl ht
    (fun id => (handles_addCompute id).imp fun s s' hs => ?_)
    (fun id hid => (handles_addSoftware hid).imp fun s s' hs => ?_) rfl horder h
  · obtain ⟨_, _, _, _, rfl⟩ := hs
    rw [OrderedMap.keys_insert]
  · obtain ⟨_, _, _, _, _, rfl⟩ := hs
    rfl

theorem keys_of_visit (ht : job.model.topology.Built) {w : σ} {s : Assembly State × σ}
    (h : Yields ((visitor job).visitComponents job.model.topology) ({ built := {} }, w) () s) :
    ∃ order, job.model.topology.hostingOrder = .ok order ∧
      s.1.built.nodeOf.keys = job.model.topology.computesOf order := by
  obtain ⟨order, horder, hdone⟩ := Visitor.exists_order_of_yields h
  have hall : job.model.topology.hostingOrder = .ok (order ++ []) := by
    rw [List.append_nil, horder]
  exact ⟨order, horder, keys_of_done ht hall hdone⟩

/-! ### Connections -/

/-- The graph once the stacks at two nodes are connected, if they are two. -/
def connected (g : OutputGraph Stack) (source target : NodeId) : OutputGraph Stack :=
  if source = target then g
  else ((g.addEdge source target (.relation .connectsTo)).2.addDependency source target).2

theorem nodes_connected (g : OutputGraph Stack) (source target : NodeId) :
    (connected g source target).nodes = g.nodes := by
  unfold connected
  split
  · rfl
  · rw [OutputGraph.addDependency, OutputGraph.nodes_addEdge, OutputGraph.nodes_addEdge]

/-- Of the relations, connections connect stacks, and all others do nothing. -/
theorem cases_of_acceptRelation {e : Edge} {s s' : Assembly State × σ}
    (h : Yields ((visitor job).acceptRelation e) s () s') :
    (e.kind ≠ .connectsTo ∧ s' = s) ∨
      (e.kind = .connectsTo ∧ ∃ source target,
        stackOf job.model.topology s.1.built e.source = .ok source ∧
        stackOf job.model.topology s.1.built e.target = .ok target ∧
        s' = ({ s.1 with built := { s.1.built with
          graph := connected s.1.built.graph source target } }, s.2)) := by
  unfold Visitor.acceptRelation at h
  cases hkind : e.kind
  case connectsTo =>
    rw [hkind] at h
    have h := yields_built_bind.mp h
    obtain ⟨source, hsource, h⟩ := yields_ofExcept_bind.mp h
    obtain ⟨target, htarget, h⟩ := yields_ofExcept_bind.mp h
    refine .inr ⟨rfl, source, target, hsource, htarget, ?_⟩
    unfold connected
    split at h
    case isTrue hne =>
      rw [yields_change] at h
      rw [h, if_neg hne]
    case isFalse heq =>
      rw [if_pos (Decidable.not_not.mp heq), (yields_pure.mp h).2]
  all_goals
    rw [hkind] at h
    obtain ⟨_, rfl⟩ := yields_pure.mp h
    exact .inl ⟨nofun, rfl⟩

/-- Edges touch neither what is in the stacks, nor whose stacks they are, nor the world. -/
theorem kept_of_acceptRelations {l : List Edge} {s s' : Assembly State × σ}
    (h : Yields (l.forM (visitor job).acceptRelation) s () s') :
    s'.1.built.graph.nodes = s.1.built.graph.nodes ∧ s'.1.built.nodeOf = s.1.built.nodeOf ∧
      s'.2 = s.2 := by
  refine yields_forM_invariant (p := fun _ s₁ =>
    s₁.1.built.graph.nodes = s.1.built.graph.nodes ∧ s₁.1.built.nodeOf = s.1.built.nodeOf ∧
      s₁.2 = s.2) ?_ h ⟨rfl, rfl, rfl⟩
  intro done e rest s₁ s₂ _ hdone he
  rcases cases_of_acceptRelation he with ⟨_, rfl⟩ | ⟨_, source, target, _, _, rfl⟩
  · exact hdone
  · exact ⟨(nodes_connected _ _ _).trans hdone.1, hdone.2⟩

/-- **Each script is copied once, into the stack of the compute that it runs on.** A run that
succeeds writes the files of these stacks, and they copy nothing else. -/
theorem stackFor_of_run (ht : job.model.topology.Built) {w w' : σ} {p : Progress}
    (h : ((lifecycle job).run .idle).run w = ((.ok (), p), w')) :
    ∃ order graph, job.model.topology.hostingOrder = .ok order ∧
      List.Forall₂ (fun c stack => StackFor job.model.topology c
          (job.model.topology.scriptsOn order c) stack)
        (job.model.topology.computesOf order) graph.nodes.toList ∧
      job.Delivers (files graph) w' := by
  obtain ⟨s, visited, w₁, w₂, w₃, hvisit, hwrite, hrelease⟩ := Job.exists_visit_of_run h
  obtain ⟨_, s₁, hcomponents, hrelations⟩ := yields_bind.mp hvisit
  obtain ⟨order, horder, hstacks⟩ := stacksFor_of_visit ht hcomponents
  have hnodes : s.graph.nodes = s₁.1.built.graph.nodes := (kept_of_acceptRelations hrelations).1
  exact ⟨order, s.graph, horder, hnodes ▸ hstacks.each, w₂, w₃, hwrite, hrelease⟩

end Provision.Kubernetes
