import Provision.Proofs.Backend.Failure
import Provision.Proofs.Placement

/-! Hosts come before what they host.

Every backend keeps something for each compute that it has handled: a server, a stack, a
play, a machine. When it comes to a component, it looks up what it keeps for the compute
that the component runs on. Since hosts come first, the computes that were handled are
exactly those that come earlier in the hosting order, and the compute of a component is
among them. So what is looked up is there, and whatever a backend does for want of it never
happens. -/
namespace Provision
open Build

variable {σ : Type} {job : Job (StateM σ)}

/-! ### A server for each compute -/

namespace Heat

/-- The fault for a component whose compute has no server. -/
def unvisited (compute component : String) : Fault :=
  .invalid ("compute '" ++ compute ++ "' was not visited before '" ++ component ++ "'")

theorem keys_of_reaches (ht : job.model.topology.Built) {w : σ} {done : List ComponentId}
    {id : ComponentId} {s : Assembly State × σ}
    (h : (visitor job).Reaches job.model.topology ({ built := {} }, w) done id s) :
    s.1.built.servers.keys = job.model.topology.computesOf done := by
  obtain ⟨⟨rest, horder⟩, hdone⟩ := h
  refine Visitor.keys_of_hosts (fun s => s.servers.keys) rfl ht
    (fun id => (handles_addCompute id).imp fun s s' hs => ?_) (fun id hid => ?_) rfl horder hdone
  · rw [hs.2, OrderedMap.keys_insert]
  · refine handles_once fun s s' h => ?_
    obtain ⟨compute?, _, h⟩ := yields_ofExcept_bind.mp h
    cases compute? with
    | none =>
      obtain ⟨_, rfl⟩ := yields_pure.mp h
      exact ⟨rfl, rfl⟩
    | some c =>
      have h := yields_built_bind.mp h
      cases hserver : s.1.built.servers.get? c with
      | none =>
        rw [hserver] at h
        exact absurd h yields_throw
      | some server =>
        rw [hserver] at h
        obtain ⟨hvisited, hservers⟩ := kept_of_deployments h
        exact ⟨by rw [hservers], hvisited⟩

theorem addResource_failsWithin (r : Resource) :
    FailsWithin (addResource r : Step (StateM σ) NodeId) job.CanFail :=
  .bind .built fun _ => .bind (.ofExcept fun _ => Job.canFail_of_addNode) fun _ =>
    .bind (.change _) fun _ => .pure _

theorem addCompute_failsWithin (id : ComponentId) (c : Component) :
    FailsWithin (addCompute job id c) job.CanFail := by
  refine .once ?_ id
  refine .bind (.forM fun _ _ => .change _) fun _ => ?_
  refine .bind (addResource_failsWithin _) fun _ => ?_
  refine .bind (addResource_failsWithin _) fun _ => ?_
  refine .bind (.change _) fun _ => ?_
  refine .bind (addResource_failsWithin _) fun _ => ?_
  refine .bind (.change _) fun _ => ?_
  refine .bind (addResource_failsWithin _) fun _ => ?_
  exact .bind (.change _) fun _ => .bind (.change _) fun _ => .change _

theorem deploy_failsWithin (c : Component) (server : NodeId) (inputs : OrderedMap String String)
    (o : Operation) (script : Artifact) :
    FailsWithin (deploy job c server inputs o script) job.CanFail := by
  refine .bind (.lift fun w f w' h => .workspace (.read h)) fun _ => ?_
  refine .bind (.change _) fun _ => .bind .built fun _ => ?_
  refine .bind (addResource_failsWithin _) fun _ => ?_
  refine .bind (addResource_failsWithin _) fun _ => ?_
  exact .bind (.change _) fun _ => .change _

/-- Software whose compute has a server does not fail for want of it. -/
theorem canFail_of_addSoftware {id : ComponentId} {c : Component} {s s' : Assembly State × σ}
    {f : Fault} (hserver : ∀ compute, job.model.topology.computeOf id = .ok (some compute) →
      compute ∈ s.1.built.servers.keys)
    (h : Stops (addSoftware job id c) s f s') : job.CanFail f := by
  have h := (stops_once.mp h).2
  rcases stops_ofExcept_bind.mp h with ⟨hof, _⟩ | ⟨compute?, hof, h⟩
  · exact Job.canFail_of_computeOf hof
  · cases compute? with
    | none => exact absurd h stops_pure
    | some compute =>
      obtain ⟨server, hfound⟩ := OrderedMap.exists_get?_eq_some (hserver compute hof)
      have h := stops_built_bind.mp h
      rw [hfound] at h
      refine FailsWithin.forM (fun o _ => ?_) _ _ _ h
      split
      · exact deploy_failsWithin _ _ _ _ _
      · exact .pure _

theorem canFail_of_visit (ht : job.model.topology.Built) {w : σ} {f : Fault}
    {s' : Assembly State × σ}
    (h : Stops ((visitor job).visitComponents job.model.topology) ({ built := {} }, w) f s') :
    job.CanFail f := by
  rcases Visitor.cases_of_stops h with horder | ⟨done, id, s, hreach, h⟩
  · exact Job.canFail_of_hostingOrder ht horder
  · obtain ⟨rest, horder⟩ := hreach.order
    rcases Visitor.cases_of_stops_onHosts rfl h with
      ⟨kind, entity, rfl⟩ | ⟨_, h⟩ | ⟨hid, h⟩
    · exact .unsupportedKind _ _ _
    · exact addCompute_failsWithin _ _ _ _ _ h
    · refine canFail_of_addSoftware (fun compute hof => ?_) h
      rw [keys_of_reaches ht hreach]
      exact Topology.mem_done_of_placed? ht horder (Topology.placed?_eq_some.mpr ⟨hid, hof⟩)

/-- Only a workspace can fail with the fault for a component whose compute has no server. -/
theorem raises_of_unvisited {compute component : String}
    (h : job.CanFail (unvisited compute component)) :
    job.workspace.Raises (unvisited compute component) := by
  generalize hf : unvisited compute component = f at h
  cases h with
  | workspace h => exact h
  | duplicateName name =>
    have hmessage := congrArg String.toList (Fault.invalid.inj hf)
    simp [String.toList_append] at hmessage
  | _ => cases hf

theorem canFail_of_run (ht : job.model.topology.Built) {w w' : σ} {p : Progress} {e : Error}
    (h : ((lifecycle job).run .idle).run w = ((.error e, p), w')) : job.CanFail e.fault :=
  Job.canFail_of_run (fun _ _ _ hf => absurd hf halts_pure) (fun _ _ _ hf => absurd hf halts_pure)
    (fun _ _ _ _ => Job.canFail_of_finish (fun _ _ _ => canFail_of_visit ht)
      fun _ _ _ _ hf => .workspace (.write hf)) h

end Heat

/-! ### A stack for each compute -/

namespace Kubernetes

/-- A model that is suitable has a compute for each component. -/
theorem exists_compute_of_checkModel {t : Topology} (h : checkModel t = .ok ())
    {id : ComponentId} (hid : id < t.size) : ∃ c, t.computeOf id = .ok (some c) := by
  obtain ⟨compute?, hof, h⟩ := bind_eq_ok.mp (forM_eq_ok.mp h id (Topology.mem_ids.mpr hid))
  cases compute? with
  | none => cases h
  | some c => exact ⟨c, hof⟩

theorem canFail_of_checkModel {t : Topology} {f : Fault} (h : checkModel t = .error f) :
    job.CanFail f := by
  obtain ⟨_, id, _, _, _, h⟩ := exists_of_forM_eq_error h
  rcases bind_eq_error.mp h with hof | ⟨compute?, _, h⟩
  · exact Job.canFail_of_computeOf hof
  · split at h
    · cases h
      exact .unsuitableModel _ _
    · cases h

theorem exists_stackOf {t : Topology} {s : State} {id c : ComponentId}
    (hof : t.computeOf id = .ok (some c)) (hc : c ∈ s.nodeOf.keys) :
    ∃ node, stackOf t s id = .ok node := by
  obtain ⟨node, hnode⟩ := OrderedMap.exists_get?_eq_some hc
  exact ⟨node, stackOf_eq_ok.mpr ⟨c, hof, hnode⟩⟩

theorem canFail_of_baseImage {c : Component} {f : Fault} (h : baseImage job c = .error f) :
    job.CanFail f := by
  unfold baseImage at h
  split at h
  · cases h
  · rcases bind_eq_error.mp h with h | ⟨_, _, h⟩
    · exact Job.canFail_of_read h
    · cases h

theorem addCompute_failsWithin (id : ComponentId) (c : Component) :
    FailsWithin (addCompute job id c) job.CanFail := by
  refine .once (.bind (.ofExcept fun _ => canFail_of_baseImage) fun _ => ?_) id
  exact .bind .built fun _ => .bind (.ofExcept fun _ => Job.canFail_of_addNode) fun _ => .change _

theorem canFail_of_copyScripts {directory : String} {c : Component} {w w' : σ} {f : Fault}
    (h : Halts (copyScripts job directory c) w f w') : job.CanFail f := by
  rcases halts_bind.mp h with h | ⟨_, _, _, h⟩
  · obtain ⟨o, _, _, h⟩ := exists_of_halts_mapM h
    obtain ⟨a, _, _, h⟩ := exists_of_halts_mapM h
    rcases halts_bind.mp h with h | ⟨_, _, _, h⟩
    · exact .workspace (.read h)
    · rcases halts_bind.mp h with h | ⟨_, _, _, h⟩
      · exact .workspace (.write h)
      · exact absurd h halts_pure
  · exact absurd h halts_pure

/-- Software that has a stack to join does not fail for want of it. -/
theorem canFail_of_addSoftware {id : ComponentId} {c : Component} {s s' : Assembly State × σ}
    {f : Fault} (hstack : ∃ node, stackOf job.model.topology s.1.built id = .ok node)
    (h : Stops (addSoftware job id c) s f s') : job.CanFail f := by
  obtain ⟨node, hnode⟩ := hstack
  have h := stops_built_bind.mp (stops_once.mp h).2
  rcases stops_ofExcept_bind.mp h with ⟨hnone, _⟩ | ⟨node, _, h⟩
  · cases hnone.symm.trans hnode
  · refine FailsWithin.bind (.ofExcept fun _ => Job.canFail_of_servicePort) (fun _ => ?_) _ _ _ h
    exact .bind (.lift fun _ _ _ => canFail_of_copyScripts) fun _ => .change _

/-- Nor does a connection whose two ends have stacks. -/
theorem not_stops_acceptRelation {e : Edge} {s s' : Assembly State × σ} {f : Fault}
    (hsource : ∃ node, stackOf job.model.topology s.1.built e.source = .ok node)
    (htarget : ∃ node, stackOf job.model.topology s.1.built e.target = .ok node) :
    ¬ Stops ((visitor job).acceptRelation e) s f s' := by
  obtain ⟨source, hsource⟩ := hsource
  obtain ⟨target, htarget⟩ := htarget
  intro h
  unfold Visitor.acceptRelation at h
  cases hkind : e.kind
  case connectsTo =>
    rw [hkind] at h
    have h := stops_built_bind.mp h
    rcases stops_ofExcept_bind.mp h with ⟨hnone, _⟩ | ⟨_, _, h⟩
    · cases hnone.symm.trans hsource
    · rcases stops_ofExcept_bind.mp h with ⟨hnone, _⟩ | ⟨_, _, h⟩
      · cases hnone.symm.trans htarget
      · split at h
        · exact stops_change h
        · exact stops_pure h
  all_goals
    rw [hkind] at h
    exact stops_pure h

/-- On a suitable model, a visit never misses the stack of a component. -/
theorem canFail_of_visit (ht : job.model.topology.Built)
    (hchecked : checkModel job.model.topology = .ok ()) {w : σ} {f : Fault}
    {s' : Assembly State × σ}
    (h : Stops ((visitor job).visit job.model.topology) ({ built := {} }, w) f s') :
    job.CanFail f := by
  rcases stops_bind.mp h with h | ⟨_, s, hcomponents, h⟩
  · rcases Visitor.cases_of_stops h with horder | ⟨done, id, s, ⟨⟨rest, horder⟩, hdone⟩, h⟩
    · exact Job.canFail_of_hostingOrder ht horder
    · rcases Visitor.cases_of_stops_onHosts rfl h with
        ⟨kind, entity, rfl⟩ | ⟨_, h⟩ | ⟨hid, h⟩
      · exact .unsupportedKind _ _ _
      · exact addCompute_failsWithin _ _ _ _ _ h
      · have hmem : id ∈ done ++ id :: rest := List.mem_append_right _ List.mem_cons_self
        have hlt := Topology.mem_ids.mp ((Topology.hostingOrder_perm ht horder).mem_iff.mp hmem)
        obtain ⟨c, hof⟩ := exists_compute_of_checkModel hchecked hlt
        refine canFail_of_addSoftware (exists_stackOf hof ?_) h
        rw [keys_of_done ht horder hdone]
        exact Topology.mem_done_of_placed? ht horder (Topology.placed?_eq_some.mpr ⟨hid, hof⟩)
  · obtain ⟨order, horder, hdone⟩ := keys_of_visit ht hcomponents
    obtain ⟨before, e, after, s₁, hedges, hbefore, h⟩ := exists_of_stops_forM h
    have hkeys : s₁.1.built.nodeOf.keys = job.model.topology.computesOf order := by
      rw [(kept_of_acceptRelations hbefore).2.1]
      exact hdone
    have hstack (id : ComponentId) (hid : id < job.model.topology.size) :
        ∃ node, stackOf job.model.topology s₁.1.built id = .ok node := by
      obtain ⟨c, hof⟩ := exists_compute_of_checkModel hchecked hid
      refine exists_stackOf hof ?_
      rw [hkeys]
      exact Topology.mem_computesOf_of_computeOf ht horder hid hof
    have he : e ∈ job.model.topology.edges := by
      rw [← Array.mem_toList_iff, hedges]
      exact List.mem_append_right _ List.mem_cons_self
    obtain ⟨hsource, htarget⟩ := ht.ends_lt e he
    exact absurd h (not_stops_acceptRelation (hstack _ hsource) (hstack _ htarget))

/-- Only a workspace can fail with the fault for a component without stack. -/
theorem raises_of_missingHost {component : String} (h : job.CanFail (.missingHost component)) :
    job.workspace.Raises (.missingHost component) := by
  cases h with
  | workspace h => exact h

theorem canFail_of_transform (ht : job.model.topology.Built)
    (hchecked : checkModel job.model.topology = .ok ()) {w w' : σ} {f : Fault}
    (h : Halts (transform job) w f w') : job.CanFail f := by
  refine Job.canFail_of_finish (fun _ _ _ => canFail_of_visit ht hchecked)
    (fun s w f w' hf => ?_) h
  obtain ⟨file, _, w₁, hf⟩ := exists_of_halts_forM hf
  exact .workspace (.write hf)

theorem canFail_of_run (ht : job.model.topology.Built) {w w' : σ} {p : Progress} {e : Error}
    (h : ((lifecycle job).run .idle).run w = ((.error e, p), w')) : job.CanFail e.fault := by
  refine Job.canFail_of_run (fun _ _ _ => Job.canFail_of_requireTools) (fun w f w' hf => ?_)
    (fun hchecked w f w' hf => ?_) h
  · exact canFail_of_checkModel (halts_ofExcept.mp hf).1
  · obtain ⟨_, _, hchecked⟩ := hchecked
    exact canFail_of_transform ht (ends_ofExcept.mp hchecked).1 hf

end Kubernetes

/-! ### A play for each compute -/

namespace Ansible

theorem keys_of_reaches (ht : job.model.topology.Built) {w : σ} {done : List ComponentId}
    {id : ComponentId} {s : Assembly Plays × σ}
    (h : (visitor job).Reaches job.model.topology ({ built := .empty }, w) done id s) :
    s.1.built.keys = job.model.topology.computesOf done := by
  obtain ⟨⟨rest, horder⟩, hdone⟩ := h
  refine Visitor.keys_of_hosts OrderedMap.keys rfl ht
    (fun id => (handles_addCompute _ id).imp fun plays plays' hs => ?_)
    (fun id hid => (handles_addSoftware hid).imp fun plays plays' hs => ?_) rfl horder hdone
  · rw [hs, OrderedMap.keys_insert]
  · rw [hs]
    cases job.model.topology.placed? id with
    | none => rfl
    | some c => exact OrderedMap.keys_adjust _ _ _

end Ansible

/-! ### All backends -/

/-- **Whatever a component runs on has been handled before it, in every backend.** A run of Heat
fails with what backends can fail with, which is never that a compute was not visited before,
unless that comes from the workspace. So does what Kubernetes does on a suitable model, and its
runs, and that is never that a component has no host. When Ansible comes to a component, the
compute that this runs on has a play. When Azure has visited all components, each compute with
scripts has a machine. -/
theorem hosts_met {name : String} {g : EntityGraph}
    (hbuild : Model.build name g = .ok job.model) :
    (∀ w w' p e, ((Heat.lifecycle job).run .idle).run w = ((.error e, p), w') →
      job.CanFail e.fault ∧ ∀ compute component,
        e.fault = Heat.unvisited compute component → job.workspace.Raises e.fault) ∧
    (Kubernetes.checkModel job.model.topology = .ok () → ∀ w f w',
      Halts (Kubernetes.transform job) w f w' → job.CanFail f ∧ ∀ component,
        f = .missingHost component → job.workspace.Raises f) ∧
    (∀ w w' p e, ((Kubernetes.lifecycle job).run .idle).run w = ((.error e, p), w') →
      job.CanFail e.fault ∧ ∀ component,
        e.fault = .missingHost component → job.workspace.Raises e.fault) ∧
    (∀ w done id s c,
      (Ansible.visitor job).Reaches job.model.topology ({ built := .empty }, w) done id s →
      (job.model.topology.component id).isA .compute = false →
      job.model.topology.computeOf id = .ok (some c) → ∃ play, s.1.built.get? c = some play) ∧
    (∀ w s w', Ends (Build.finish ((Azure.visitor job).visitComponents job.model.topology) {})
      w s w' → ∀ c ∈ s.scripts.keys, ∃ machine, s.machines.get? c = some machine) := by
  have ht := Model.built_of_build hbuild
  refine ⟨fun w w' p e h => ?_, fun hchecked w f w' h => ?_, fun w w' p e h => ?_,
    fun w done id s c h hid hof => ?_, fun w s w' h c hc => ?_⟩
  · have hcan := Heat.canFail_of_run ht h
    refine ⟨hcan, fun compute component heq => ?_⟩
    rw [heq] at hcan ⊢
    exact Heat.raises_of_unvisited hcan
  · have hcan := Kubernetes.canFail_of_transform ht hchecked h
    refine ⟨hcan, fun component heq => ?_⟩
    rw [heq] at hcan ⊢
    exact Kubernetes.raises_of_missingHost hcan
  · have hcan := Kubernetes.canFail_of_run ht h
    refine ⟨hcan, fun component heq => ?_⟩
    rw [heq] at hcan ⊢
    exact Kubernetes.raises_of_missingHost hcan
  · obtain ⟨rest, horder⟩ := h.order
    apply OrderedMap.exists_get?_eq_some
    rw [Ansible.keys_of_reaches ht h]
    exact Topology.mem_done_of_placed? ht horder (Topology.placed?_eq_some.mpr ⟨hid, hof⟩)
  · obtain ⟨visited, hvisit⟩ := Build.ends_finish.mp h
    obtain ⟨order, _, hscripts⟩ := Azure.scriptsFor_of_visit ht hvisit
    obtain ⟨steps, hsteps⟩ := OrderedMap.mem_keys.mp hc
    apply OrderedMap.exists_get?_eq_some
    rw [hscripts.keys]
    exact (hscripts.scripts _ hsteps).1

/-- A workspace in memory fails with what was injected, and with files only. -/
theorem Memory.cases_of_raises {setup : Memory.Setup} {f : Fault}
    (h : (Memory.workspace setup).Raises f) :
    (∃ message, f = .other message) ∨ (∃ path details, f = .unreadableFile path details) ∨
      ∃ path details, f = .unwritableFile path details := by
  have hnote {a : Memory.Access} {w w' : Memory.Store} : ¬ Halts (Memory.note a) w f w' := by
    show ¬ (Except.ok (), _) = (Except.error f, w')
    simp
  cases h with
  | prepare h =>
    obtain ⟨_, _, _, h⟩ := (halts_bind.mp h).resolve_left hnote
    split at h
    · exact .inl ⟨_, (halts_throw.mp h).1.symm⟩
    · exact absurd h halts_pure
  | release h =>
    obtain ⟨_, _, _, h⟩ := (halts_bind.mp h).resolve_left hnote
    split at h
    · exact .inl ⟨_, (halts_throw.mp h).1.symm⟩
    · exact absurd h halts_pure
  | read h =>
    obtain ⟨_, _, _, h⟩ := (halts_bind.mp h).resolve_left hnote
    dsimp only at h
    split at h
    · exact absurd h halts_pure
    · exact .inr (.inl ⟨_, _, (halts_throw.mp h).1.symm⟩)
  | @write path text w w' h =>
    obtain ⟨_, _, _, h⟩ := (halts_bind.mp h).resolve_left hnote
    have hstored {g : Memory.Store → Memory.Store} {w : Memory.Store} :
        ¬ Halts (modify g : ExceptT Fault Memory.M Unit) w f w' := by
      show ¬ (Except.ok (), _) = (Except.error f, w')
      simp
    split at h
    · rcases halts_bind.mp h with h | ⟨_, _, _, h⟩
      · exact .inr (.inr ⟨_, _, (halts_throw.mp h).1.symm⟩)
      · exact absurd h hstored
    · exact absurd h hstored

/-- So it never fails like a backend that misses a host. -/
theorem Memory.not_raises {setup : Memory.Setup} {f : Fault}
    (h : (Memory.workspace setup).Raises f) :
    (∀ compute component, f ≠ Heat.unvisited compute component) ∧
      ∀ component, f ≠ .missingHost component := by
  rcases Memory.cases_of_raises h with ⟨_, rfl⟩ | ⟨_, _, rfl⟩ | ⟨_, _, rfl⟩ <;>
    exact ⟨nofun, nofun⟩

/-- The job without the sources of its scripts. -/
def bareJob (model : Model) : Job Memory.M :=
  { webJob model with workspace := Memory.workspace {} }

/-- The fault of a run that fails. -/
def faultOf? (l : Lifecycle Memory.M) : Option Fault :=
  match ((l.run .idle).run {}).1.1 with
  | .ok () => none
  | .error e => some e.fault

theorem run_of_faultOf? {l : Lifecycle Memory.M} {f : Fault} (h : faultOf? l = some f) :
    ∃ e p w', (l.run .idle).run {} = ((.error e, p), w') ∧ e.fault = f := by
  unfold faultOf? at h
  rcases hrun : (l.run .idle).run {} with ⟨⟨e | ⟨⟩, p⟩, w'⟩
  · rw [hrun] at h
    exact ⟨e, p, w', rfl, Option.some.inj h⟩
  · rw [hrun] at h
    cases h

/-- Without their sources, no scripts are deployed, and that is the fault which is reported. -/
theorem hosts_met_web : ∃ g model, EntityGraph.ofValue true webDocument = .ok g ∧
    Model.build "web" g = .ok model ∧ Kubernetes.checkModel model.topology = .ok () ∧
    (∃ e p w', ((Heat.lifecycle (bareJob model)).run .idle).run {} = ((.error e, p), w') ∧
      e.fault = .unreadableFile "fetch.sh" "not found" ∧ (bareJob model).CanFail e.fault ∧
      ∀ compute component, e.fault ≠ Heat.unvisited compute component) ∧
    (∃ e p w', ((Kubernetes.lifecycle (bareJob model)).run .idle).run {} = ((.error e, p), w') ∧
      e.fault = .unreadableFile "fetch.sh" "not found" ∧ (bareJob model).CanFail e.fault ∧
      ∀ component, e.fault ≠ .missingHost component) ∧
    (∃ w s play, (Ansible.visitor (webJob model)).Reaches model.topology ({ built := .empty }, w)
      [1] 0 s ∧ model.topology.computeOf 0 = .ok (some 1) ∧ s.1.built.get? 1 = some play) ∧
    (∃ w s w' machine, Ends (Build.finish ((Azure.visitor (webJob model)).visitComponents
      model.topology) {}) w s w' ∧ 1 ∈ s.scripts.keys ∧ s.machines.get? 1 = some machine) := by
  let missing : Fault := .unreadableFile "fetch.sh" "not found"
  have hweb : (((EntityGraph.ofValue true webDocument).mapError (.unreadableModel "web.yaml") >>=
      Model.build "web").map fun m =>
        [succeeds Ansible.lifecycle m, succeeds Azure.lifecycle m,
          faultOf? (Heat.lifecycle (bareJob m)) = some missing,
          faultOf? (Kubernetes.lifecycle (bareJob m)) = some missing,
          (Kubernetes.checkModel m.topology).toOption = some (),
          m.topology.hostingOrder.toOption = some [1, 0], m.topology.placed? 0 = some 1,
          (m.topology.scriptsOn [1, 0] 1).length = 3]) = .ok (List.replicate 8 true) := by
    decide +kernel
  obtain ⟨model, hm, hall⟩ := map_eq_ok.mp hweb
  obtain ⟨g, hg, hbuild⟩ := bind_eq_ok.mp hm
  simp only [List.replicate, List.cons.injEq, decide_eq_true_eq, toOption_eq_some, and_true]
    at hall
  obtain ⟨hansible, hazure, hheat, hkubernetes, hchecked, horder, hplaced, hlength⟩ := hall
  obtain ⟨hid, hof⟩ := Topology.placed?_eq_some.mp hplaced
  obtain ⟨e₁, p₁, w₁, hrun₁, he₁⟩ := run_of_faultOf? hheat
  obtain ⟨e₂, p₂, w₂, hrun₂, he₂⟩ := run_of_faultOf? hkubernetes
  obtain ⟨p₃, w₃, hansible⟩ := run_of_succeeds hansible
  obtain ⟨p₄, w₄, hazure⟩ := run_of_succeeds hazure
  have hbare : Model.build "web" g = .ok (bareJob model).model := hbuild
  have hjob : Model.build "web" g = .ok (webJob model).model := hbuild
  obtain ⟨honHeat, _, honKubernetes, _⟩ := hosts_met hbare
  obtain ⟨_, _, _, honAnsible, honAzure⟩ := hosts_met hjob
  obtain ⟨hcan₁, hunvisited⟩ := honHeat _ _ _ _ hrun₁
  obtain ⟨hcan₂, hmissing⟩ := honKubernetes _ _ _ _ hrun₂
  refine ⟨g, model, mapError_eq_ok.mp hg, hbuild, hchecked, ⟨e₁, p₁, w₁, hrun₁, he₁, hcan₁, ?_⟩,
    ⟨e₂, p₂, w₂, hrun₂, he₂, hcan₂, ?_⟩, ?_, ?_⟩
  · intro compute component heq
    exact (Memory.not_raises (hunvisited compute component heq)).1 compute component heq
  · intro component heq
    exact (Memory.not_raises (hmissing component heq)).2 component heq
  · obtain ⟨_, _, w, _, _, hvisit, _⟩ := Job.exists_visit_of_run hansible
    obtain ⟨_, hfound, hvisit⟩ := Visitor.exists_order_of_yields hvisit
    cases horder.symm.trans hfound
    obtain ⟨_, s, hfirst, _⟩ := yields_bind.mp hvisit
    have hreach : (Ansible.visitor (webJob model)).Reaches model.topology
        ({ built := .empty }, w) [1] 0 s :=
      ⟨⟨[], horder⟩, yields_bind.mpr ⟨(), s, hfirst, yields_pure.mpr ⟨rfl, rfl⟩⟩⟩
    obtain ⟨play, hplay⟩ := honAnsible w [1] 0 s 1 hreach hid hof
    exact ⟨w, s, play, hreach, hof, hplay⟩
  · obtain ⟨s, visited, w, w', _, hvisit, _⟩ := Job.exists_visit_of_run hazure
    obtain ⟨_, hfound, hscripts⟩ :=
      Azure.scriptsFor_of_visit (Model.built_of_build hjob) hvisit
    cases horder.symm.trans hfound
    have hends := Build.ends_finish.mpr ⟨visited, hvisit⟩
    have hmem : 1 ∈ s.scripts.keys := by
      refine hscripts.complete 1 fun hnone => ?_
      rw [show (webJob model).model = model from rfl] at hnone
      simp [hnone] at hlength
    obtain ⟨machine, hmachine⟩ := honAzure w s w' hends 1 hmem
    exact ⟨w, s, w', machine, hends, hmem, hmachine⟩

end Provision
