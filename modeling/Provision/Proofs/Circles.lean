import Provision.Deployment.Registry
import Provision.Proofs.Data.State
import Provision.Proofs.Hosts

/-! Components that stand on themselves.

Building a model does not reject hosts that run in a circle, and a check of a backend may miss
one that has a compute in it. But every backend transforms the components in hosting order,
and there is none then. It is asked for before the first component is visited, so up to there
a run has looked for tools and prepared its workspace, and all that follows is to give the
workspace up. So what nothing but writing changes is as it was. -/
namespace Provision
open Build
open Yaml (Value)

variable {σ δ α β : Type} {seen : σ → δ}

/-! ### What is left as it is -/

/-- What is seen of a world is as before. -/
def Same (seen : σ → δ) (w w' : σ) : Prop := seen w' = seen w

instance : Std.Refl (Same seen) := ⟨fun _ => rfl⟩

instance : IsTrans σ (Same seen) := ⟨fun _ _ _ h h' => h'.trans h⟩

/-- Nothing but writing changes what is seen of a world. -/
structure Workspace.OnlyWrites (ws : Workspace (StateM σ)) (seen : σ → δ) : Prop where
  prepare : Relates (Same seen) ws.prepare.run
  release : Relates (Same seen) ws.release.run
  read (path : String) : Relates (Same seen) (ws.read path).run
  hasTool (tool : String) : Relates (Same seen) (ws.hasTool tool)

theorem Job.relates_requireTools {job : Job (StateM σ)} (h : job.workspace.OnlyWrites seen)
    (tools : List String) : Relates (Same seen) (job.requireTools tools).run := by
  unfold requireTools
  split
  · refine .forM fun tool => .bindExcept (.bind (h.hasTool tool) fun _ => .pure _) fun found => ?_
    split
    · exact .pure _
    · exact .pure _
  · exact .pure _

/-! ### Runs -/

namespace Lifecycle

variable {l : Lifecycle (StateM σ)}

section Relates
variable {r : σ → σ → Prop} [Std.Refl r] [IsTrans σ r]

theorem relates_step (h : ∀ phase, Relates r (l.perform phase).run) (phase : Phase)
    (p : Progress) : Relates r (l.step phase p) := by
  unfold step
  split
  · refine .bind (h phase) fun result => ?_
    cases result with
    | ok => exact .pure _
    | error f => exact .pure _
  · exact .pure _

theorem relates_produce (h : ∀ phase, Relates r (l.perform phase).run) (p : Progress) :
    Relates r (l.produce p) := by
  refine .bind (relates_step h _ p) fun result => ?_
  match result with
  | (.ok (), p) => exact relates_step h _ p
  | (.error _, _) => exact .pure _

/-- A run does to a world what all of its phases may do. -/
theorem relates_run (h : ∀ phase, Relates r (l.perform phase).run) (p : Progress) :
    Relates r (l.run p) := by
  refine .bind (relates_step h _ p) fun result => ?_
  match result with
  | (.error _, _) => exact .pure _
  | (.ok (), p) =>
    refine .bind (relates_step h _ p) fun result => ?_
    match result with
    | (.error _, _) => exact .pure _
    | (.ok (), p) =>
      refine .bind (relates_produce h p) fun produced =>
        .bind (relates_step h _ produced.2) fun _ => ?_
      match produced with
      | (.ok (), _) => exact .pure _
      | (.error _, _) => exact .pure _

end Relates

/-- A run fails if its target cannot be transformed. -/
theorem exists_failed_run (h : ∀ w w', ¬ Ends (l.perform .transform) w () w') (w : σ) :
    ∃ e p w', (l.run .idle).run w = ((.error e, p), w') := by
  rcases hrun : (l.run .idle).run w with ⟨⟨e | ⟨⟩, p⟩, w'⟩
  · exact ⟨e, p, w', rfl⟩
  · obtain ⟨_, _, w₁, w₂, _, _, _, htransform, _⟩ := ends_of_run hrun
    exact absurd htransform (h w₁ w₂)

theorem step_of_ends {phase : Phase} {p : Progress} {w w' : σ} (hp : p.next? = some phase)
    (h : Ends (l.perform phase) w () w') :
    (l.step phase p).run w = ((.ok (), .after phase), w') := by
  rw [step_of_next l hp]
  exact run_bind h

theorem step_of_halts {phase : Phase} {p : Progress} {w w' : σ} {f : Fault}
    (hp : p.next? = some phase) (h : Halts (l.perform phase) w f w') :
    (l.step phase p).run w = ((.error (l.failure phase f), .failed phase), w') := by
  rw [step_of_next l hp]
  exact run_bind h

/-- It reports why, if it comes so far. -/
theorem failed_run_of_halts {w w₁ w₂ w₃ w₄ : σ} {f : Fault}
    (henvironment : Ends (l.perform .checkEnvironment) w () w₁)
    (hmodel : Ends (l.perform .checkModel) w₁ () w₂) (hprepare : Ends (l.perform .prepare) w₂ () w₃)
    (htransform : Halts (l.perform .transform) w₃ f w₄) :
    ∃ p w', (l.run .idle).run w = ((.error (l.failure .transform f), p), w') := by
  have hproduce : (l.produce .modelChecked).run w₂ =
      ((.error (l.failure .transform f), .failed .transform), w₄) :=
    (run_bind (step_of_ends rfl hprepare)).trans (step_of_halts rfl htransform)
  rcases hcleanup : (l.step .cleanup (.failed .transform)).run w₄ with ⟨⟨cleaned, p⟩, w'⟩
  have hchecked : (l.run .idle).run w = _ :=
    (run_bind (step_of_ends rfl henvironment)).trans (run_bind (step_of_ends rfl hmodel))
  exact ⟨p, w', hchecked.trans ((run_bind hproduce).trans (run_bind hcleanup))⟩

end Lifecycle

/-! ### Without a hosting order -/

section
variable {f : Fault} {t : Topology}

/-- A visit fails before the first component. -/
theorem Visitor.stops_visitComponents (v : Visitor (Build β (StateM σ)))
    (h : t.hostingOrder = .error f) (s : Assembly β × σ) : Stops (v.visitComponents t) s f s :=
  stops_ofExcept_bind.mpr (.inl ⟨h, rfl⟩)

theorem Visitor.stops_visit (v : Visitor (Build β (StateM σ))) (h : t.hostingOrder = .error f)
    (s : Assembly β × σ) : Stops (v.visit t) s f s :=
  stops_bind.mpr (.inl (v.stops_visitComponents h s))

/-- What fails at once leaves the world, and nothing is made of it. -/
theorem halts_transform {visit : Build β (StateM σ) Unit} {start : β}
    {fill : β → ExceptT Fault (StateM σ) Unit} (h : ∀ s, Stops visit s f s) (w : σ) :
    Halts (visit.finish start >>= fill) w f w :=
  halts_bind.mpr (.inl (halts_finish.mpr ⟨_, h _⟩))

end

namespace Job

variable {job : Job (StateM σ)} {f : Fault}
  {checkEnvironment checkModel transform : ExceptT Fault (StateM σ) Unit}

/-- A run whose transforming fails at once fails, and all that it could write is left. -/
theorem fails_of_halts (hseen : job.workspace.OnlyWrites seen)
    (henvironment : Relates (Same seen) checkEnvironment.run)
    (hmodel : Relates (Same seen) checkModel.run)
    (htransform : ∀ w, Halts transform w f w) (w : σ) :
    ∃ e p w', ((job.lifecycle checkEnvironment checkModel transform).run .idle).run w =
      ((.error e, p), w') ∧ seen w' = seen w := by
  have hfails : ∀ w w', ¬ Ends transform w () w' := by
    intro w w' h
    cases h.symm.trans (htransform w)
  have hsame : ∀ phase, Relates (Same seen)
      ((job.lifecycle checkEnvironment checkModel transform).perform phase).run := by
    intro phase
    cases phase with
    | checkEnvironment => exact henvironment
    | checkModel => exact hmodel
    | prepare => exact hseen.prepare
    | transform =>
      intro w
      have hstays : (outcome transform w).2 = w := congrArg Prod.snd (htransform w)
      exact congrArg seen hstays
    | cleanup => exact hseen.release
  obtain ⟨e, p, w', hrun⟩ := Lifecycle.exists_failed_run
    (l := job.lifecycle checkEnvironment checkModel transform) hfails w
  have hseen' := Lifecycle.relates_run hsame .idle w
  rw [hrun] at hseen'
  exact ⟨e, p, w', hrun, hseen'⟩

/-- Without checks, it reports why, if preparing succeeds. -/
theorem reports_of_halts (htransform : ∀ w, Halts transform w f w) {w w₁ : σ}
    (hprepare : Ends job.workspace.prepare w () w₁) :
    ∃ p w', ((job.lifecycle (return ()) (return ()) transform).run .idle).run w =
      ((.error ((job.lifecycle (return ()) (return ()) transform).failure .transform f), p), w') :=
  Lifecycle.failed_run_of_halts (ends_pure.mpr ⟨rfl, rfl⟩) (ends_pure.mpr ⟨rfl, rfl⟩) hprepare
    (htransform w₁)

end Job

/-! ### All backends -/

/-- **A model with a circle of hosts is rejected by every backend, and no file is written.**
Whatever the workspace, the settings and the sources, the run fails, and what nothing but writing
changes is as before, also if the circle passes through a compute. Heat and Azure, which check
nothing, report the first component that leads into a circle once their workspace is prepared. -/
theorem fails_of_circle {name : String} {g : EntityGraph} {job : Job (StateM σ)}
    (hbuild : Model.build name g = .ok job.model) {c : ComponentId}
    (hcircle : Relation.TransGen job.model.topology.HostedOn c c)
    (hseen : job.workspace.OnlyWrites seen) (w : σ) :
    (∀ backend ∈ Registry.standard.backends.values, ∃ e p w',
      ((backend job).run .idle).run w = ((.error e, p), w') ∧ seen w' = seen w) ∧
    ∀ backend ∈ [Heat.lifecycle, Azure.lifecycle], ∀ w₁, Ends job.workspace.prepare w () w₁ →
      ∃ first p w', ((backend job).run .idle).run w = ((.error ((backend job).failure .transform
          (.hostingCycle (job.model.topology.component first).name)), p), w') ∧
        IsLeast {c | c < job.model.topology.size ∧ job.model.topology.LeadsIntoCircle c} first := by
  have ht := Model.built_of_build hbuild
  obtain ⟨f, horder⟩ : ∃ f, job.model.topology.hostingOrder = .error f := by
    cases h : job.model.topology.hostingOrder with
    | ok order => exact absurd hcircle ((Topology.hostingOrder_spec ht).1.mp ⟨order, h⟩ c)
    | error f => exact ⟨f, rfl⟩
  obtain ⟨first, rfl, hfirst⟩ := Topology.hostingOrder_eq_error ht horder
  have hheat : ∀ w, Halts (Heat.transform job) w _ w :=
    halts_transform (Visitor.stops_visitComponents _ horder)
  have hkubernetes : ∀ w, Halts (Kubernetes.transform job) w _ w :=
    halts_transform (Visitor.stops_visit _ horder)
  have hansible : ∀ w, Halts (Ansible.transform job) w _ w :=
    halts_transform (Visitor.stops_visitComponents _ horder)
  have hazure : ∀ w, Halts (Azure.transform job) w _ w :=
    halts_transform (Visitor.stops_visitComponents _ horder)
  have hall : Registry.standard.backends.values =
      [Heat.lifecycle (m := StateM σ), Kubernetes.lifecycle, Ansible.lifecycle, Azure.lifecycle] :=
    rfl
  refine ⟨fun backend hbackend => ?_, fun backend hbackend w₁ hprepare => ?_⟩
  · rw [hall] at hbackend
    simp only [List.mem_cons, List.not_mem_nil, or_false] at hbackend
    rcases hbackend with rfl | rfl | rfl | rfl
    · exact Job.fails_of_halts hseen (.pure _) (.pure _) hheat w
    · exact Job.fails_of_halts hseen (Job.relates_requireTools hseen _) (.ofExcept _) hkubernetes w
    · exact Job.fails_of_halts hseen (Job.relates_requireTools hseen _) (.ofExcept _) hansible w
    · exact Job.fails_of_halts hseen (.pure _) (.pure _) hazure w
  · simp only [List.mem_cons, List.not_mem_nil, or_false] at hbackend
    rcases hbackend with rfl | rfl
    · obtain ⟨p, w', hrun⟩ := Job.reports_of_halts hheat hprepare
      exact ⟨first, p, w', hrun, hfirst⟩
    · obtain ⟨p, w', hrun⟩ := Job.reports_of_halts hazure hprepare
      exact ⟨first, p, w', hrun, hfirst⟩

/-- In memory, only writing changes the files. -/
theorem Memory.onlyWrites (setup : Memory.Setup) :
    (Memory.workspace setup).OnlyWrites Memory.Store.files := by
  have hnote (a : Memory.Access) : Relates (Same Memory.Store.files) (Memory.note a).run :=
    fun _ => rfl
  refine ⟨.bindExcept (hnote _) fun _ => ?_, .bindExcept (hnote _) fun _ => ?_,
    fun path => .bindExcept (hnote _) fun _ => ?_, fun tool => .pure _⟩
  · split <;> exact .pure _
  · split <;> exact .pure _
  · dsimp only
    split <;> exact .pure _

/-- An application on a machine that stands on the application. -/
def circularDocument : Value :=
  let on (type host : String) : Value := BuiltIn.mapping
    [(Key.type, .string type),
      (Key.relations, .sequence [BuiltIn.mapping [("hosted_on", .string host)]])]
  BuiltIn.mapping
    [(Key.components,
      BuiltIn.mapping [("app", on "web_application" "vm"), ("vm", on "compute" "app")])]

/-- The check of Kubernetes finds a compute for each component. -/
theorem fails_of_circle_machine : ∃ g model, EntityGraph.ofValue true circularDocument = .ok g ∧
    Model.build "web" g = .ok (webJob model).model ∧
    Relation.TransGen model.topology.HostedOn 0 0 ∧ Kubernetes.checkModel model.topology = .ok () ∧
    (webJob model).workspace.OnlyWrites Memory.Store.files ∧
    (∀ backend ∈ Registry.standard.backends.values, ∃ e p w',
      ((backend (webJob model)).run .idle).run {} = ((.error e, p), w') ∧ w'.files = .empty) ∧
    ∀ backend ∈ [Heat.lifecycle, Azure.lifecycle], ∃ p w',
      ((backend (webJob model)).run .idle).run {} =
        ((.error ((backend (webJob model)).failure .transform (.hostingCycle "app")), p), w') := by
  have hcircular : (((EntityGraph.ofValue true circularDocument).mapError
      (.unreadableModel "web.yaml") >>= Model.build "web").map fun m =>
        (m.topology.targets 0 .hostedOn, m.topology.targets 1 .hostedOn,
          (m.topology.component 0).name, (Kubernetes.checkModel m.topology).toOption)) =
      .ok ([1], [0], "app", some ()) := by
    decide +kernel
  obtain ⟨g, model, hg, hbuild, hparts⟩ := exists_model_of_map hcircular
  obtain ⟨hfirst, hsecond, hname, hchecked⟩ : _ ∧ _ ∧ _ ∧ _ := by
    simpa only [Prod.mk.injEq] using hparts
  have hcircle : Relation.TransGen model.topology.HostedOn 0 0 :=
    .head (Topology.mem_targets_hostedOn.mp (hfirst ▸ List.mem_cons_self))
      (.single (Topology.mem_targets_hostedOn.mp (hsecond ▸ List.mem_cons_self)))
  have hjob : Model.build "web" g = .ok (webJob model).model := hbuild
  have hseen : (webJob model).workspace.OnlyWrites Memory.Store.files := Memory.onlyWrites _
  have hlt := ((Model.built_of_build hjob).lt_of_hostedOn
    (Topology.mem_targets_hostedOn.mp (hfirst ▸ List.mem_cons_self))).1
  obtain ⟨hfails, hreports⟩ := fails_of_circle hjob hcircle hseen {}
  refine ⟨g, model, hg, hjob, hcircle, toOption_eq_some.mp hchecked, hseen, hfails,
    fun backend hbackend => ?_⟩
  obtain ⟨first, p, w', hrun, hleast⟩ := hreports backend hbackend _ rfl
  obtain rfl : first = 0 := Nat.le_zero.mp (hleast.2 ⟨hlt, 0, .refl, hcircle⟩)
  rw [show ((webJob model).model.topology.component 0).name = "app" from hname] at hrun
  exact ⟨p, w', hrun⟩

end Provision
