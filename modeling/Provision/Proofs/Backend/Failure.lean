import Provision.Proofs.Backend.Success
import Provision.Proofs.Lifecycle
import Provision.Proofs.Output.Graph

/-! Steps that fail.

A step fails from a state with a fault, and leaves a state all the same. It fails exactly
if one of the steps that it is made of does and those before it succeed, so where a fault
comes from can be read off step by step. A whole run that fails reports the fault of one of
its phases. -/
namespace Provision

variable {σ α β γ : Type}

/-! ### On a world -/

/-- A step fails from a world with a fault and leaves a world. -/
def Halts (x : ExceptT Fault (StateM σ) α) (w : σ) (f : Fault) (w' : σ) : Prop :=
  outcome x w = (.error f, w')

section
variable {w w' : σ} {f : Fault}

theorem halts_of_result {x : ExceptT Fault (StateM σ) α} (h : (x.run.run w).1 = .error f) :
    Halts x w f (x.run.run w).2 :=
  Prod.ext h rfl

theorem halts_pure {a : α} : ¬ Halts (pure a : ExceptT Fault (StateM σ) α) w f w' := by
  show ¬ (Except.ok a, w) = (Except.error f, w')
  simp

theorem halts_throw {e : Fault} :
    Halts (throw e : ExceptT Fault (StateM σ) α) w f w' ↔ e = f ∧ w = w' := by
  show (Except.error e, w) = (Except.error f, w') ↔ _
  simp

theorem halts_bind {x : ExceptT Fault (StateM σ) α} {g : α → ExceptT Fault (StateM σ) γ} :
    Halts (x >>= g) w f w' ↔
      Halts x w f w' ∨ ∃ a w₁, Ends x w a w₁ ∧ Halts (g a) w₁ f w' := by
  unfold Halts Ends outcome
  rcases hx : x.run.run w with ⟨e | a, w₁⟩
  · rw [run_bind_of_error hx]
    simp
  · rw [run_bind_of_ok hx]
    simp

theorem halts_ofExcept {x : Except Fault α} :
    Halts (ofExcept x : ExceptT Fault (StateM σ) α) w f w' ↔ x = .error f ∧ w = w' := by
  cases x with
  | ok a => exact iff_of_false halts_pure (by simp)
  | error e =>
    show Halts (throw e) w f w' ↔ _
    rw [halts_throw, Except.error.injEq]

/-- What cannot fail does not. -/
theorem halts_liftM {x : StateM σ α} :
    ¬ Halts (liftM x : ExceptT Fault (StateM σ) α) w f w' := by
  rw [Halts, outcome, run_liftM]
  simp

/-- A fault that is explained is an explanation. -/
theorem halts_adapt {ε : Type} {explain : ε → Fault} {x : ExceptT ε (StateM σ) α}
    (h : Halts (ExceptT.adapt explain x) w f w') : ∃ e, f = explain e := by
  unfold Halts outcome at h
  rw [run_adapt] at h
  rcases hrun : x.run.run w with ⟨e | a, w₁⟩
  all_goals rw [hrun] at h
  · cases h
    exact ⟨e, rfl⟩
  · cases h

/-- One of the steps along a list fails. -/
theorem exists_of_halts_mapM {g : α → ExceptT Fault (StateM σ) γ} {l : List α}
    (h : Halts (l.mapM g) w f w') : ∃ a ∈ l, ∃ w₁, Halts (g a) w₁ f w' := by
  induction l generalizing w with
  | nil =>
    rw [List.mapM_nil] at h
    exact absurd h halts_pure
  | cons a rest ih =>
    rw [List.mapM_cons] at h
    rcases halts_bind.mp h with h | ⟨_, w₁, _, h⟩
    · exact ⟨a, List.mem_cons_self, w, h⟩
    · rcases halts_bind.mp h with h | ⟨_, _, _, h⟩
      · obtain ⟨b, hb, hfails⟩ := ih h
        exact ⟨b, List.mem_cons_of_mem _ hb, hfails⟩
      · exact absurd h halts_pure

theorem exists_of_halts_forM {g : α → ExceptT Fault (StateM σ) Unit} {l : List α}
    (h : Halts (l.forM g) w f w') : ∃ a ∈ l, ∃ w₁, Halts (g a) w₁ f w' := by
  induction l generalizing w with
  | nil => exact absurd h halts_pure
  | cons a rest ih =>
    rcases halts_bind.mp h with h | ⟨_, w₁, _, h⟩
    · exact ⟨a, List.mem_cons_self, w, h⟩
    · obtain ⟨b, hb, hfails⟩ := ih h
      exact ⟨b, List.mem_cons_of_mem _ hb, hfails⟩

end

/-! ### On an assembly -/

namespace Build

/-- A step fails from a state with a fault and leaves a state. -/
def Stops (x : Build β (StateM σ) α) (s : Assembly β × σ) (f : Fault) (s' : Assembly β × σ) :
    Prop :=
  outcome x s = ((.error f, s'.1), s'.2)

section
variable {s s' : Assembly β × σ} {f : Fault}

theorem stops_pure {a : α} : ¬ Stops (pure a : Build β (StateM σ) α) s f s' := by
  show ¬ ((Except.ok a, s.1), s.2) = ((Except.error f, s'.1), s'.2)
  simp

theorem stops_throw {e : Fault} :
    Stops (throw e : Build β (StateM σ) α) s f s' ↔ e = f ∧ s = s' := by
  show ((Except.error e, s.1), s.2) = ((Except.error f, s'.1), s'.2) ↔ _
  simp [Prod.ext_iff, and_assoc]

theorem stops_bind {x : Build β (StateM σ) α} {g : α → Build β (StateM σ) γ} :
    Stops (x >>= g) s f s' ↔
      Stops x s f s' ∨ ∃ a s₁, Yields x s a s₁ ∧ Stops (g a) s₁ f s' := by
  have hrun : outcome (x >>= g) s =
      outcome (ExceptT.mk (ExceptT.bindCont g (outcome x s).1.1))
        ((outcome x s).1.2, (outcome x s).2) := rfl
  unfold Stops Yields
  rw [hrun]
  rcases outcome x s with ⟨⟨e | a, b⟩, w⟩
  · show ((Except.error e, b), w) = ((Except.error f, s'.1), s'.2) ↔ _
    simp
  · show outcome (g a) (b, w) = ((Except.error f, s'.1), s'.2) ↔ _
    simp [Prod.exists]

theorem stops_ofExcept {x : Except Fault α} :
    Stops (ofExcept x : Build β (StateM σ) α) s f s' ↔ x = .error f ∧ s = s' := by
  cases x with
  | ok a => exact iff_of_false stops_pure (by simp)
  | error e =>
    show Stops (throw e) s f s' ↔ _
    rw [stops_throw, Except.error.injEq]

theorem stops_change {g : β → β} : ¬ Stops (change g : Build β (StateM σ) Unit) s f s' := by
  show ¬ ((Except.ok (), { s.1 with built := g s.1.built }), s.2) =
    ((Except.error f, s'.1), s'.2)
  simp

theorem stops_built : ¬ Stops (built : Build β (StateM σ) β) s f s' := by
  show ¬ ((Except.ok s.1.built, s.1), s.2) = ((Except.error f, s'.1), s'.2)
  simp

theorem stops_lift {x : ExceptT Fault (StateM σ) α} :
    Stops (lift x) s f s' ↔ Halts x s.2 f s'.2 ∧ s.1 = s'.1 := by
  have hrun : outcome (lift x : Build β (StateM σ) α) s =
      (((Provision.outcome x s.2).1, s.1), (Provision.outcome x s.2).2) := rfl
  unfold Stops Halts
  rw [hrun]
  simp only [Prod.ext_iff]
  tauto

/-- What is handled already does not fail. -/
theorem stops_once {id : ComponentId} {x : Build β (StateM σ) Unit} :
    Stops (once id x) s f s' ↔ id ∉ s.1.visited.done ∧
      Stops x ({ s.1 with visited := ⟨id :: s.1.visited.done⟩ }, s.2) f s' := by
  have hget : ¬ Stops (get : Build β (StateM σ) (Assembly β)) s f s' := by
    show ¬ ((Except.ok s.1, s.1), s.2) = ((Except.error f, s'.1), s'.2)
    simp
  have hmodify {s : Assembly β × σ} {g : Assembly β → Assembly β} :
      ¬ Stops (modify g : Build β (StateM σ) Unit) s f s' := by
    show ¬ ((Except.ok (), g s.1), s.2) = ((Except.error f, s'.1), s'.2)
    simp
  have hrun : Stops (once id x) s f s' ↔
      Stops (do
        modify fun a => { a with visited := (s.1.visited.mark id).2 }
        if (s.1.visited.mark id).1 then x else return ()) s f s' := by
    simp only [once, stops_bind (x := get), hget, false_or, yields_get]
    simp
  rw [hrun, Visited.mark, stops_bind, or_iff_right hmodify]
  simp only [yields_modify, exists_eq_left]
  by_cases h : id ∈ s.1.visited.done
  · simp [h, stops_pure]
  · simp [h]

/-- Along a list, some step fails, and those before it succeed. -/
theorem exists_of_stops_forM {g : α → Build β (StateM σ) Unit} {l : List α}
    (h : Stops (l.forM g) s f s') : ∃ done a rest s₁, l = done ++ a :: rest ∧
      Yields (done.forM g) s () s₁ ∧ Stops (g a) s₁ f s' := by
  induction l generalizing s with
  | nil => exact absurd h stops_pure
  | cons a rest ih =>
    rcases stops_bind.mp h with h | ⟨_, s₁, ha, h⟩
    · exact ⟨[], a, rest, s, rfl, yields_pure.mpr ⟨rfl, rfl⟩, h⟩
    · obtain ⟨done, b, after, s₂, rfl, hdone, hb⟩ := ih h
      exact ⟨a :: done, b, after, s₂, rfl, yields_bind.mpr ⟨(), s₁, ha, hdone⟩, hb⟩

theorem halts_finish {x : Build β (StateM σ) Unit} {start : β} {w w' : σ} :
    Halts (x.finish start) w f w' ↔ ∃ a, Stops x ({ built := start }, w) f (a, w') := by
  unfold finish
  rw [halts_bind]
  constructor
  · intro h
    rcases h with h | ⟨⟨e | ⟨⟩, a⟩, w₁, hr, h⟩
    · exact absurd h halts_liftM
    · obtain ⟨rfl, rfl⟩ := halts_throw.mp h
      exact ⟨a, ends_runFrom.mp hr⟩
    · exact absurd h halts_pure
  · intro h
    obtain ⟨a, h⟩ := h
    exact .inr ⟨_, w', ends_runFrom.mpr h, halts_throw.mpr ⟨rfl, rfl⟩⟩

/-! ### Sequences of steps -/

theorem stops_ofExcept_bind {x : Except Fault γ} {g : γ → Build β (StateM σ) α} :
    Stops (ofExcept x >>= g) s f s' ↔
      (x = .error f ∧ s = s') ∨ ∃ a, x = .ok a ∧ Stops (g a) s f s' := by
  simp [stops_bind, stops_ofExcept, yields_ofExcept, and_assoc, -Prod.exists]

theorem stops_built_bind {g : β → Build β (StateM σ) α} :
    Stops (built >>= g) s f s' ↔ Stops (g s.1.built) s f s' := by
  simp [stops_bind, stops_built, yields_built, and_assoc, -Prod.exists]

end

/-! ### Steps that fail with certain faults only -/

/-- From wherever a step starts, it fails with certain faults only. -/
def FailsWithin (x : Build β (StateM σ) α) (p : Fault → Prop) : Prop :=
  ∀ s f s', Stops x s f s' → p f

namespace FailsWithin

variable {p : Fault → Prop}

theorem pure (a : α) : FailsWithin (Pure.pure a : Build β (StateM σ) α) p :=
  fun _ _ _ h => absurd h stops_pure

theorem bind {x : Build β (StateM σ) α} {g : α → Build β (StateM σ) γ} (hx : FailsWithin x p)
    (hg : ∀ a, FailsWithin (g a) p) : FailsWithin (x >>= g) p := by
  intro s f s' h
  rcases stops_bind.mp h with h | ⟨a, s₁, _, h⟩
  · exact hx s f s' h
  · exact hg a s₁ f s' h

theorem ofExcept {x : Except Fault α} (hx : ∀ f, x = .error f → p f) :
    FailsWithin (ofExcept x : Build β (StateM σ) α) p :=
  fun _ f _ h => hx f (stops_ofExcept.mp h).1

theorem change (g : β → β) : FailsWithin (Build.change g : Build β (StateM σ) Unit) p :=
  fun _ _ _ h => absurd h stops_change

theorem built : FailsWithin (Build.built : Build β (StateM σ) β) p :=
  fun _ _ _ h => absurd h stops_built

theorem lift {x : ExceptT Fault (StateM σ) α} (hx : ∀ w f w', Halts x w f w' → p f) :
    FailsWithin (Build.lift x : Build β (StateM σ) α) p :=
  fun _ _ _ h => hx _ _ _ (stops_lift.mp h).1

theorem forM {g : α → Build β (StateM σ) Unit} {l : List α} (hg : ∀ a ∈ l, FailsWithin (g a) p) :
    FailsWithin (l.forM g) p := by
  intro s f s' h
  obtain ⟨done, a, rest, s₁, rfl, _, ha⟩ := exists_of_stops_forM h
  exact hg a (List.mem_append_right _ List.mem_cons_self) s₁ f s' ha

theorem once {x : Build β (StateM σ) Unit} (hx : FailsWithin x p) (id : ComponentId) :
    FailsWithin (Build.once id x) p :=
  fun _ f s' h => hx _ f s' (stops_once.mp h).2

end FailsWithin
end Build

/-! ### Visits -/

namespace Visitor
open Build

/-- A visit has handled some components, in hosting order, and comes to the next one. -/
structure Reaches (v : Visitor (Build β (StateM σ))) (t : Topology) (s : Assembly β × σ)
    (done : List ComponentId) (id : ComponentId) (s' : Assembly β × σ) : Prop where
  order : ∃ rest, t.hostingOrder = .ok (done ++ id :: rest)
  handled : Yields (done.forM fun id => v.acceptComponent id (t.component id)) s () s'

section
variable {v : Visitor (Build β (StateM σ))} {t : Topology} {s s' : Assembly β × σ} {f : Fault}

/-- A visit fails because there is no hosting order, or at some component. -/
theorem cases_of_stops (h : Stops (v.visitComponents t) s f s') :
    t.hostingOrder = .error f ∨
      ∃ done id s₁, v.Reaches t s done id s₁ ∧
        Stops (v.acceptComponent id (t.component id)) s₁ f s' := by
  rcases stops_ofExcept_bind.mp h with ⟨horder, _⟩ | ⟨order, horder, h⟩
  · exact .inl horder
  · obtain ⟨done, id, rest, s₁, rfl, hdone, hid⟩ := exists_of_stops_forM h
    exact .inr ⟨done, id, s₁, ⟨⟨rest, horder⟩, hdone⟩, hid⟩

/-- A visitor of hosts fails at a component with a fault of one of its handlers, or because it has
none for the component. -/
theorem cases_of_stops_onHosts
    {compute software : ComponentId → Component → Build β (StateM σ) Unit} {target : String}
    (hv : v.component? = (onHosts target compute software).component?) {id : ComponentId}
    {c : Component} (h : Stops (v.acceptComponent id c) s f s') :
    (∃ kind entity, f = .unsupportedKind v.target kind entity) ∨
      (c.isA .compute = true ∧ Stops (compute id c) s f s') ∨
      (c.isA .compute = false ∧ Stops (software id c) s f s') := by
  unfold acceptComponent at h
  rw [hv] at h
  cases hkind : c.kind
  case compute =>
    rw [hkind] at h
    exact .inr (.inl ⟨by rw [Component.isA, hkind]; rfl, h⟩)
  case generic =>
    rw [hkind] at h
    obtain ⟨rfl, _⟩ := stops_throw.mp h
    exact .inl ⟨_, _, rfl⟩
  all_goals
    rw [hkind] at h
    exact .inr (.inr ⟨by rw [Component.isA, hkind]; rfl, h⟩)

end
end Visitor

/-! ### Faults -/

/-- A workspace can fail with a fault. -/
inductive Workspace.Raises (ws : Workspace (StateM σ)) (f : Fault) : Prop where
  | prepare {w w' : σ} (h : Halts ws.prepare w f w')
  | release {w w' : σ} (h : Halts ws.release w f w')
  | read {path : String} {w w' : σ} (h : Halts (ws.read path) w f w')
  | write {path text : String} {w w' : σ} (h : Halts (ws.write path text) w f w')

/-- What the run of a backend can fail with: what it finds wrong, and what its workspace fails
with. -/
inductive Job.CanFail (job : Job (StateM σ)) : Fault → Prop where
  | environment (target reason : String) : job.CanFail (.environment target reason)
  | unsuitableModel (target reason : String) : job.CanFail (.unsuitableModel target reason)
  | hostingCycle (component : String) : job.CanFail (.hostingCycle component)
  | unsupportedKind (target kind entity : String) : job.CanFail (.unsupportedKind target kind entity)
  | typeMismatch (entity property expected found : String) :
    job.CanFail (.typeMismatch entity property expected found)
  | duplicateName (name : String) :
    job.CanFail (.invalid ("Duplicate output resource name '" ++ name ++ "'"))
  | workspace {f : Fault} (h : job.workspace.Raises f) : job.CanFail f

namespace Job

variable {job : Job (StateM σ)} {f : Fault}

theorem canFail_of_hostingOrder {t : Topology} (ht : t.Built) (h : t.hostingOrder = .error f) :
    job.CanFail f := by
  obtain ⟨c, rfl, _⟩ := Topology.hostingOrder_eq_error ht h
  exact .hostingCycle _

theorem canFail_of_computeOf {t : Topology} {id : ComponentId} (h : t.computeOf id = .error f) :
    job.CanFail f := by
  rw [Topology.climb_eq_error h]
  exact .hostingCycle _

theorem canFail_of_read {α : Type} {c : Component} {property : String} {as : Reading α}
    (h : c.read property as = .error f) : job.CanFail f := by
  unfold Component.read readProperty at h
  split at h
  · cases h
  · split at h
    · cases h
    · cases h
      exact .typeMismatch _ _ _ _

theorem canFail_of_servicePort {c : Component} (h : c.servicePort = .error f) :
    job.CanFail f := by
  unfold Component.servicePort at h
  split at h
  · exact canFail_of_read h
  · cases h

theorem canFail_of_addNode {ν : Type} [Named ν] {g : OutputGraph ν} {node : ν}
    (h : g.addNode node = .error f) : job.CanFail f := by
  unfold OutputGraph.addNode at h
  split at h
  · cases h
    exact .duplicateName _
  · cases h

theorem canFail_of_requireTools {tools : List String} {w w' : σ}
    (h : Halts (job.requireTools tools) w f w') : job.CanFail f := by
  unfold requireTools at h
  split at h
  · obtain ⟨tool, _, _, h⟩ := exists_of_halts_forM h
    rcases halts_bind.mp h with h | ⟨_, _, _, h⟩
    · exact absurd h halts_liftM
    · split at h
      · obtain ⟨rfl, _⟩ := halts_throw.mp h
        exact .environment _ _
      · exact absurd h halts_pure
  · exact absurd h halts_pure

end Job

/-! ### Runs -/

namespace Lifecycle

theorem run_bind {α β : Type} {x : StateM σ α} {g : α → StateM σ β} {w w₁ : σ} {a : α}
    (h : x.run w = (a, w₁)) : (x >>= g).run w = (g a).run w₁ := by
  have hbind : (x >>= g).run w = (g (x.run w).1).run (x.run w).2 := rfl
  rw [hbind, h]

/-- A phase that comes next succeeds, or its fault is reported. -/
theorem step_cases (l : Lifecycle (StateM σ)) {phase : Phase} {p : Progress}
    (hp : p.next? = some phase) (w : σ) :
    (∃ w₁, (l.step phase p).run w = ((.ok (), .after phase), w₁) ∧
      Ends (l.perform phase) w () w₁) ∨
    ∃ f w₁, (l.step phase p).run w = ((.error (l.failure phase f), .failed phase), w₁) ∧
      Halts (l.perform phase) w f w₁ := by
  rw [step_of_next l hp]
  rcases hr : outcome (l.perform phase) w with ⟨f | ⟨⟩, w₁⟩
  · exact .inr ⟨f, w₁, run_bind hr, hr⟩
  · exact .inl ⟨w₁, run_bind hr, hr⟩

/-- Producing succeeds, or the fault of one of its two phases is reported. Both ways cleaning up
comes next. -/
theorem produce_cases (l : Lifecycle (StateM σ)) (w : σ) :
    ∃ q w₁, q.next? = some .cleanup ∧ ((l.produce .modelChecked).run w = ((.ok (), q), w₁) ∨
      ∃ phase f w₀, (l.produce .modelChecked).run w = ((.error (l.failure phase f), q), w₁) ∧
        Halts (l.perform phase) w₀ f w₁) := by
  rcases l.step_cases (p := .modelChecked) rfl w with ⟨w₁, h₁, _⟩ | ⟨f, w₁, h₁, hf⟩
  · have hproduce : (l.produce .modelChecked).run w = (l.step .transform .prepared).run w₁ :=
      run_bind h₁
    rw [hproduce]
    rcases l.step_cases (p := .prepared) rfl w₁ with ⟨w₂, h₂, _⟩ | ⟨f, w₂, h₂, hf⟩
    · exact ⟨_, w₂, rfl, .inl h₂⟩
    · exact ⟨_, w₂, rfl, .inr ⟨.transform, f, w₁, h₂, hf⟩⟩
  · exact ⟨_, w₁, rfl, .inr ⟨.prepare, f, w, run_bind h₁, hf⟩⟩

/-- A run that fails reports the fault of a phase. All but the checks are performed only on a model
that has passed its check. -/
theorem exists_of_failed_run {l : Lifecycle (StateM σ)} {e : Error} {p : Progress} {w w' : σ}
    (h : (l.run .idle).run w = ((.error e, p), w')) :
    ∃ phase f w₁ w₂, e = l.failure phase f ∧ Halts (l.perform phase) w₁ f w₂ ∧
      (phase = .checkEnvironment ∨ phase = .checkModel ∨
        ∃ w₃ w₄, Ends (l.perform .checkModel) w₃ () w₄) := by
  unfold run at h
  rcases l.step_cases (p := .idle) rfl w with ⟨w₁, h₁, _⟩ | ⟨f, w₁, h₁, hf⟩
  · rw [run_bind h₁] at h
    rcases l.step_cases (p := .environmentChecked) rfl w₁ with ⟨w₂, h₂, hok⟩ | ⟨f, w₂, h₂, hf⟩
    · have hmodel : ∃ w₃ w₄, Ends (l.perform .checkModel) w₃ () w₄ := ⟨w₁, w₂, hok⟩
      have h := (run_bind h₂).symm.trans h
      obtain ⟨q, w₃, hq, hproduced | ⟨phase, f, w₀, hproduced, hf⟩⟩ := l.produce_cases w₂
      · have h := (run_bind hproduced).symm.trans h
        rcases l.step_cases hq w₃ with ⟨w₄, h₄, _⟩ | ⟨f, w₄, h₄, hf⟩
        · cases (run_bind h₄).symm.trans h
        · cases (run_bind h₄).symm.trans h
          exact ⟨_, f, _, _, rfl, hf, .inr (.inr hmodel)⟩
      · have h := (run_bind hproduced).symm.trans h
        rcases l.step_cases hq w₃ with ⟨w₄, h₄, _⟩ | ⟨_, w₄, h₄, _⟩
        all_goals
          cases (run_bind h₄).symm.trans h
          exact ⟨phase, f, _, _, rfl, hf, .inr (.inr hmodel)⟩
    · cases (run_bind h₂).symm.trans h
      exact ⟨_, f, _, _, rfl, hf, .inr (.inl rfl)⟩
  · cases (run_bind h₁).symm.trans h
    exact ⟨_, f, _, _, rfl, hf, .inl rfl⟩

end Lifecycle

/-- A run reports what a backend can fail with, if its checks fail with nothing else, and what it
does after them neither. -/
theorem Job.canFail_of_run {job : Job (StateM σ)}
    {checkEnvironment checkModel transform : ExceptT Fault (StateM σ) Unit}
    (hEnvironment : ∀ w f w', Halts checkEnvironment w f w' → job.CanFail f)
    (hModel : ∀ w f w', Halts checkModel w f w' → job.CanFail f)
    (hTransform : (∃ w w', Ends checkModel w () w') →
      ∀ w f w', Halts transform w f w' → job.CanFail f) {e : Error} {p : Progress} {w w' : σ}
    (h : ((job.lifecycle checkEnvironment checkModel transform).run .idle).run w =
      ((.error e, p), w')) : job.CanFail e.fault := by
  obtain ⟨phase, f, w₁, w₂, rfl, hf, hchecked⟩ := Lifecycle.exists_of_failed_run h
  show job.CanFail f
  cases phase with
  | checkEnvironment => exact hEnvironment _ _ _ hf
  | checkModel => exact hModel _ _ _ hf
  | prepare => exact .workspace (.prepare hf)
  | cleanup => exact .workspace (.release hf)
  | transform =>
    rcases hchecked with hphase | hphase | hchecked
    · cases hphase
    · cases hphase
    · exact hTransform hchecked _ _ _ hf

/-- What is done with what a visit has built comes after the visit. -/
theorem Job.canFail_of_finish {job : Job (StateM σ)} {visit : Build β (StateM σ) Unit} {start : β}
    {fill : β → ExceptT Fault (StateM σ) Unit}
    (hvisit : ∀ w f s', Build.Stops visit ({ built := start }, w) f s' → job.CanFail f)
    (hfill : ∀ b w f w', Halts (fill b) w f w' → job.CanFail f) {w w' : σ} {f : Fault}
    (h : Halts (visit.finish start >>= fill) w f w') : job.CanFail f := by
  rcases halts_bind.mp h with h | ⟨b, w₁, _, h⟩
  · obtain ⟨a, h⟩ := Build.halts_finish.mp h
    exact hvisit _ _ _ h
  · exact hfill _ _ _ _ h

end Provision
