import Provision.Proofs.Ansible.Tasks
import Provision.Proofs.Azure.Extension
import Provision.Proofs.Heat.Deployments
import Provision.Proofs.Kubernetes.Copies
import Provision.Proofs.Placement

/-! Repeated calls of handlers.

A visit calls the handler of a component once, but the handlers do not rely on it: a
component that a visitor has noted is left alone when it comes again, whatever was handled
in between. So of any calls only the first one for each component counts. -/
namespace Provision

variable {σ β : Type}

namespace Visitor

/-- The handlers of the components' kinds, called for these components one after the other. -/
def handle {m : Type → Type} [Monad m] [MonadExceptOf Fault m] (v : Visitor m) (t : Topology)
    (calls : List ComponentId) : m Unit :=
  calls.forM fun id => v.acceptComponent id (t.component id)

end Visitor

namespace Build

/-! ### One call -/

/-- A handler that leaves a component alone if it knows it. -/
def Guards (x : Build β (StateM σ) Unit) (id : ComponentId) : Prop := ∃ y, x = once id y

section
variable {id : ComponentId} {x : Build β (StateM σ) Unit} {s s' : Assembly β × σ}

/-- A repeat succeeds and changes nothing, neither what was built nor the world. -/
theorem Guards.yields_of_mem (h : Guards x id) (hid : id ∈ s.1.visited.done) :
    Yields x s () s := by
  obtain ⟨y, rfl⟩ := h
  rw [yields_once, if_pos hid]

/-- A handler that knows which components it has handled: those that it has noted it leaves
alone, and where it succeeds for a new one it notes it. -/
structure Remembers (x : Build β (StateM σ) Unit) (id : ComponentId) : Prop where
  guards : ∀ s s', Yields x s () s' → Guards x id
  notes : ∀ s s', id ∉ s.1.visited.done → Yields x s () s' →
    s'.1.visited.done = id :: s.1.visited.done

theorem remembers_once {y : Build β (StateM σ) Unit} {r : β → β → Prop}
    (h : Handles (once id y) id r) : Remembers (once id y) id where
  guards _ _ _ := ⟨y, rfl⟩
  notes s s' hnew hy := (h s s' hnew hy).2

theorem remembers_throw {f : Fault} : Remembers (throw f : Build β (StateM σ) Unit) id where
  guards _ _ h := absurd h yields_throw
  notes _ _ _ h := absurd h yields_throw

end

/-! ### Many calls -/

section
variable {handle : ComponentId → Build β (StateM σ) Unit}

theorem filter_filter_notMem {done calls : List ComponentId} (a : ComponentId) :
    (calls.filter (· ∉ done)).filter (fun b => !b == a) = calls.filter (· ∉ a :: done) := by
  rw [List.filter_filter]
  refine List.filter_congr fun b _ => ?_
  simp only [List.mem_cons, not_or, Bool.decide_and, beq_eq_decide, decide_not]

/-- What follows a step goes on from where the step leads. -/
theorem outcome_bind {x : Build β (StateM σ) Unit} {f : Unit → Build β (StateM σ) Unit}
    {s : Assembly β × σ} : outcome (x >>= f) s =
      outcome (ExceptT.mk (ExceptT.bindCont f (outcome x s).1.1))
        ((outcome x s).1.2, (outcome x s).2) := rfl

theorem outcome_bind_of_yields {x : Build β (StateM σ) Unit}
    {f : Unit → Build β (StateM σ) Unit} {s s' : Assembly β × σ} (h : Yields x s () s') :
    outcome (x >>= f) s = outcome (f ()) s' := by
  rw [outcome_bind, show outcome x s = ((.ok (), s'.1), s'.2) from h]
  rfl

theorem outcome_bind_congr {x : Build β (StateM σ) Unit} {f g : Unit → Build β (StateM σ) Unit}
    {s : Assembly β × σ} (h : ∀ s', Yields x s () s' → outcome (f ()) s' = outcome (g ()) s') :
    outcome (x >>= f) s = outcome (x >>= g) s := by
  rw [outcome_bind, outcome_bind]
  rcases hx : outcome x s with ⟨⟨e | ⟨⟩, a⟩, w⟩
  · rfl
  · exact h (a, w) hx

/-- Calls come to what the first call for each component that is not known yet comes to. The
known components are those whose handlers leave them alone. -/
theorem outcome_forM_eq (hremembers : ∀ id, Remembers (handle id) id) (calls : List ComponentId)
    {s : Assembly β × σ} (hs : ∀ id ∈ s.1.visited.done, Guards (handle id) id) :
    outcome (calls.forM handle) s =
      outcome ((calls.filter (· ∉ s.1.visited.done)).eraseDups.forM handle) s := by
  induction calls generalizing s with
  | nil => rfl
  | cons a rest ih =>
    by_cases ha : a ∈ s.1.visited.done
    · have hrepeat : Yields (handle a) s () s := (hs a ha).yields_of_mem ha
      rw [List.filter_cons_of_neg (by simpa using ha)]
      exact (outcome_bind_of_yields hrepeat).trans (ih hs)
    · rw [List.filter_cons_of_pos (by simpa using ha), List.eraseDups_cons, filter_filter_notMem]
      refine outcome_bind_congr fun s' h => ?_
      have hdone := (hremembers a).notes s s' ha h
      rw [← hdone]
      refine ih fun id hid => ?_
      rw [hdone] at hid
      rcases List.mem_cons.mp hid with rfl | hid
      · exact (hremembers id).guards s s' h
      · exact hs id hid

/-- Calls that succeed note each component that is new, once, the last one first. -/
theorem done_of_yields_forM (hremembers : ∀ id, Remembers (handle id) id)
    {calls : List ComponentId} (hcalls : calls.Nodup) {s s' : Assembly β × σ}
    (hnew : ∀ id ∈ calls, id ∉ s.1.visited.done) (h : Yields (calls.forM handle) s () s') :
    s'.1.visited.done = calls.reverse ++ s.1.visited.done := by
  refine yields_forM_invariant (p := fun before s₁ =>
    s₁.1.visited.done = before.reverse ++ s.1.visited.done) ?_ h rfl
  intro before id after s₁ s₂ hsplit hbefore hid
  have hmem : id ∉ s₁.1.visited.done := by
    rw [hbefore, List.mem_append, List.mem_reverse, not_or]
    rw [hsplit] at hcalls
    exact ⟨fun hmem => (List.nodup_append.mp hcalls).2.2 id hmem id List.mem_cons_self rfl,
      hnew id (by rw [hsplit]; exact List.mem_append_right _ List.mem_cons_self)⟩
  rw [(hremembers id).notes s₁ s₂ hmem hid, hbefore, List.reverse_append]
  rfl

end
end Build

/-! ### Visitors -/

namespace Visitor
open Build

/-- A visitor of hosts that takes computes and software in turn only refuses what it has no handler
for. -/
theorem remembers_onHosts (target : String) {v : Visitor (Build β (StateM σ))}
    {compute software : ComponentId → Component → Build β (StateM σ) Unit}
    {id : ComponentId} {c : Component}
    (hv : v.component? = (onHosts target compute software).component?)
    (hcompute : Remembers (compute id c) id)
    (hsoftware : c.isA .compute = false → Remembers (software id c) id) :
    Remembers (v.acceptComponent id c) id := by
  unfold acceptComponent
  rw [hv]
  cases hkind : c.kind
  case compute => exact hcompute
  case generic => exact remembers_throw
  all_goals exact hsoftware (by rw [Component.isA, hkind]; rfl)

/-- A visitor for which repeated calls make no difference. Calls that succeed lead to the state
and the world that the first call for each component leads to, they have handled just these
components, and whether calls fail, and with which fault, does not depend on repeats. -/
structure Idempotent (v : Visitor (Build β (StateM σ))) (t : Topology) (start : β) : Prop where
  outcome_eq : ∀ calls w, Build.outcome (v.handle t calls) ({ built := start }, w) =
    Build.outcome (v.handle t calls.eraseDups) ({ built := start }, w)
  done_eq : ∀ calls w s', Yields (v.handle t calls) ({ built := start }, w) () s' →
    s'.1.visited.done = calls.eraseDups.reverse

theorem idempotent_of_remembers {v : Visitor (Build β (StateM σ))} {t : Topology} (start : β)
    (h : ∀ id, Remembers (v.acceptComponent id (t.component id)) id) : v.Idempotent t start := by
  have houtcome (calls : List ComponentId) (w : σ) :
      Build.outcome (v.handle t calls) ({ built := start }, w) =
        Build.outcome (v.handle t calls.eraseDups) ({ built := start }, w) := by
    have hall := outcome_forM_eq h calls (s := ({ built := start }, w)) fun _ hid => by cases hid
    rwa [List.filter_eq_self.mpr (fun _ _ => by simp)] at hall
  refine ⟨houtcome, fun calls w s' hs => ?_⟩
  have hfirst : Yields (v.handle t calls.eraseDups) ({ built := start }, w) () s' := by
    rw [Yields, ← houtcome]
    exact hs
  rw [done_of_yields_forM h (OrderedMap.nodup_eraseDups calls) (fun _ _ hid => by cases hid) hfirst,
    List.append_nil]

end Visitor
open Build

/-- **Visits are idempotent in every backend.** Whatever handlers of a visitor are called, for
whichever components, in whatever order and with whatever repeats: where the calls succeed, the
resources and parameters, stacks, plays, machines and scripts that they leave, and the files that
they write, are those of the calls with each call for a component that was handled before left
out. -/
theorem visits_idempotent (job : Job (StateM σ)) :
    (Heat.visitor job).Idempotent job.model.topology {} ∧
    (Kubernetes.visitor job).Idempotent job.model.topology {} ∧
    (Ansible.visitor job).Idempotent job.model.topology .empty ∧
    (Azure.visitor job).Idempotent job.model.topology {} := by
  refine ⟨Visitor.idempotent_of_remembers _ fun id => ?_,
    Visitor.idempotent_of_remembers _ fun id => ?_,
    Visitor.idempotent_of_remembers _ fun id => ?_,
    Visitor.idempotent_of_remembers _ fun id => ?_⟩
  · exact Visitor.remembers_onHosts _ rfl (remembers_once (Heat.handles_addCompute id))
      fun hid => remembers_once (Heat.handles_addSoftware hid)
  · exact Visitor.remembers_onHosts Kubernetes.target rfl
      (remembers_once (Kubernetes.handles_addCompute id))
      fun hid => remembers_once (Kubernetes.handles_addSoftware hid)
  · exact Visitor.remembers_onHosts _ rfl
      (remembers_once (Ansible.handles_addCompute job.model.topology id))
      fun hid => remembers_once (Ansible.handles_addSoftware hid)
  · exact Visitor.remembers_onHosts _ rfl (remembers_once (Azure.handles_addCompute id))
      fun hid => remembers_once (Azure.handles_addSoftware hid)

/-- Whether calls for the components of the web application succeed, those for the application and
its machine repeated in turn. -/
def repeatsSucceed {β : Type} (visitor : Job Memory.M → Visitor (Build β Memory.M)) (start : β)
    (model : Model) : Bool :=
  (Build.outcome ((visitor (webJob model)).handle model.topology [1, 0, 1, 0, 0])
    ({ built := start }, {})).1.1.isOk

example : (((EntityGraph.ofValue true webDocument).mapError (.unreadableModel "web.yaml") >>=
    Model.build "web").map fun m =>
      (repeatsSucceed Heat.visitor {} m, repeatsSucceed Kubernetes.visitor {} m,
        repeatsSucceed Ansible.visitor .empty m, repeatsSucceed Azure.visitor {} m)) =
    .ok (true, true, true, true) := by decide +kernel

end Provision
