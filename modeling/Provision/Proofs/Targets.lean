import Provision.Deployment.Execution
import Provision.Proofs.Placement
import Provision.Proofs.Backend.Failure

/-! Targets beside each other.

Each target of a request has a world of its own, which only its workspace acts on. A request
is refused before the first target is run: for a target that nobody knows, a model that
cannot be read, or one that cannot be built. Otherwise the targets are run one after the
other, and each run depends on the model, which never changes, and on the target's own world.
So whatever fails in one of them, the others come to what they come to alone. -/
namespace Provision
open Yaml (Value)

variable {σ : Type}

/-! ### Worlds of their own -/

/-- What was announced, and the world of each target. -/
structure Grounds (σ : Type) where
  notices : List Notice := []
  worlds : String → σ

def Grounds.announced (w : Grounds σ) (notice : Notice) : Grounds σ :=
  { w with notices := w.notices ++ [notice] }

/-- A site at which every target has a workspace in a world of its own. What a run leaves is
that world. -/
def Site.separate (workspace : String → Workspace (StateM σ))
    (readModel : String → Except Fault EntityGraph) : Site (StateM (Grounds σ)) (StateM σ) σ where
  readModel path := ofExcept (readModel path)
  announce notice := modify fun s => s.announced notice
  inWorkspace target run := do
    let s ← get
    let (result, world) := (run (workspace target)).run (s.worlds target)
    set { s with worlds := Function.update s.worlds target world }
    return (result, world)

namespace Request

/-- The model of a request. -/
def modelOf (r : Request) (readModel : String → Except Fault EntityGraph) : Except Fault Model :=
  readModel r.modelPath >>= Model.build r.modelName

/-- What a request is refused with: the first target that is not known or, if all are, what is
wrong with the model. -/
inductive Refused (r : Request) (registry : Registry (StateM σ))
    (readModel : String → Except Fault EntityGraph) : Fault → Prop where
  | unknown {before after : List String} {target : String}
      (htargets : r.targets = before ++ target :: after)
      (hbefore : ∀ t ∈ before, registry.contains t = true)
      (htarget : registry.contains target = false) :
      Refused r registry readModel (.unknownTarget target registry.names)
  | noModel {f : Fault} (hknown : ∀ t ∈ r.targets, registry.contains t = true)
      (hmodel : r.modelOf readModel = .error f) : Refused r registry readModel f

/-- What comes of a target that is run in its world. -/
def outcomeOf (r : Request) (registry : Registry (StateM σ)) (workspace : Workspace (StateM σ))
    (model : Model) (target : String) (world : σ) : Outcome σ :=
  match (r.runTarget registry model target workspace).run world with
  | (.ok (), left) => { target, error := none, left }
  | (.error e, left) => { target, error := some e, left }

variable {r : Request} {registry : Registry (StateM σ)} {workspace : String → Workspace (StateM σ)}
  {readModel : String → Except Fault EntityGraph} {model : Model} {w : Grounds σ}

@[simp]
theorem target_outcomeOf (workspace : Workspace (StateM σ)) (target : String) (world : σ) :
    (r.outcomeOf registry workspace model target world).target = target := by
  unfold outcomeOf
  split <;> rfl

/-! ### Running targets -/

theorem run_inWorkspace {α : Type} {run : Workspace (StateM σ) → StateM σ α} {target : String}
    {a : α} {left : σ} (h : (run (workspace target)).run (w.worlds target) = (a, left)) :
    ((Site.separate workspace readModel).inWorkspace target run).run w =
      ((a, left), { w with worlds := Function.update w.worlds target left }) := by
  obtain ⟨rfl, rfl⟩ := Prod.ext_iff.mp h
  rfl

/-- One target comes to its outcome, and no other world changes. -/
theorem run_generate (r : Request) (registry : Registry (StateM σ))
    (workspace : String → Workspace (StateM σ)) (readModel : String → Except Fault EntityGraph)
    (model : Model) (target : String) (w : Grounds σ) :
    ∃ w', (r.generate registry (.separate workspace readModel) model target).run w =
        (r.outcomeOf registry (workspace target) model target (w.worlds target), w') ∧
      w'.worlds = Function.update w.worlds target
        (r.outcomeOf registry (workspace target) model target (w.worlds target)).left := by
  unfold generate outcomeOf
  rcases hrun : (r.runTarget registry model target (workspace target)).run (w.worlds target)
    with ⟨e | ⟨⟩, left⟩
  · exact ⟨_, Lifecycle.run_bind (run_inWorkspace hrun), rfl⟩
  · exact ⟨_, Lifecycle.run_bind (run_inWorkspace hrun), rfl⟩

/-- What some targets come to that are run one after the other. -/
structure RunsApart (r : Request) (registry : Registry (StateM σ))
    (workspace : String → Workspace (StateM σ)) (model : Model) (targets : List String)
    (worlds : String → σ) (outcomes : List (Outcome σ)) (worlds' : String → σ) : Prop where
  targets_eq : outcomes.map Outcome.target = targets
  elsewhere : ∀ t ∉ targets, worlds' t = worlds t
  /-- Different targets do not know of each other. -/
  apart : targets.Nodup → outcomes = targets.map (fun t =>
    r.outcomeOf registry (workspace t) model t (worlds t)) ∧
      ∀ o ∈ outcomes, worlds' o.target = o.left

section RunsApart
variable {worlds worlds₁ worlds' : String → σ}

theorem RunsApart.nil : r.RunsApart registry workspace model [] worlds [] worlds :=
  ⟨rfl, fun _ _ => rfl, fun _ => ⟨rfl, fun _ ho => absurd ho List.not_mem_nil⟩⟩

theorem RunsApart.cons {target : String} {rest : List String} {outcomes : List (Outcome σ)}
    (hfirst : worlds₁ = Function.update worlds target
      (r.outcomeOf registry (workspace target) model target (worlds target)).left)
    (h : r.RunsApart registry workspace model rest worlds₁ outcomes worlds') :
    r.RunsApart registry workspace model (target :: rest) worlds
      (r.outcomeOf registry (workspace target) model target (worlds target) :: outcomes)
      worlds' := by
  have hother (t : String) (ht : t ≠ target) : worlds₁ t = worlds t := by
    rw [hfirst, Function.update_of_ne ht]
  refine ⟨by rw [List.map_cons, target_outcomeOf, h.targets_eq], fun t ht => ?_, fun hnodup => ?_⟩
  · obtain ⟨hne, hrest⟩ := List.ne_and_not_mem_of_not_mem_cons ht
    rw [h.elsewhere t hrest, hother t hne]
  · obtain ⟨hnew, hrest⟩ := List.nodup_cons.mp hnodup
    obtain ⟨houtcomes, hleft⟩ := h.apart hrest
    refine ⟨?_, List.forall_mem_cons.mpr ⟨?_, hleft⟩⟩
    · rw [houtcomes, List.map_cons]
      refine congrArg (_ :: ·) (List.map_congr_left fun t ht => ?_)
      rw [hother t (ne_of_mem_of_not_mem ht hnew)]
    · rw [target_outcomeOf, h.elsewhere target hnew, hfirst, Function.update_self]

end RunsApart

/-- Running targets never fails, whatever their runs come to. -/
theorem runsApart_of_mapM (r : Request) (registry : Registry (StateM σ))
    (workspace : String → Workspace (StateM σ)) (readModel : String → Except Fault EntityGraph)
    (model : Model) (total : Nat) (l : List (String × Nat)) (w : Grounds σ) :
    let site := Site.separate workspace readModel
    ∃ outcomes w', Ends (l.mapM fun (target, i) => liftM (do
        site.announce (.generating (i + 1) total target)
        r.generate registry site model target)) w outcomes w' ∧
      r.RunsApart registry workspace model (l.map Prod.fst) w.worlds outcomes w'.worlds := by
  intro site
  induction l generalizing w with
  | nil => exact ⟨[], w, by rw [List.mapM_nil]; exact ends_pure.mpr ⟨rfl, rfl⟩, .nil⟩
  | cons p rest ih =>
    obtain ⟨target, i⟩ := p
    obtain ⟨w₁, hgenerate, hfirst⟩ := r.run_generate registry workspace readModel model target
      (w.announced (.generating (i + 1) total target))
    obtain ⟨outcomes, w', hrest, hapart⟩ := ih w₁
    refine ⟨_ :: outcomes, w', ?_, hapart.cons hfirst⟩
    rw [List.mapM_cons]
    exact ends_bind.mpr ⟨_, w₁, ends_liftM.mpr hgenerate,
      ends_bind.mpr ⟨_, w', hrest, ends_pure.mpr ⟨rfl, rfl⟩⟩⟩

/-! ### Requests -/

theorem ends_announce (workspace : String → Workspace (StateM σ))
    (readModel : String → Except Fault EntityGraph) (notice : Notice) (w : Grounds σ) :
    Ends (liftM ((Site.separate workspace readModel).announce notice)) w () (w.announced notice) :=
  rfl

/-- Loading the model touches no world. -/
theorem loadModel_cases (r : Request) (workspace : String → Workspace (StateM σ))
    (readModel : String → Except Fault EntityGraph) (w : Grounds σ) :
    (∃ f w', r.modelOf readModel = .error f ∧
      Halts (r.loadModel (.separate workspace readModel)) w f w' ∧ w'.worlds = w.worlds) ∨
    ∃ model w', r.modelOf readModel = .ok model ∧
      Ends (r.loadModel (.separate workspace readModel)) w model w' ∧ w'.worlds = w.worlds := by
  let loading := w.announced (.loading r.modelPath)
  have hloading : Ends _ w () loading := ends_announce workspace readModel _ w
  unfold modelOf
  cases hread : readModel r.modelPath with
  | error f =>
    have hfails : Halts (ofExcept (readModel r.modelPath)) loading f loading :=
      halts_ofExcept.mpr ⟨hread, rfl⟩
    refine .inl ⟨f, loading, rfl, ?_, rfl⟩
    exact halts_bind.mpr (.inr ⟨_, _, hloading, halts_bind.mpr (.inl hfails)⟩)
  | ok g =>
    have hfound : Ends (ofExcept (readModel r.modelPath)) loading g loading :=
      ends_ofExcept.mpr ⟨hread, rfl⟩
    cases hbuild : Model.build r.modelName g with
    | error f =>
      have hfails : Halts (ofExcept (Model.build r.modelName g)) loading f loading :=
        halts_ofExcept.mpr ⟨hbuild, rfl⟩
      refine .inl ⟨f, loading, hbuild, ?_, rfl⟩
      exact halts_bind.mpr (.inr ⟨_, _, hloading,
        halts_bind.mpr (.inr ⟨_, _, hfound, halts_bind.mpr (.inl hfails)⟩)⟩)
    | ok model =>
      have hbuilt : Ends (ofExcept (Model.build r.modelName g)) loading model loading :=
        ends_ofExcept.mpr ⟨hbuild, rfl⟩
      let notice := Notice.detected model.topology.size model.topology.edges.size
      have hdetected := ends_announce workspace readModel notice loading
      refine .inr ⟨model, loading.announced notice, hbuild, ?_, rfl⟩
      exact ends_bind.mpr ⟨_, _, hloading, ends_bind.mpr ⟨_, _, hfound,
        ends_bind.mpr ⟨_, _, hbuilt, ends_bind.mpr ⟨_, _, hdetected, ends_pure.mpr ⟨rfl, rfl⟩⟩⟩⟩⟩

/-- A request is refused, or all of its targets are run. -/
theorem execute_cases (r : Request) (registry : Registry (StateM σ))
    (workspace : String → Workspace (StateM σ)) (readModel : String → Except Fault EntityGraph)
    (w : Grounds σ) :
    (∃ f w', r.Refused registry readModel f ∧
      Halts (r.execute registry (.separate workspace readModel)) w f w' ∧ w'.worlds = w.worlds) ∨
    ∃ model response w', (∀ t ∈ r.targets, registry.contains t = true) ∧
      r.modelOf readModel = .ok model ∧
      Ends (r.execute registry (.separate workspace readModel)) w response w' ∧
      r.RunsApart registry workspace model r.targets w.worlds response.outcomes w'.worlds := by
  cases hvalid : registry.validate r.targets with
  | error f =>
    obtain ⟨before, target, after, htargets, hbefore, htarget⟩ := exists_of_forM_eq_error hvalid
    have hfails : Halts (ofExcept (registry.validate r.targets)) w f w :=
      halts_ofExcept.mpr ⟨hvalid, rfl⟩
    refine .inl ⟨f, w, ?_, halts_bind.mpr (.inl hfails), rfl⟩
    split at htarget
    · cases htarget
    · next hunknown =>
      cases htarget
      refine .unknown htargets (fun t ht => ?_) (Bool.eq_false_of_not_eq_true hunknown)
      by_contra hnot
      have hok := hbefore t ht
      rw [if_neg hnot] at hok
      cases hok
  | ok u =>
    have hknown : ∀ t ∈ r.targets, registry.contains t = true := by
      intro t ht
      by_contra hnot
      have hok := forM_eq_ok.mp hvalid t ht
      rw [if_neg hnot] at hok
      cases hok
    have hpasses : Ends (ofExcept (registry.validate r.targets)) w () w :=
      ends_ofExcept.mpr ⟨hvalid, rfl⟩
    rcases r.loadModel_cases workspace readModel w with
      ⟨f, w', hmodel, hload, hsame⟩ | ⟨model, w₁, hmodel, hload, hsame⟩
    · exact .inl ⟨f, w', .noModel hknown hmodel,
        halts_bind.mpr (.inr ⟨_, _, hpasses, halts_bind.mpr (.inl hload)⟩), hsame⟩
    · obtain ⟨outcomes, w₂, hall, hapart⟩ := r.runsApart_of_mapM registry workspace readModel model
        r.targets.length r.targets.zipIdx w₁
      let notice := Notice.finished (outcomes.countP fun o => !o.succeeded) r.targets.length
      have hfinished := ends_announce workspace readModel notice w₂
      rw [List.zipIdx_map_fst, hsame] at hapart
      refine .inr ⟨model, { modelName := model.name, outcomes }, w₂.announced notice, hknown,
        hmodel, ?_, hapart⟩
      exact ends_bind.mpr ⟨_, _, hpasses, ends_bind.mpr ⟨_, _, hload, ends_bind.mpr ⟨_, _, hall,
        ends_bind.mpr ⟨_, _, hfinished, ends_pure.mpr ⟨rfl, rfl⟩⟩⟩⟩⟩

/-- A request for which all is known, and which has a model, is not refused. -/
theorem not_refused {f : Fault} (hknown : ∀ t ∈ r.targets, registry.contains t = true)
    (hmodel : r.modelOf readModel = .ok model) : ¬ r.Refused registry readModel f := by
  intro h
  cases h with
  | unknown htargets _ htarget =>
    have hmem := hknown _ (htargets ▸ List.mem_append_right _ List.mem_cons_self)
    rw [htarget] at hmem
    cases hmem
  | noModel _ hfails => cases hmodel.symm.trans hfails

/-- **Either a request is refused before any target is run, or each target comes to what it comes
to alone.** Refused, it reports the first target that is not known or what is wrong with the model,
and all worlds are as before. Otherwise there is one outcome for each target, in order, and the
worlds of other targets are as before. If the targets are different, the outcome of each, what it
left included, is the only one of the request for just this target. -/
theorem targets_independent (r : Request) (registry : Registry (StateM σ))
    (workspace : String → Workspace (StateM σ)) (readModel : String → Except Fault EntityGraph)
    (w : Grounds σ) :
    let site := Site.separate workspace readModel
    (∃ f w', Halts (r.execute registry site) w f w' ∧ r.Refused registry readModel f ∧
      w'.worlds = w.worlds) ∨
    ∃ response w', Ends (r.execute registry site) w response w' ∧
      (∀ f, ¬ r.Refused registry readModel f) ∧
      response.outcomes.map Outcome.target = r.targets ∧
      (∀ t ∉ r.targets, w'.worlds t = w.worlds t) ∧
      (r.targets.Nodup → ∀ o ∈ response.outcomes, w'.worlds o.target = o.left ∧
        ∃ alone w₁, Ends ({ r with targets := [o.target] }.execute registry site) w alone w₁ ∧
          alone.outcomes = [o]) := by
  intro site
  rcases r.execute_cases registry workspace readModel w with
    ⟨f, w', hrefused, hexecute, hsame⟩ | ⟨model, response, w', hknown, hmodel, hexecute, hapart⟩
  · exact .inl ⟨f, w', hexecute, hrefused, hsame⟩
  · refine .inr ⟨response, w', hexecute, fun f => not_refused hknown hmodel, hapart.targets_eq,
      hapart.elsewhere, fun hnodup o ho => ?_⟩
    obtain ⟨houtcomes, hleft⟩ := hapart.apart hnodup
    refine ⟨hleft o ho, ?_⟩
    rw [houtcomes] at ho
    obtain ⟨target, htarget, rfl⟩ := List.mem_map.mp ho
    rw [target_outcomeOf]
    let single : Request := { r with targets := [target] }
    have hsingle : ∀ t ∈ single.targets, registry.contains t = true :=
      List.forall_mem_singleton.mpr (hknown target htarget)
    rcases single.execute_cases registry workspace readModel w with
      ⟨f, _, hrefused, _, _⟩ | ⟨model', alone, w₁, _, hmodel', halone, hapart'⟩
    · exact absurd hrefused (not_refused hsingle hmodel)
    · cases hmodel.symm.trans hmodel'
      exact ⟨alone, w₁, halone, (hapart'.apart (List.nodup_singleton _)).1⟩

end Request

/-- Two targets, one of which does not find its scripts. -/
def mixedRequest : Request := .forModel "web.yaml" "out" ["heat", "azure"]

def mixedWorkspace (target : String) : Workspace Memory.M :=
  if target = "heat" then Memory.workspace {}
  else Memory.workspace
    { sources := .ofList [("start.sh", "serve"), ("fetch.sh", "fetch"), ("unpack.sh", "unpack")] }

def readWeb (path : String) : Except Fault EntityGraph :=
  (EntityGraph.ofValue true webDocument).mapError (.unreadableModel path)

/-- The outcomes of the request in short. -/
def mixedOutcomes : List (String × Bool × List String) :=
  [("heat", false, []),
    ("azure", true,
      ["scripts/app_fetch.sh", "scripts/app_unpack.sh", "scripts/app_start.sh", "web.json"])]

/-- Only the target without scripts fails, and the other one writes what it writes alone. -/
theorem targets_independent_mixed : ∃ response w', mixedRequest.targets.Nodup ∧
    Ends (mixedRequest.execute .standard (.separate mixedWorkspace readWeb))
      { worlds := fun _ => {} } response w' ∧
    response.outcomes.map (fun o => (o.target, o.succeeded, o.left.files.keys)) = mixedOutcomes ∧
    ∀ o ∈ response.outcomes, ∃ alone w₁,
      Ends ({ mixedRequest with targets := [o.target] }.execute .standard
        (.separate mixedWorkspace readWeb)) { worlds := fun _ => {} } alone w₁ ∧
          alone.outcomes = [o] := by
  let start : Grounds Memory.Store := { worlds := fun _ => {} }
  have hmixed : (outcome (mixedRequest.execute .standard (.separate mixedWorkspace readWeb))
      start).1.toOption.map (fun response =>
        response.outcomes.map fun o => (o.target, o.succeeded, o.left.files.keys)) =
      some mixedOutcomes := by
    decide +kernel
  have hnodup : mixedRequest.targets.Nodup := by decide
  rcases mixedRequest.targets_independent .standard mixedWorkspace readWeb start with
    ⟨f, w', hexecute, _⟩ | ⟨response, w', hexecute, _, _, _, halone⟩
  · rw [show outcome _ start = _ from hexecute] at hmixed
    cases hmixed
  · rw [show outcome _ start = _ from hexecute] at hmixed
    exact ⟨response, w', hnodup, hexecute, Option.some.inj hmixed,
      fun o ho => (halone hnodup o ho).2⟩

end Provision
