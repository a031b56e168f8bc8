import Provision.Proofs.Data.Except
import Provision.Proofs.Topology.Placement
import Provision.Topology.Visit

/-! The calls of a visit.

Kinds pass their elements on along the lineage, so an element gets to the nearest handler
above its kind, and it is rejected if there is none. A visit therefore comes down to a list
of calls: one for each component in hosting order and then one for each edge in the order of
declaration. It makes all of them, or those of the elements before the first one that has no
handler, and none at all if components are hosted in a circle. -/
namespace Provision

/-! ### The nearest handler -/

namespace Kind
variable {κ α : Type} [Kind κ]

/-- Going up from a kind, `j` is the first one that is given a handler, and `h` is that
handler. -/
inductive Nearest (given? : κ → Option α) : κ → κ → α → Prop where
  | own {k : κ} {h : α} : given? k = some h → Nearest given? k k h
  | above {k p j : κ} {h : α} : given? k = none → parent k = some p → Nearest given? p j h →
      Nearest given? k j h

theorem Nearest.given {given? : κ → Option α} {k j : κ} {h : α} (hn : Nearest given? k j h) :
    given? j = some h := by
  induction hn with
  | own hown => exact hown
  | above _ _ _ ih => exact ih

theorem Nearest.mem_lineage {given? : κ → Option α} {k j : κ} {h : α}
    (hn : Nearest given? k j h)
    (hlineage : ∀ k : κ, lineage k = k :: ((parent k).map lineage).getD []) : j ∈ lineage k := by
  induction hn with
  | own _ =>
    rw [hlineage]
    exact List.mem_cons_self
  | above _ hparent _ ih =>
    rw [hlineage, hparent]
    exact List.mem_cons_of_mem _ ih

/-- A kind has the handler that it is given, else that of its parent. A kind without parent
rejects. -/
def PassesOn (given? : κ → Option α) (reject : α) (handler : κ → α) : Prop :=
  ∀ k, handler k = (given? k).getD (((parent k).map handler).getD reject)

/-- Passing on ends at the nearest handler, or rejects because nothing above has one. -/
theorem PassesOn.nearest_or_reject {given? : κ → Option α} {reject : α} {handler : κ → α}
    (hp : PassesOn given? reject handler)
    (hlineage : ∀ k : κ, lineage k = k :: ((parent k).map lineage).getD []) (k : κ) :
    (∃ j, Nearest given? k j (handler k)) ∨
      (∀ j ∈ lineage k, given? j = none) ∧ handler k = reject := by
  generalize hl : lineage k = l
  induction l generalizing k with
  | nil =>
    rw [hlineage] at hl
    cases hl
  | cons first rest ih =>
    rw [hlineage] at hl
    obtain ⟨rfl, hrest⟩ := List.cons.inj hl
    have hk := hp k
    cases hgiven : given? k with
    | some h =>
      rw [hgiven] at hk
      exact .inl ⟨k, .own (hk ▸ hgiven)⟩
    | none =>
      rw [hgiven, Option.getD_none] at hk
      cases hparent : parent k with
      | none =>
        rw [hparent] at hk hrest
        subst hrest
        exact .inr ⟨List.forall_mem_singleton.mpr hgiven, hk⟩
      | some p =>
        rw [hparent] at hk hrest
        rw [hk]
        rcases ih p hrest with ⟨j, hj⟩ | ⟨hnone, hreject⟩
        · exact .inl ⟨j, .above hgiven hparent hj⟩
        · exact .inr ⟨List.forall_mem_cons.mpr ⟨hgiven, hnone⟩, hreject⟩

end Kind

/-! ### Elements and calls -/

/-- What a visit comes to. -/
inductive Element where
  | component (id : ComponentId)
  | edge (e : Edge)

/-- The elements of a topology: components in some order, then the edges as declared. -/
def Topology.elements (t : Topology) (order : List ComponentId) : List Element :=
  order.map .component ++ t.edges.toList.map .edge

namespace Visitor

/-- A call of a handler: the kind that the handler is given for, and what it is called with. -/
inductive Call where
  | component (k : ComponentKind) (id : ComponentId) (c : Component)
  | edge (k : RelationKind) (e : Edge)

section
variable {m : Type → Type}

/-- Runs the handler that is called. -/
def perform [Monad m] (v : Visitor m) : Call → m Unit
  | .component k id c =>
    match v.component? k with
    | some handle => handle id c
    | none => return ()
  | .edge k e =>
    match v.relation? k with
    | some handle => handle e
    | none => return ()

/-- A call is for an element: it calls the nearest handler above the element's kind. -/
inductive Answers (v : Visitor m) (t : Topology) : Element → Call → Prop where
  | component {id : ComponentId} {k : ComponentKind} {handle : ComponentId → Component → m Unit} :
      Kind.Nearest v.component? (t.component id).kind k handle →
      Answers v t (.component id) (.component k id (t.component id))
  | edge {e : Edge} {k : RelationKind} {handle : Edge → m Unit} :
      Kind.Nearest v.relation? e.kind k handle → Answers v t (.edge e) (.edge k e)

/-- No kind that the element is of is given a handler. -/
def Unanswered (v : Visitor m) (t : Topology) : Element → Prop
  | .component id => ∀ k, (t.component id).isA k = true → v.component? k = none
  | .edge e => ∀ k, e.isA k = true → v.relation? k = none

/-- An element without a handler is not called for. -/
theorem Unanswered.not_answers {v : Visitor m} {t : Topology} {e : Element}
    (h : v.Unanswered t e) {call : Call} : ¬ v.Answers t e call := by
  intro hcall
  cases hcall with
  | component hn =>
    have hnone := h _ (decide_eq_true (hn.mem_lineage ComponentKind.lineage_eq))
    rw [hn.given] at hnone
    cases hnone
  | edge hn =>
    have hnone := h _ (decide_eq_true (hn.mem_lineage RelationKind.lineage_eq))
    rw [hn.given] at hnone
    cases hnone

/-- The fault that names an element and its kind. -/
def unsupported (v : Visitor m) (t : Topology) : Element → Fault
  | .component id =>
    .unsupportedKind v.target (Kind.typeName (t.component id).kind) (t.component id).name
  | .edge e =>
    .unsupportedKind v.target (Kind.typeName e.kind)
      (e.relation.source ++ " -> " ++ e.relation.target)

end

/-- Components are passed on along the lineage of their kinds, and so are edges. -/
theorem passesOn_componentHandler {α : Type} (given? : ComponentKind → Option α) (reject : α) :
    Kind.PassesOn given? reject (componentHandler given? reject) := by
  intro k
  cases k <;> rfl

theorem passesOn_relationHandler {α : Type} (given? : RelationKind → Option α) (reject : α) :
    Kind.PassesOn given? reject (relationHandler given? reject) := by
  intro k
  cases k <;> rfl

section
variable {m : Type → Type} [Monad m] [MonadExceptOf Fault m]

def accept (v : Visitor m) (t : Topology) : Element → m Unit
  | .component id => v.acceptComponent id (t.component id)
  | .edge e => v.acceptRelation e

/-- An element is handled by the call for it, or rejected. -/
theorem accept_eq (v : Visitor m) (t : Topology) (e : Element) :
    (∃ call, v.Answers t e call ∧ v.accept t e = v.perform call) ∨
      v.Unanswered t e ∧ v.accept t e = throw (v.unsupported t e) := by
  cases e with
  | component id =>
    have hpass := passesOn_componentHandler v.component? v.rejectComponent
    rcases hpass.nearest_or_reject ComponentKind.lineage_eq (t.component id).kind with
      ⟨k, hk⟩ | ⟨hnone, hreject⟩
    · refine .inl ⟨_, .component hk, ?_⟩
      simp only [perform, hk.given]
      rfl
    · refine .inr ⟨fun k hk => hnone k (of_decide_eq_true hk), ?_⟩
      show componentHandler v.component? v.rejectComponent _ id _ = _
      rw [hreject]
      rfl
  | edge e =>
    have hpass := passesOn_relationHandler v.relation? v.rejectRelation
    rcases hpass.nearest_or_reject RelationKind.lineage_eq e.kind with ⟨k, hk⟩ | ⟨hnone, hreject⟩
    · refine .inl ⟨_, .edge hk, ?_⟩
      simp only [perform, hk.given]
      rfl
    · refine .inr ⟨fun k hk => hnone k (of_decide_eq_true hk), ?_⟩
      show relationHandler v.relation? v.rejectRelation _ e = _
      rw [hreject]
      rfl

end

/-! ### The visit -/

section
variable {m : Type → Type} [Monad m] [LawfulMonad m] {t : Topology}

/-- Accepting elements one after the other makes the calls for them, up to the first element
that has none. -/
theorem forM_accept (v : Visitor (ExceptT Fault m)) (t : Topology) (l : List Element) :
    (∃ calls, List.Forall₂ (v.Answers t) l calls ∧ l.forM (v.accept t) = calls.forM v.perform) ∨
      ∃ done e rest calls, l = done ++ e :: rest ∧ List.Forall₂ (v.Answers t) done calls ∧
        v.Unanswered t e ∧
        l.forM (v.accept t) = (do calls.forM v.perform; throw (v.unsupported t e)) := by
  induction l with
  | nil => exact .inl ⟨[], .nil, rfl⟩
  | cons e rest ih =>
    have hcons : (e :: rest).forM (v.accept t) = v.accept t e >>= fun _ => rest.forM (v.accept t) :=
      rfl
    rw [hcons]
    rcases v.accept_eq t e with ⟨call, hcall, haccept⟩ | ⟨hnone, hthrow⟩
    · rw [haccept]
      rcases ih with ⟨calls, hcalls, hrest⟩ | ⟨done, e', rest', calls, rfl, hcalls, hnone, hrest⟩
      · refine .inl ⟨call :: calls, .cons hcall hcalls, ?_⟩
        rw [hrest]
        rfl
      · refine .inr ⟨e :: done, e', rest', call :: calls, rfl, .cons hcall hcalls, hnone, ?_⟩
        rw [hrest]
        exact (bind_assoc _ _ _).symm
    · refine .inr ⟨[], e, rest, [], rfl, .nil, hnone, ?_⟩
      rw [hthrow]
      apply ExceptT.ext
      simp

theorem visit_eq_bind (v : Visitor (ExceptT Fault m)) (t : Topology) :
    v.visit t = ofExcept t.hostingOrder >>= fun order => (t.elements order).forM (v.accept t) := by
  have helements (order : List ComponentId) : (t.elements order).forM (v.accept t) =
      (order.forM fun id => v.acceptComponent id (t.component id)) >>= fun _ =>
        v.visitRelations t := by
    rw [Topology.elements, List.forM_eq_forM, List.forM_append, List.forM_map, List.forM_map]
    rfl
  rw [visit, visitComponents, bind_assoc]
  exact bind_congr fun order => (helements order).symm

/-- **A visit calls the nearest handler of every component, hosts first, and then of every
edge as declared.** At the first element without a handler for its kind or one above, it ends
with the fault that names the element, behind the calls for the elements before. Components
that are hosted in a circle are a fault before any call. -/
theorem visit_calls (ht : t.Built) (v : Visitor (ExceptT Fault m)) :
    ((∃ c, Relation.TransGen t.HostedOn c c) →
      ∃ id, v.visit t = throw (Fault.hostingCycle (t.component id).name)) ∧
    ((∀ c, ¬ Relation.TransGen t.HostedOn c c) → ∃ order, t.hostingOrder = .ok order ∧
      ((∃ calls, List.Forall₂ (v.Answers t) (t.elements order) calls ∧
          v.visit t = calls.forM v.perform) ∨
        ∃ done e rest calls, t.elements order = done ++ e :: rest ∧
          List.Forall₂ (v.Answers t) done calls ∧ v.Unanswered t e ∧
          v.visit t = (do calls.forM v.perform; throw (v.unsupported t e)))) := by
  rw [visit_eq_bind]
  cases h : t.hostingOrder with
  | error f =>
    obtain ⟨id, rfl, ⟨_, c, _, hcircle⟩, _⟩ := Topology.hostingOrder_eq_error ht h
    refine ⟨fun _ => ⟨id, ?_⟩, fun hnone => absurd hcircle (hnone c)⟩
    apply ExceptT.ext
    simp [ofExcept]
  | ok order =>
    refine ⟨fun ⟨c, hcircle⟩ => ?_, fun _ => ⟨order, rfl, ?_⟩⟩
    · exact absurd (Topology.idxOf_lt_of_transGen ht h hcircle) (Nat.lt_irrefl _)
    · have hpure : (ofExcept (.ok order) >>= fun order => (t.elements order).forM (v.accept t)) =
          (t.elements order).forM (v.accept t) := pure_bind order _
      rw [hpure]
      exact forM_accept v t (t.elements order)

end

/-- A web server on a machine, and an application on the server. -/
def tiers : Topology :=
  let hostedOn (source target : String) : Relation :=
    { name := "hosted_on", kind := .hostedOn, source, target }
  let t := (Topology.empty.addComponent { name := "shop", kind := .webApplication }).2
  let t := (t.addComponent { name := "tomcat", kind := .tomcat }).2
  let t := (t.addComponent { name := "vm", kind := .compute }).2
  let t := (t.addRelation 0 1 (hostedOn "shop" "tomcat")).2
  (t.addRelation 1 2 (hostedOn "tomcat" "vm")).2

/-- Notes what it is called with, for some kinds. -/
def noting (components : List ComponentKind) (relations : List RelationKind) :
    Visitor (ExceptT Fault (StateM (List (String × String)))) where
  target := "notes"
  component? k :=
    if k ∈ components then some fun _ c => modify (· ++ [(Kind.typeName k, c.name)]) else none
  relation? k :=
    if k ∈ relations then some fun e => modify (· ++ [(Kind.typeName k, e.relation.target)])
    else none

theorem built_tiers : tiers.Built := by
  refine .relation _ (.relation _ (.component _ (.component _ (.component _ .empty))) ?_ ?_) ?_ ?_
    <;> decide +kernel

/-- What a visit of the tiers notes, and whether it succeeds. -/
def notes (v : Visitor (ExceptT Fault (StateM (List (String × String))))) :
    Except Fault Unit × List (String × String) :=
  (v.visit tiers).run.run []

/-- A machine and a web server are handled, but nothing is for an application. -/
theorem visit_calls_tiers :
    let v := noting [.compute, .webServer] []
    tiers.Built ∧ (∀ c, ¬ Relation.TransGen tiers.HostedOn c c) ∧
      tiers.hostingOrder = .ok [2, 1, 0] ∧
      (∃ done e rest calls, tiers.elements [2, 1, 0] = done ++ e :: rest ∧
        List.Forall₂ (v.Answers tiers) done calls ∧ v.Unanswered tiers e ∧
        v.visit tiers = (do calls.forM v.perform; throw (v.unsupported tiers e))) ∧
      notes v = (.error (.unsupportedKind "notes" "web_application" "shop"),
        [("compute", "vm"), ("web_server", "tomcat")]) := by
  intro v
  have horder : tiers.hostingOrder = .ok [2, 1, 0] := by decide +kernel
  have hflat : ∀ c, ¬ Relation.TransGen tiers.HostedOn c c := fun c hcircle =>
    Nat.lt_irrefl _ (Topology.idxOf_lt_of_transGen built_tiers horder hcircle)
  have hnotes : notes v = (.error (.unsupportedKind "notes" "web_application" "shop"),
      [("compute", "vm"), ("web_server", "tomcat")]) := by
    decide +kernel
  have hshop : v.Unanswered tiers (.component 0) := by
    intro k hk
    have hkind : (tiers.component 0).kind = .webApplication := by decide +kernel
    have hk : k ∈ Kind.lineage (tiers.component 0).kind := of_decide_eq_true hk
    rw [hkind] at hk
    rcases List.mem_pair.mp hk with rfl | rfl <;> rfl
  obtain ⟨order, hfound, hcalls⟩ := (visit_calls built_tiers v).2 hflat
  cases horder.symm.trans hfound
  refine ⟨built_tiers, hflat, horder, ?_, hnotes⟩
  rcases hcalls with ⟨calls, hall, _⟩ | hstop
  · have hmem : Element.component 0 ∈ tiers.elements [2, 1, 0] := by simp [Topology.elements]
    obtain ⟨call, _, hcall⟩ := exists_mem_of_forall₂ hall hmem
    exact absurd hcall hshop.not_answers
  · exact hstop

end Visitor
end Provision
