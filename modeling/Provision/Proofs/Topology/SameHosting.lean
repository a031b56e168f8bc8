import Mathlib.Data.List.Sort
import Provision.Proofs.Topology.Order

/-! What the walks along hosts depend on.

The hosting order and the stacks ask a topology for two things only: what a component stands
on, and what stands on it. Both answers are sets, listed in ascending order. So a walk does not
see how often an edge is declared, in which place, or among which others, and topologies of the
same components in which the same components stand on each other are walked alike, from step to
step. -/
namespace Provision

namespace Topology

/-- Two topologies have the same components, and the same components stand directly on each
other. -/
structure SameHosting (t u : Topology) : Prop where
  components : t.components = u.components
  hostedOn : ∀ id host, t.HostedOn id host ↔ u.HostedOn id host

/-- The ends of the edges of a kind, one pair for each edge. -/
def pairs (t : Topology) (k : RelationKind) : List (ComponentId × ComponentId) :=
  (t.edges.toList.filter fun e => e.isA k).map fun e => (e.source, e.target)

theorem mem_pairs_hostedOn {t : Topology} {id host : ComponentId} :
    (id, host) ∈ t.pairs .hostedOn ↔ t.HostedOn id host := by
  simp only [pairs, HostedOn, List.mem_map, List.mem_filter, Array.mem_toList_iff, Prod.mk.injEq]
  constructor
  · rintro ⟨e, ⟨he, hkind⟩, hsource, htarget⟩
    exact ⟨e, he, hsource, htarget, hkind⟩
  · rintro ⟨e, he, hsource, htarget, hkind⟩
    exact ⟨e, ⟨he, hkind⟩, hsource, htarget⟩

/-- An edge that hosts nothing may be added. -/
theorem sameHosting_addRelation {t : Topology} {source target : ComponentId} {r : Relation}
    (hr : Kind.isA r.kind .hostedOn = false) :
    SameHosting (t.addRelation source target r).2 t := by
  refine ⟨rfl, fun id host => ?_⟩
  have hnew : (⟨source, target, r⟩ : Edge).isA .hostedOn = false := hr
  rw [← mem_pairs_hostedOn, ← mem_pairs_hostedOn, pairs, pairs, addRelation, Array.toList_push,
    List.filter_append, List.filter_singleton, hnew, cond_false, List.append_nil]

namespace SameHosting

variable {t u : Topology} (h : SameHosting t u)
include h

theorem size_eq : t.size = u.size := congrArg Array.size h.components

theorem component_eq : t.component = u.component := by
  unfold component
  rw [h.components]

theorem targets_eq (id : ComponentId) : t.targets id .hostedOn = u.targets id .hostedOn := by
  have hmem (host : ComponentId) :
      host ∈ t.targets id .hostedOn ↔ host ∈ u.targets id .hostedOn := by
    rw [mem_targets_hostedOn, mem_targets_hostedOn, h.hostedOn]
  exact (ascending_pairwise _).eq_of_mem_iff (ascending_pairwise _) hmem

theorem sources_eq (host : ComponentId) :
    t.sources host .hostedOn = u.sources host .hostedOn := by
  have hmem (id : ComponentId) :
      id ∈ t.sources host .hostedOn ↔ id ∈ u.sources host .hostedOn := by
    rw [mem_sources_hostedOn, mem_sources_hostedOn, h.hostedOn]
  exact (ascending_pairwise _).eq_of_mem_iff (ascending_pairwise _) hmem

/-! ### The sweep -/

theorem start_eq : Sweep.start t = Sweep.start u := by
  simp only [Sweep.start, ids, h.size_eq, h.targets_eq]

/-- Taking the next component settles the same components. -/
theorem advance_eq (s : Sweep) : s.advance t = s.advance u := by
  simp only [Sweep.advance, h.sources_eq]

theorem run_eq (room : Nat) (s : Sweep) : Sweep.run t room s = Sweep.run u room s := by
  induction room generalizing s with
  | zero => rfl
  | succ room ih => rw [Sweep.run, Sweep.run, h.advance_eq, ih]

theorem hostingOrder_eq : t.hostingOrder = u.hostingOrder := by
  have hstuck (s : Sweep) : s.stuck? t = s.stuck? u := by
    simp only [Sweep.stuck?, ids, h.size_eq]
  simp only [hostingOrder, h.size_eq, h.start_eq, h.run_eq, hstuck, h.component_eq]

/-! ### The descent -/

theorem descend_eq (host : ComponentId) (room : Nat) (d : Descent) :
    t.descend host room d = u.descend host room d := by
  induction room generalizing d with
  | zero => rfl
  | succ room ih => simp only [descend, h.sources_eq, ih]

theorem stackOn_eq (host : ComponentId) : t.stackOn host = u.stackOn host := by
  rw [stackOn, stackOn, h.size_eq, h.descend_eq]

end SameHosting

/-- A sweep that does not reach every component names one that it has not reached. -/
theorem hostingOrder_cases (t : Topology) :
    (∃ order, t.hostingOrder = .ok order) ∨
      ∃ name, t.hostingOrder = .error (.hostingCycle name) := by
  unfold hostingOrder
  dsimp only
  split
  · exact .inr ⟨_, rfl⟩
  · exact .inl ⟨_, rfl⟩

/-- **Only who stands on whom decides the hosting order and the stacks.** Topologies of the same
components in which hosting edges join the same pairs have one hosting order, or fail with one
fault, and every component has the same stack in both: however often, in whichever order and
among whichever other relations the edges are declared. -/
theorem walked_alike {t u : Topology} (h : SameHosting t u) :
    ((∃ order, t.hostingOrder = .ok order ∧ u.hostingOrder = .ok order) ∨
      ∃ name, t.hostingOrder = .error (.hostingCycle name) ∧
        u.hostingOrder = .error (.hostingCycle name)) ∧
      ∀ host, t.stackOn host = u.stackOn host := by
  refine ⟨?_, h.stackOn_eq⟩
  rw [← h.hostingOrder_eq]
  rcases t.hostingOrder_cases with ⟨order, horder⟩ | ⟨name, hname⟩
  · exact .inl ⟨order, horder, horder⟩
  · exact .inr ⟨name, hname, hname⟩

/-- The components of `stacked` on the same hosts, with the edges in another order, other ones
repeated, and relations of other kinds in between. -/
def scattered : Topology :=
  let relation (kind : RelationKind) : Relation :=
    { name := Kind.typeName kind, kind, source := "", target := "" }
  [(0, 1, .connectsTo), (0, 1, .hostedOn), (2, 0, .dependsOn), (1, 2, .hostedOn),
      (0, 2, .hostedOn), (0, 1, .hostedOn)].foldl
    (fun t e => (t.addRelation e.1 e.2.1 (relation e.2.2)).2) { stacked with edges := #[] }

theorem walked_alike_scattered :
    SameHosting stacked scattered ∧ stacked.hostOf? 0 = some 2 ∧ scattered.hostOf? 0 = some 1 ∧
      stacked.hostingOrder = .ok [2, 1, 0] ∧ scattered.hostingOrder = .ok [2, 1, 0] ∧
      stacked.stackOn 2 = [0, 1] ∧ scattered.stackOn 2 = [0, 1] := by
  have hsame : SameHosting stacked scattered := by
    refine ⟨rfl, fun id host => ?_⟩
    have hstacked : stacked.pairs .hostedOn = [(1, 2), (1, 2), (0, 2), (0, 1)] := by
      decide +kernel
    have hscattered : scattered.pairs .hostedOn = [(0, 1), (1, 2), (0, 2), (0, 1)] := by
      decide +kernel
    rw [← mem_pairs_hostedOn, ← mem_pairs_hostedOn, hstacked, hscattered]
    simp only [List.mem_cons, Prod.mk.injEq, List.not_mem_nil, or_false]
    tauto
  have horder : stacked.hostingOrder = .ok [2, 1, 0] := by decide +kernel
  have hstack : stacked.stackOn 2 = [0, 1] := by decide +kernel
  obtain ⟨hsameOrder, hsameStack⟩ := walked_alike hsame
  refine ⟨hsame, by decide +kernel, by decide +kernel, horder, ?_, hstack, ?_⟩
  · rcases hsameOrder with ⟨order, hfound, hscattered⟩ | ⟨name, hfault, _⟩
    · cases horder.symm.trans hfound
      exact hscattered
    · cases horder.symm.trans hfault
  · rw [← hsameStack, hstack]

end Topology
end Provision
