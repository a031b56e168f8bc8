import Mathlib.Data.Fintype.Pigeonhole
import Mathlib.Logic.Relation
import Provision.Topology.Hosting

/-! Topologies as they are built, and the circles in them.

A topology grows by components and by edges between components that are there. So the
ends of its edges are components. A component leads into a circle when hosts lead from
it to a component that stands, in the end, on itself. If each of finitely many
components has a host among them, all of them lead into circles. -/
namespace Provision.Topology

/-- What can be built by adding components, and edges between numbers that were given out. -/
inductive Built : Topology → Prop where
  | empty : Built .empty
  | component {t : Topology} (c : Component) : Built t → Built (t.addComponent c).2
  | relation {t : Topology} {source target : ComponentId} (r : Relation) : Built t →
      source < t.size → target < t.size → Built (t.addRelation source target r).2

theorem size_le_addComponent (t : Topology) (c : Component) :
    t.size ≤ (t.addComponent c).2.size := by
  unfold addComponent
  split
  · exact Nat.le_refl _
  · simp [size]

theorem lt_of_find?_eq_some {t : Topology} {name : String} {id : ComponentId}
    (h : t.find? name = some id) : id < t.size :=
  (Array.findIdx?_eq_some_iff_getElem.mp h).1

/-- The number that a component gets is one of the topology. -/
theorem fst_addComponent_lt (t : Topology) (c : Component) :
    (t.addComponent c).1 < (t.addComponent c).2.size := by
  unfold addComponent
  split
  case h_1 id hfound => exact lt_of_find?_eq_some hfound
  case h_2 => simp [size]

theorem edges_addComponent (t : Topology) (c : Component) :
    (t.addComponent c).2.edges = t.edges := by
  unfold addComponent
  split <;> rfl

/-- Both ends of an edge are components. -/
theorem Built.ends_lt {t : Topology} (h : t.Built) :
    ∀ e ∈ t.edges, e.source < t.size ∧ e.target < t.size := by
  induction h with
  | empty =>
    intro e he
    exact absurd he (Array.not_mem_empty e)
  | @component t c _ ih =>
    intro e he
    rw [edges_addComponent] at he
    have hle := t.size_le_addComponent c
    exact ⟨Nat.lt_of_lt_of_le (ih e he).1 hle, Nat.lt_of_lt_of_le (ih e he).2 hle⟩
  | relation r _ hs ht ih =>
    intro e he
    rcases Array.mem_push.mp he with he | rfl
    · exact ih e he
    · exact ⟨hs, ht⟩

/-! ### Hosts -/

/-- A component stands directly on another one. -/
def HostedOn (t : Topology) (id host : ComponentId) : Prop :=
  ∃ e ∈ t.edges, e.source = id ∧ e.target = host ∧ e.isA .hostedOn

theorem mem_targets_hostedOn {t : Topology} {id host : ComponentId} :
    host ∈ t.targets id .hostedOn ↔ t.HostedOn id host :=
  mem_targets

theorem mem_sources_hostedOn {t : Topology} {id host : ComponentId} :
    id ∈ t.sources host .hostedOn ↔ t.HostedOn id host :=
  mem_sources

theorem Built.lt_of_hostedOn {t : Topology} (h : t.Built) {id host : ComponentId}
    (hh : t.HostedOn id host) : id < t.size ∧ host < t.size := by
  obtain ⟨e, he, rfl, rfl, _⟩ := hh
  exact h.ends_lt e he

/-- Hosts lead from a component into a circle. -/
def LeadsIntoCircle (t : Topology) (id : ComponentId) : Prop :=
  ∃ c, Relation.ReflTransGen t.HostedOn id c ∧ Relation.TransGen t.HostedOn c c

/-! ### Circles -/

/-- Going on forever among finitely many numbers comes back to one of them. -/
theorem exists_circle {r : Nat → Nat → Prop} {p : Nat → Prop} {n : Nat} (hlt : ∀ a, p a → a < n)
    (hnext : ∀ a, p a → ∃ b, p b ∧ r a b) {a : Nat} (ha : p a) :
    ∃ c, Relation.ReflTransGen r a c ∧ Relation.TransGen r c c := by
  choose! next hp hr using hnext
  let walk (k : Nat) : Nat := next^[k] a
  have hwalk (k : Nat) : p (walk k) := by
    induction k with
    | zero => exact ha
    | succ k ih =>
      simp only [walk, Function.iterate_succ_apply']
      exact hp _ ih
  have hstep (k : Nat) : r (walk k) (walk (k + 1)) := by
    simp only [walk, Function.iterate_succ_apply']
    exact hr _ (hwalk k)
  have hreach (i k : Nat) : Relation.ReflTransGen r (walk i) (walk (i + k)) := by
    induction k with
    | zero => exact .refl
    | succ k ih => exact ih.tail (hstep (i + k))
  obtain ⟨i, j, hij, heq⟩ : ∃ i j, i < j ∧ walk i = walk j := by
    obtain ⟨i, j, hne, heq⟩ :=
      Finite.exists_ne_map_eq_of_infinite fun k => (⟨walk k, hlt _ (hwalk k)⟩ : Fin n)
    have heq : walk i = walk j := congrArg Fin.val heq
    rcases Nat.lt_or_gt_of_ne hne with h | h
    · exact ⟨i, j, h, heq⟩
    · exact ⟨j, i, h, heq.symm⟩
  have hthere : Relation.ReflTransGen r (walk 0) (walk i) := Nat.zero_add i ▸ hreach 0 i
  refine ⟨walk i, hthere, ?_⟩
  have hback := hreach (i + 1) (j - (i + 1))
  rw [show i + 1 + (j - (i + 1)) = j by omega, ← heq] at hback
  exact .head' (hstep i) hback

end Provision.Topology
