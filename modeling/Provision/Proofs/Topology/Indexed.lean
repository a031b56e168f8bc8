import Provision.Proofs.Data.Construction
import Provision.Proofs.Topology.Built
import Provision.Topology.Indexed

/-! Indexes stay in step.

Every addition changes several containers of a topology that is kept with indexes. They stay in
step: the number of a name is where its component stands, and a component is listed with the
places of all edges at which it is an end. So all questions have the answers of the topology. -/
namespace Provision.Topology

/-! ### Places of edges -/

/-- The places of the edges that pass a test, ascending. -/
def places (edges : Array Edge) (p : Edge → Bool) : List Nat :=
  (List.range edges.size).filter fun n => p (edges[n]?.getD default)

theorem places_push (edges : Array Edge) (e : Edge) (p : Edge → Bool) :
    places (edges.push e) p = places edges p ++ if p e then [edges.size] else [] := by
  have hold : (List.range edges.size).filter (fun n => p ((edges.push e)[n]?.getD default)) =
      places edges p := by
    refine List.filter_congr fun n hn => ?_
    have hlt := List.mem_range.mp hn
    rw [Array.getElem?_push_lt hlt, Array.getElem?_eq_getElem hlt]
  rw [places, Array.size_push, List.range_succ, List.filter_append, hold, List.filter_singleton,
    Array.getElem?_push_size]
  cases h : p e <;> simp [h]

theorem map_places (edges : Array Edge) (p : Edge → Bool) :
    (places edges p).map (fun n => edges[n]?.getD default) = edges.toList.filter p := by
  have hedges : (List.range edges.size).map (fun n => edges[n]?.getD default) = edges.toList := by
    refine List.ext_getElem (by simp) fun n _ hn => ?_
    rw [List.getElem_map, List.getElem_range, Array.getElem?_eq_getElem (by simpa using hn)]
    rfl
  conv_rhs => rw [← hedges, List.filter_map]
  rfl

theorem places_eq_nil {edges : Array Edge} {p : Edge → Bool} (h : ∀ e ∈ edges, p e = false) :
    places edges p = [] := by
  refine List.filter_eq_nil_iff.mpr fun n hn => ?_
  have hlt := List.mem_range.mp hn
  rw [Array.getElem?_eq_getElem hlt, Option.getD_some, h _ (Array.getElem_mem hlt)]
  exact Bool.false_ne_true

/-- Each component is listed with the places of the edges that have it as an end. -/
structure Lists (numbers : Array (List Nat)) (t : Topology) (atEnd : Edge → ComponentId) :
    Prop where
  size : numbers.size = t.size
  numbers : ∀ id < t.size, numbers[id]? = some (places t.edges fun e => atEnd e == id)

namespace Lists

variable {numbers : Array (List Nat)} {t : Topology} {atEnd : Edge → ComponentId}

/-- No edge ends at a new component. -/
theorem push (h : Lists numbers t atEnd) (hends : ∀ e ∈ t.edges, atEnd e < t.size)
    (c : Component) : Lists (numbers.push []) { t with components := t.components.push c } atEnd where
  size := by
    rw [Array.size_push, h.size, Topology.size, Topology.size, Array.size_push]
  numbers id hid := by
    have hid : id < t.size + 1 := by rwa [Topology.size, Array.size_push] at hid
    rcases Nat.lt_succ_iff_lt_or_eq.mp hid with hid | rfl
    · rw [Array.getElem?_push_lt (by rw [h.size]; exact hid), ← h.numbers id hid,
        Array.getElem?_eq_getElem]
    · rw [← h.size, Array.getElem?_push_size, h.size, places_eq_nil]
      exact fun e he => beq_eq_false_iff_ne.mpr (Nat.ne_of_lt (hends e he))

theorem modify (h : Lists numbers t atEnd) (e : Edge) :
    Lists (numbers.modify (atEnd e) fun ns => ns ++ [t.edges.size])
      { t with edges := t.edges.push e } atEnd where
  size := by
    rw [Array.size_modify, h.size]
    rfl
  numbers id hid := by
    rw [Array.getElem?_modify, h.numbers id hid, places_push]
    by_cases hend : atEnd e = id
    · simp [hend]
    · simp [hend]

end Lists

/-! ### Additions -/

namespace Indexed

/-- What is kept beside a topology is in step with it. -/
structure InStep (x : Indexed) (t : Topology) : Prop where
  topology : x.toTopology = t
  find? : ∀ name, x.find? name = t.find? name
  outgoing : Lists x.outgoing t Edge.source
  incoming : Lists x.incoming t Edge.target

namespace InStep

variable {x : Indexed} {t : Topology}

theorem empty : Indexed.empty.InStep .empty where
  topology := rfl
  find? _ := Array.findIdx?_empty.symm
  outgoing := ⟨rfl, fun _ h => absurd h (Nat.not_lt_zero _)⟩
  incoming := ⟨rfl, fun _ h => absurd h (Nat.not_lt_zero _)⟩

theorem addComponent (h : x.InStep t) (ht : t.Built) (c : Component) :
    (x.addComponent c).1 = (t.addComponent c).1 ∧
      (x.addComponent c).2.InStep (t.addComponent c).2 := by
  obtain ⟨rfl, hfind, hout, hin⟩ := h
  rw [Indexed.addComponent, Topology.addComponent, ← hfind]
  cases hname : x.find? c.name with
  | some id => exact ⟨rfl, rfl, hfind, hout, hin⟩
  | none =>
    refine ⟨rfl, rfl, fun name => ?_, hout.push (fun e he => (ht.ends_lt e he).1) c,
      hin.push (fun e he => (ht.ends_lt e he).2) c⟩
    exact get?_insert_eq_findIdx? hfind hname name

theorem addRelation (h : x.InStep t) (source target : ComponentId) (r : Relation) :
    (x.addRelation source target r).1 = (t.addRelation source target r).1 ∧
      (x.addRelation source target r).2.InStep (t.addRelation source target r).2 := by
  obtain ⟨rfl, hfind, hout, hin⟩ := h
  exact ⟨rfl, rfl, hfind, hout.modify ⟨source, target, r⟩, hin.modify ⟨source, target, r⟩⟩

end InStep

/-! ### Answers -/

/-- A topology with indexes answers as the topology does. -/
structure Mirrors (x : Indexed) (t : Topology) : Prop where
  components : x.components = t.components
  edges : x.edges = t.edges
  find? : ∀ name, x.find? name = t.find? name
  outgoing : ∀ id < t.size, x.outgoingEdges id = t.outgoing id
  incoming : ∀ id < t.size, x.incomingEdges id = t.incoming id
  targets : ∀ id < t.size, ∀ k, x.targets id k = t.targets id k
  sources : ∀ id < t.size, ∀ k, x.sources id k = t.sources id k

theorem InStep.mirrors {x : Indexed} {t : Topology} (h : x.InStep t) : x.Mirrors t := by
  obtain ⟨rfl, hfind, hout, hin⟩ := h
  have houtgoing (id : ComponentId) (hid : id < x.size) :
      x.outgoingEdges id = x.toTopology.outgoing id := by
    rw [outgoingEdges, hout.numbers id hid]
    exact map_places x.edges fun e => e.source == id
  have hincoming (id : ComponentId) (hid : id < x.size) :
      x.incomingEdges id = x.toTopology.incoming id := by
    rw [incomingEdges, hin.numbers id hid]
    exact map_places x.edges fun e => e.target == id
  exact ⟨rfl, rfl, hfind, houtgoing, hincoming,
    fun id hid k => by rw [targets, houtgoing id hid, Topology.targets],
    fun id hid k => by rw [sources, hincoming id hid, Topology.sources]⟩

end Indexed
end Provision.Topology
