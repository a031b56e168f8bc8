import Provision.Proofs.Topology.Order

/-! Where scripts run.

Climbing from a component along its hosts ends at a compute, if it ends at anything. That
compute stands below the component, so the hosting order has it first. The scripts of a
component that is no compute run there: the components of one compute in hosting order,
the operations of a component in the order in which they run, and the artifacts of an
operation as they are declared. -/
namespace Provision

/-- A script, with the component and the operation that it belongs to. -/
structure PlacedScript where
  component : ComponentId
  operation : Operation
  artifact : Artifact

/-- Of two scripts on a compute, one runs first if its component is hosted first. Those of one
component run in the order of their operations. -/
def PlacedScript.RunsBefore (order : List ComponentId) (a b : PlacedScript) : Prop :=
  order.idxOf a.component < order.idxOf b.component ∨
    a.component = b.component ∧ a.operation.runsBefore b.operation

/-! ### The order of operations -/

namespace Operation

theorem runsBefore_iff {a b : Operation} :
    a.runsBefore b ↔ a.rank < b.rank ∨ a.rank = b.rank ∧ a.name ≤ b.name := by
  rw [runsBefore, Bool.or_eq_true, decide_eq_true_iff, Bool.and_eq_true, beq_iff_eq,
    Bool.not_eq_true', decide_eq_false_iff_not, String.not_lt]

theorem runsBefore_refl (o : Operation) : o.runsBefore o :=
  runsBefore_iff.mpr (.inr ⟨rfl, String.le_refl _⟩)

theorem runsBefore_total (a b : Operation) : a.runsBefore b || b.runsBefore a := by
  rw [Bool.or_eq_true, runsBefore_iff, runsBefore_iff]
  rcases Nat.lt_trichotomy a.rank b.rank with hlt | heq | hgt
  · exact .inl (.inl hlt)
  · rcases String.le_total a.name b.name with hname | hname
    · exact .inl (.inr ⟨heq, hname⟩)
    · exact .inr (.inr ⟨heq.symm, hname⟩)
  · exact .inr (.inl hgt)

theorem runsBefore_trans (a b c : Operation) (hab : a.runsBefore b) (hbc : b.runsBefore c) :
    a.runsBefore c := by
  rw [runsBefore_iff] at *
  rcases hab with hab | ⟨hab, hname⟩
  · omega
  · rcases hbc with hbc | ⟨hbc, hname'⟩
    · omega
    · exact .inr ⟨hab.trans hbc, String.le_trans hname hname'⟩

theorem pairwise_inOrder (l : List Operation) :
    (inOrder l).Pairwise fun a b => a.runsBefore b :=
  sort_pairwise runsBefore_total runsBefore_trans l

end Operation

namespace Topology

/-! ### Climbing -/

theorem hostedOn_of_hostOf? {t : Topology} {id host : ComponentId} (h : t.hostOf? id = some host) :
    t.HostedOn id host := by
  unfold hostOf? at h
  obtain ⟨e, hfound, rfl⟩ := Option.map_eq_some_iff.mp h
  have he := List.mem_filter.mp (List.mem_of_find?_eq_some hfound)
  exact ⟨e, Array.mem_def.mpr he.1, beq_iff_eq.mp he.2, rfl,
    List.find?_some (p := fun e : Edge => e.isA .hostedOn) hfound⟩

section Climb
variable {t : Topology} {start id c : ComponentId} {visited : List ComponentId} {room : Nat}

theorem climb_of_compute (h : (t.component id).isA .compute = true) :
    t.climb start visited room id = .ok (some id) := by
  unfold climb
  rw [if_pos h]

theorem climb_of_visited (h : (t.component id).isA .compute = false) (hid : id ∈ visited) :
    t.climb start visited room id = .error (.hostingCycle (t.component start).name) := by
  unfold climb
  rw [if_neg (by simp [h]), if_pos hid]

theorem climb_of_end (h : (t.component id).isA .compute = false) (hid : id ∉ visited)
    (hhost : t.hostOf? id = none) : t.climb start visited room id = .ok none := by
  unfold climb
  rw [if_neg (by simp [h]), if_neg hid, hhost]

theorem climb_zero {host : ComponentId} (h : (t.component id).isA .compute = false)
    (hhost : t.hostOf? id = some host) :
    t.climb start visited 0 id = .error (.hostingCycle (t.component start).name) := by
  unfold climb
  rw [if_neg (by simp [h]), hhost]
  split <;> rfl

theorem climb_succ {host : ComponentId} (h : (t.component id).isA .compute = false)
    (hid : id ∉ visited) (hhost : t.hostOf? id = some host) :
    t.climb start visited (room + 1) id = t.climb start (id :: visited) room host := by
  conv_lhs => unfold climb
  rw [if_neg (by simp [h]), if_neg hid, hhost]

/-- A climb is at a compute, leads nowhere, has come back, or goes on from the host. -/
theorem climb_cases (t : Topology) (start : ComponentId) (visited : List ComponentId) (room : Nat)
    (id : ComponentId) :
    ((t.component id).isA .compute = true ∧ t.climb start visited room id = .ok (some id)) ∨
      t.climb start visited room id = .ok none ∨
      t.climb start visited room id = .error (.hostingCycle (t.component start).name) ∨
      ∃ below host, room = below + 1 ∧ t.hostOf? id = some host ∧
        t.climb start visited room id = t.climb start (id :: visited) below host := by
  cases hcompute : (t.component id).isA .compute with
  | true => exact .inl ⟨rfl, climb_of_compute hcompute⟩
  | false =>
    by_cases hid : id ∈ visited
    · exact .inr (.inr (.inl (climb_of_visited hcompute hid)))
    · cases hhost : t.hostOf? id with
      | none => exact .inr (.inl (climb_of_end hcompute hid hhost))
      | some host =>
        cases room with
        | zero => exact .inr (.inr (.inl (climb_zero hcompute hhost)))
        | succ below =>
          exact .inr (.inr (.inr ⟨below, host, rfl, rfl, climb_succ hcompute hid hhost⟩))

theorem climb_eq_some (h : t.climb start visited room id = .ok (some c)) :
    (t.component c).isA .compute ∧ Relation.ReflTransGen t.HostedOn id c := by
  induction room using Nat.strong_induction_on generalizing visited id with
  | _ room ih =>
    rcases t.climb_cases start visited room id with
      ⟨hcompute, heq⟩ | heq | heq | ⟨below, host, rfl, hhost, heq⟩
    · rw [heq] at h
      cases h
      exact ⟨hcompute, .refl⟩
    · rw [heq] at h
      cases h
    · rw [heq] at h
      cases h
    · rw [heq] at h
      obtain ⟨hcompute, hreach⟩ := ih below (Nat.lt_succ_self below) h
      exact ⟨hcompute, .head (hostedOn_of_hostOf? hhost) hreach⟩

/-- A climb that fails has come back. -/
theorem climb_eq_error {f : Fault} (h : t.climb start visited room id = .error f) :
    f = .hostingCycle (t.component start).name := by
  induction room using Nat.strong_induction_on generalizing visited id with
  | _ room ih =>
    rcases t.climb_cases start visited room id with
      ⟨_, heq⟩ | heq | heq | ⟨below, host, rfl, _, heq⟩
    · rw [heq] at h
      cases h
    · rw [heq] at h
      cases h
    · rw [heq] at h
      cases h
      rfl
    · rw [heq] at h
      exact ih below (Nat.lt_succ_self below) h

end Climb

/-- What a component runs on is a compute below it, or the component itself. -/
theorem computeOf_eq_some {t : Topology} {id c : ComponentId}
    (h : t.computeOf id = .ok (some c)) :
    (t.component c).isA .compute ∧ Relation.ReflTransGen t.HostedOn id c :=
  climb_eq_some h

/-! ### Placement -/

/-- The computes among some components. -/
def computesOf (t : Topology) (l : List ComponentId) : List ComponentId :=
  l.filter fun id => (t.component id).isA .compute

theorem map_computesOf {γ : Type} (t : Topology) (l : List ComponentId) (f : ComponentId → γ) :
    (t.computesOf l).map f =
      l.flatMap fun id => if (t.component id).isA .compute then [f id] else [] := by
  unfold computesOf
  induction l with
  | nil => rfl
  | cons id rest ih =>
    rw [List.filter_cons, List.flatMap_cons, ← ih]
    split <;> rfl

/-- The compute on which the scripts of a component run. Those of a compute do not run. -/
def placed? (t : Topology) (id : ComponentId) : Option ComponentId :=
  if (t.component id).isA .compute then none
  else
    match t.computeOf id with
    | .ok compute? => compute?
    | .error _ => none

/-- The scripts of a component, in the order in which they run. -/
def scriptsOf (t : Topology) (id : ComponentId) : List PlacedScript :=
  (t.component id).orderedOperations.flatMap fun operation =>
    operation.artifacts.map fun artifact => { component := id, operation, artifact }

/-- The scripts of some components that run on a compute. -/
def scriptsOn (t : Topology) (l : List ComponentId) (compute : ComponentId) : List PlacedScript :=
  (l.filter fun id => t.placed? id = some compute).flatMap t.scriptsOf

/-- All scripts that run on a compute, as components, operations and artifacts are declared. -/
def scriptsAt (t : Topology) (compute : ComponentId) : List PlacedScript :=
  ((List.range t.size).filter fun id => t.placed? id = some compute).flatMap fun id =>
    (t.component id).operations.values.flatMap fun operation =>
      operation.artifacts.map fun artifact => { component := id, operation, artifact }

theorem component_of_mem_scriptsOf {t : Topology} {id : ComponentId} {s : PlacedScript}
    (h : s ∈ t.scriptsOf id) : s.component = id := by
  obtain ⟨o, _, h⟩ := List.mem_flatMap.mp h
  obtain ⟨a, _, rfl⟩ := List.mem_map.mp h
  rfl

theorem placed?_eq_some {t : Topology} {id c : ComponentId} :
    t.placed? id = some c ↔
      (t.component id).isA .compute = false ∧ t.computeOf id = .ok (some c) := by
  unfold placed?
  cases hcompute : (t.component id).isA .compute with
  | true => simp
  | false =>
    cases t.computeOf id with
    | ok compute? => simp
    | error f => simp

theorem placed?_of_computeOf {t : Topology} {id : ComponentId} {c : Option ComponentId}
    (hid : (t.component id).isA .compute = false) (h : t.computeOf id = .ok c) :
    t.placed? id = c := by
  rw [placed?, hid, h]
  rfl

theorem placed?_of_isA {t : Topology} {id : ComponentId}
    (h : (t.component id).isA .compute = true) : t.placed? id = none := by
  rw [placed?, h]
  rfl

/-- Exactly the artifacts of the operations of what runs on a compute are its scripts. -/
theorem mem_scriptsAt {t : Topology} {c : ComponentId} {s : PlacedScript} :
    s ∈ t.scriptsAt c ↔ s.component < t.size ∧ (t.component s.component).isA .compute = false ∧
      t.computeOf s.component = .ok (some c) ∧
      s.operation ∈ (t.component s.component).operations.values ∧
      s.artifact ∈ s.operation.artifacts := by
  obtain ⟨id, o, a⟩ := s
  simp only [scriptsAt, List.mem_flatMap, List.mem_filter, List.mem_range, decide_eq_true_eq,
    placed?_eq_some, List.mem_map, PlacedScript.mk.injEq]
  constructor
  · intro h
    obtain ⟨id', ⟨hid, hcompute, hof⟩, o', ho, a', ha, rfl, rfl, rfl⟩ := h
    exact ⟨hid, hcompute, hof, ho, ha⟩
  · intro h
    obtain ⟨hid, hcompute, hof, ho, ha⟩ := h
    exact ⟨id, ⟨hid, hcompute, hof⟩, o, ho, a, ha, rfl, rfl, rfl⟩

/-- Operations without artifacts have no scripts. -/
theorem flatMap_scriptedOperations {γ : Type} (c : Component) (f : Operation → Artifact → γ) :
    (c.scriptedOperations.flatMap fun o => o.artifacts.map (f o)) =
      c.orderedOperations.flatMap fun o => o.artifacts.map (f o) := by
  unfold Component.scriptedOperations
  induction c.orderedOperations with
  | nil => rfl
  | cons o rest ih =>
    rw [List.filter_cons]
    split
    case isTrue => rw [List.flatMap_cons, List.flatMap_cons, ih]
    case isFalse h =>
      have hnone : o.artifacts = [] := by simpa [Operation.hasArtifacts] using h
      rw [List.flatMap_cons, ih, hnone]
      rfl

theorem map_scriptsOf {γ : Type} (t : Topology) (id : ComponentId) (f : PlacedScript → γ) :
    (t.scriptsOf id).map f = (t.component id).scriptedOperations.flatMap fun operation =>
      operation.artifacts.map fun artifact => f { component := id, operation, artifact } := by
  rw [flatMap_scriptedOperations (t.component id) fun operation artifact =>
    f { component := id, operation, artifact }]
  simp only [scriptsOf, List.map_flatMap, List.map_map]
  rfl

/-! ### Along the hosting order -/

section Order
variable {t : Topology} {order done rest : List ComponentId} {id c : ComponentId}

/-- Everything below a component comes before it. -/
theorem idxOf_lt_of_transGen (ht : t.Built) (horder : t.hostingOrder = .ok order)
    (h : Relation.TransGen t.HostedOn id c) : order.idxOf c < order.idxOf id := by
  induction h with
  | single hhost => exact hostingOrder_hostsFirst ht horder hhost
  | tail _ hhost ih => exact Nat.lt_trans (hostingOrder_hostsFirst ht horder hhost) ih

theorem idxOf_lt_of_placed? (ht : t.Built) (horder : t.hostingOrder = .ok order)
    (h : t.placed? id = some c) : order.idxOf c < order.idxOf id := by
  obtain ⟨hnot, hof⟩ := placed?_eq_some.mp h
  obtain ⟨hcompute, hreach⟩ := computeOf_eq_some hof
  rcases Relation.reflTransGen_iff_eq_or_transGen.mp hreach with rfl | hreach
  · rw [hnot] at hcompute
    cases hcompute
  · exact idxOf_lt_of_transGen ht horder hreach

theorem hostingOrder_nodup (ht : t.Built) (horder : t.hostingOrder = .ok order) : order.Nodup :=
  (hostingOrder_perm ht horder).nodup_iff.mpr List.nodup_range

/-- The hosting order rises in its own places. -/
theorem hostingOrder_pairwise (ht : t.Built) (horder : t.hostingOrder = .ok order) :
    order.Pairwise fun a b => order.idxOf a < order.idxOf b := by
  refine List.pairwise_iff_getElem.mpr fun i j hi hj hij => ?_
  have hnodup := hostingOrder_nodup ht horder
  rwa [hnodup.idxOf_getElem, hnodup.idxOf_getElem]

/-- Components that are listed in hosting order are the same list if they are the same. -/
theorem eq_of_rising {l l' : List ComponentId}
    (hl : l.Pairwise fun a b => order.idxOf a < order.idxOf b)
    (hl' : l'.Pairwise fun a b => order.idxOf a < order.idxOf b) (hmem : ∀ a, a ∈ l ↔ a ∈ l') :
    l = l' := by
  apply List.Perm.eq_of_pairwise (fun a b _ _ hab hba => absurd hab (Nat.lt_asymm hba)) hl hl'
  apply (List.perm_ext_iff_of_nodup ?_ ?_).mpr hmem
  · exact hl.imp fun h => fun heq => absurd (heq ▸ h) (Nat.lt_irrefl _)
  · exact hl'.imp fun h => fun heq => absurd (heq ▸ h) (Nat.lt_irrefl _)

theorem next_not_mem (ht : t.Built) (horder : t.hostingOrder = .ok (done ++ id :: rest)) :
    id ∉ done := fun h =>
  (List.nodup_append.mp (hostingOrder_nodup ht horder)).2.2 id h id List.mem_cons_self rfl

theorem idxOf_next (ht : t.Built) (horder : t.hostingOrder = .ok (done ++ id :: rest)) :
    (done ++ id :: rest).idxOf id = done.length := by
  rw [List.idxOf_append_of_notMem (next_not_mem ht horder), List.idxOf_cons_self, Nat.add_zero]

/-- The compute of the next component is done. -/
theorem mem_done_of_placed? (ht : t.Built) (horder : t.hostingOrder = .ok (done ++ id :: rest))
    (h : t.placed? id = some c) : c ∈ t.computesOf done := by
  have hlt := idxOf_lt_of_placed? ht horder h
  rw [idxOf_next ht horder] at hlt
  have hmem : c ∈ done := by
    by_contra hnot
    rw [List.idxOf_append_of_notMem hnot] at hlt
    omega
  exact List.mem_filter.mpr ⟨hmem, (computeOf_eq_some (placed?_eq_some.mp h).2).1⟩

/-- The compute that a component leads to is one of the topology. -/
theorem mem_computesOf_of_computeOf (ht : t.Built) (horder : t.hostingOrder = .ok order)
    (hid : id < t.size) (h : t.computeOf id = .ok (some c)) : c ∈ t.computesOf order := by
  obtain ⟨hcompute, hreach⟩ := computeOf_eq_some h
  refine List.mem_filter.mpr ⟨?_, hcompute⟩
  rw [(hostingOrder_perm ht horder).mem_iff, mem_ids]
  rcases Relation.ReflTransGen.cases_tail hreach with rfl | ⟨_, _, hlast⟩
  · exact hid
  · exact (ht.lt_of_hostedOn hlast).2

/-- Nothing that is done runs on the next component. -/
theorem filter_placed?_next (ht : t.Built) (horder : t.hostingOrder = .ok (done ++ id :: rest)) :
    (done.filter fun x => t.placed? x = some id) = [] := by
  refine List.filter_eq_nil_iff.mpr fun x hx hplaced => ?_
  have hlt := idxOf_lt_of_placed? ht horder (of_decide_eq_true hplaced)
  rw [idxOf_next ht horder, List.idxOf_append_of_mem hx] at hlt
  exact absurd (List.idxOf_lt_length_of_mem hx) (by omega)

theorem scriptsOn_next (ht : t.Built) (horder : t.hostingOrder = .ok (done ++ id :: rest)) :
    t.scriptsOn done id = [] := by
  rw [scriptsOn, filter_placed?_next ht horder]
  rfl

/-- The computes that scripts run on are all there. -/
theorem mem_computesOf_of_scriptsAt (ht : t.Built) (horder : t.hostingOrder = .ok order)
    (h : t.scriptsAt c ≠ []) : c ∈ t.computesOf order := by
  obtain ⟨s, hs⟩ := List.exists_mem_of_ne_nil _ h
  obtain ⟨id, hid, _⟩ := List.mem_flatMap.mp hs
  obtain ⟨hmem, hplaced⟩ := List.mem_filter.mp hid
  have hof := (placed?_eq_some.mp (of_decide_eq_true hplaced)).2
  exact mem_computesOf_of_computeOf ht horder (mem_ids.mp hmem) hof

/-- No script is lost and none is there twice. -/
theorem scriptsOn_perm (ht : t.Built) (horder : t.hostingOrder = .ok order) (c : ComponentId) :
    (t.scriptsOn order c).Perm (t.scriptsAt c) :=
  ((hostingOrder_perm ht horder).filter _).flatMap fun _ _ =>
    (sort_perm _ _).flatMap fun _ _ => .refl _

/-- Scripts stand in the order in which they run. -/
theorem scriptsOn_pairwise (ht : t.Built) (horder : t.hostingOrder = .ok order)
    (c : ComponentId) : (t.scriptsOn order c).Pairwise (PlacedScript.RunsBefore order) := by
  refine List.pairwise_flatMap.mpr ⟨fun id _ => ?_, ?_⟩
  · refine List.pairwise_flatMap.mpr ⟨fun o _ => ?_, ?_⟩
    · refine List.pairwise_map.mpr (List.pairwise_of_forall fun a b => .inr ⟨rfl, ?_⟩)
      exact Operation.runsBefore_refl o
    · refine (Operation.pairwise_inOrder _).imp fun {o o'} ho => ?_
      intro x hx y hy
      obtain ⟨a, _, rfl⟩ := List.mem_map.mp hx
      obtain ⟨b, _, rfl⟩ := List.mem_map.mp hy
      exact .inr ⟨rfl, ho⟩
  · refine ((hostingOrder_pairwise ht horder).filter _).imp fun {id id'} hlt => ?_
    intro x hx y hy
    refine .inl ?_
    rwa [component_of_mem_scriptsOf hx, component_of_mem_scriptsOf hy]

end Order

theorem scriptsOn_append (t : Topology) (l : List ComponentId) (id c : ComponentId) :
    t.scriptsOn (l ++ [id]) c =
      t.scriptsOn l c ++ if t.placed? id = some c then t.scriptsOf id else [] := by
  unfold scriptsOn
  rw [List.filter_append, List.flatMap_append]
  congr 1
  by_cases h : t.placed? id = some c <;> simp [h]

theorem computesOf_append (t : Topology) (l : List ComponentId) (id : ComponentId) :
    t.computesOf (l ++ [id]) =
      t.computesOf l ++ if (t.component id).isA .compute then [id] else [] := by
  unfold computesOf
  rw [List.filter_append, List.filter_singleton, Bool.cond_eq_ite]

section Append
variable {t : Topology} {id : ComponentId} (l : List ComponentId)

theorem computesOf_append_compute (hid : (t.component id).isA .compute = true) :
    t.computesOf (l ++ [id]) = t.computesOf l ++ [id] := by
  rw [computesOf_append, if_pos hid]

theorem computesOf_append_software (hid : (t.component id).isA .compute = false) :
    t.computesOf (l ++ [id]) = t.computesOf l := by
  simp [computesOf_append, hid]

/-- What runs nowhere adds no scripts. -/
theorem scriptsOn_append_unplaced (h : t.placed? id = none) (c : ComponentId) :
    t.scriptsOn (l ++ [id]) c = t.scriptsOn l c := by
  simp [scriptsOn_append, h]

theorem scriptsOn_append_compute (hid : (t.component id).isA .compute = true) (c : ComponentId) :
    t.scriptsOn (l ++ [id]) c = t.scriptsOn l c :=
  scriptsOn_append_unplaced l (placed?_of_isA hid) c

end Append

end Topology
end Provision
