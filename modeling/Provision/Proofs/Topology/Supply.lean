import Provision.Heat.Backend
import Provision.Proofs.Data.OrderedMap
import Mathlib.Data.List.Nodup

/-! What the scripts of a component are supplied with.

A script gets the variables of its component. A variable that the component does not have
comes from what it is connected to, and else from its hosts: of the former the one counts
that was added last, of the latter the nearest. The maps that hold these variables are merged
in the opposite order, so that what counts more replaces what counts less. -/
namespace Provision.Topology

/-- The value that a component itself has for a variable. -/
def valueOf? (t : Topology) (k : String) (id : ComponentId) : Option String :=
  (t.component id).environment.get? k

/-- One connection leads from a component to another. -/
def ConnectsTo (t : Topology) (id other : ComponentId) : Prop :=
  ∃ e ∈ t.edges, e.kind = .connectsTo ∧ e.source = id ∧ e.target = other

/-- The value that a component is supplied with for a variable, where it reaches some others. -/
inductive Supplies (t : Topology) (reaches : ComponentId → Prop) (id : ComponentId)
    (k v : String) : Prop
  /-- A value of its own counts first. -/
  | own (h : t.valueOf? k id = some v)
  /-- Else that of the last component that it reaches. -/
  | connected {other : ComponentId} (hown : t.valueOf? k id = none) (hreaches : reaches other)
      (hlast : ∀ later, reaches later → other < later → t.valueOf? k later = none)
      (h : t.valueOf? k other = some v)
  /-- Else that of its nearest host. -/
  | hosted {nearer farther : List ComponentId} {host : ComponentId}
      (hown : t.valueOf? k id = none)
      (hreached : ∀ other, reaches other → t.valueOf? k other = none)
      (hhosts : t.hostsAbove id = nearer ++ host :: farther)
      (hnearest : ∀ between ∈ nearer, t.valueOf? k between = none)
      (h : t.valueOf? k host = some v)

/-- One of the components that count for another one has a variable. -/
def Defines (t : Topology) (reaches : ComponentId → Prop) (id : ComponentId) (k : String) : Prop :=
  ∃ source v, (source = id ∨ reaches source ∨ source ∈ t.hostsAbove id) ∧
    t.valueOf? k source = some v

/-- Variables, each of them once, are those that a component is supplied with. -/
structure SuppliedWith (t : Topology) (reaches : ComponentId → Prop) (id : ComponentId)
    (l : List (String × String)) : Prop where
  nodup : (l.map Prod.fst).Nodup
  values : ∀ k v, (k, v) ∈ l ↔ t.Supplies reaches id k v
  names : ∀ k, k ∈ l.map Prod.fst ↔ t.Defines reaches id k

/-! ### Values in order of precedence -/

/-- What counts for a variable: a component, what it reaches from the last one on, and its
hosts from the nearest one on. -/
def suppliers (t : Topology) (reached : List ComponentId) (id : ComponentId) : List ComponentId :=
  id :: (reached.reverse ++ t.hostsAbove id)

section Suppliers
variable {t : Topology} {reached : List ComponentId} {id : ComponentId} {k v : String}

/-- In an ascending list, what comes last for a function is the largest. -/
theorem findSome?_reverse_eq_some {γ : Type} {f : ComponentId → Option γ} {c : γ}
    (hreached : reached.Pairwise (· < ·)) :
    reached.reverse.findSome? f = some c ↔
      ∃ other ∈ reached, (∀ later ∈ reached, other < later → f later = none) ∧
        f other = some c := by
  constructor
  · intro h
    obtain ⟨before, other, after, hsplit, hother, hbefore⟩ := List.findSome?_eq_some_iff.mp h
    have hdescending : (before ++ other :: after).Pairwise fun a b => b < a :=
      hsplit ▸ List.pairwise_reverse.mpr hreached
    obtain ⟨_, htail, _⟩ := List.pairwise_append.mp hdescending
    refine ⟨other, List.mem_reverse.mp (hsplit ▸ List.mem_append_right _ List.mem_cons_self),
      fun later hlater hlt => ?_, hother⟩
    rw [← List.mem_reverse, hsplit, List.mem_append, List.mem_cons] at hlater
    rcases hlater with hlater | rfl | hlater
    · exact hbefore later hlater
    · exact absurd hlt (Nat.lt_irrefl _)
    · exact absurd hlt (Nat.lt_asymm (List.rel_of_pairwise_cons htail hlater))
  · rintro ⟨other, hmem, hlast, hother⟩
    obtain ⟨before, after, hsplit⟩ := List.append_of_mem hmem
    rw [hsplit] at hreached hlast
    obtain ⟨_, htail, _⟩ := List.pairwise_append.mp hreached
    refine List.findSome?_eq_some_iff.mpr ⟨after.reverse, other, before.reverse, ?_, hother,
      fun later hlater => ?_⟩
    · simp [hsplit]
    · rw [List.mem_reverse] at hlater
      exact hlast later (List.mem_append_right _ (List.mem_cons_of_mem _ hlater))
        (List.rel_of_pairwise_cons htail hlater)

theorem supplies_iff (hreached : reached.Pairwise (· < ·)) :
    t.Supplies (· ∈ reached) id k v ↔
      (t.suppliers reached id).findSome? (t.valueOf? k) = some v := by
  rw [suppliers, OrderedMap.findSome?_cons_eq_or, List.findSome?_append, Option.or_eq_some_iff,
    Option.or_eq_some_iff, findSome?_reverse_eq_some hreached]
  have hnone : reached.reverse.findSome? (t.valueOf? k) = none ↔
      ∀ other ∈ reached, t.valueOf? k other = none := by
    simp only [List.findSome?_eq_none_iff, List.mem_reverse]
  rw [hnone, List.findSome?_eq_some_iff]
  constructor
  · intro h
    cases h with
    | own h => exact .inl h
    | connected hown hmem hlast h => exact .inr ⟨hown, .inl ⟨_, hmem, hlast, h⟩⟩
    | hosted hown hreached hhosts hnearest h =>
      exact .inr ⟨hown, .inr ⟨hreached, _, _, _, hhosts, h, hnearest⟩⟩
  · intro h
    rcases h with h | ⟨hown, h | h⟩
    · exact .own h
    · obtain ⟨other, hmem, hlast, h⟩ := h
      exact .connected hown hmem hlast h
    · obtain ⟨hreached, nearer, host, farther, hhosts, h, hnearest⟩ := h
      exact .hosted hown hreached hhosts hnearest h

theorem defines_iff :
    t.Defines (· ∈ reached) id k ↔ ((t.suppliers reached id).findSome? (t.valueOf? k)).isSome := by
  rw [List.findSome?_isSome_iff]
  simp only [Defines, suppliers, Option.isSome_iff_exists, List.mem_cons, List.mem_append,
    List.mem_reverse, exists_and_left]

/-- A map is what a component is supplied with if it has the first value of what counts. -/
theorem suppliedWith_of_get? {reaches : ComponentId → Prop} (hreached : reached.Pairwise (· < ·))
    (hreaches : ∀ other, reaches other ↔ other ∈ reached) {m : OrderedMap String String}
    (hm : ∀ k, m.get? k = (t.suppliers reached id).findSome? (t.valueOf? k)) :
    t.SuppliedWith reaches id m.toList := by
  obtain rfl : reaches = (· ∈ reached) := funext fun other => propext (hreaches other)
  refine ⟨m.nodup, fun k v => ?_, fun k => ?_⟩
  · rw [← OrderedMap.get?_eq_some, hm, supplies_iff hreached]
  · rw [defines_iff, ← hm, Option.isSome_iff_ne_none, ne_eq, OrderedMap.get?_eq_none, not_not]
    rfl

/-- A list in another order is as good. -/
theorem SuppliedWith.perm {reaches : ComponentId → Prop} {l l' : List (String × String)}
    (h : t.SuppliedWith reaches id l) (hperm : l'.Perm l) : t.SuppliedWith reaches id l' where
  nodup := (hperm.map Prod.fst).nodup_iff.mpr h.nodup
  values k v := hperm.mem_iff.trans (h.values k v)
  names k := (hperm.map Prod.fst).mem_iff.trans (h.names k)

/-- There is one supply of a component. -/
theorem SuppliedWith.unique {reaches : ComponentId → Prop} {l l' : List (String × String)}
    (h : t.SuppliedWith reaches id l) (h' : t.SuppliedWith reaches id l') : l.Perm l' :=
  (List.perm_ext_iff_of_nodup (List.Nodup.of_map _ h.nodup) (List.Nodup.of_map _ h'.nodup)).mpr
    fun (k, v) => (h.values k v).trans (h'.values k v).symm

end Suppliers

/-! ### The maps of the backends -/

theorem findSome?_environments (t : Topology) (k : String) (l : List ComponentId) :
    (l.map fun id => (t.component id).environment).findSome? (fun m => m.get? k) =
      l.findSome? (t.valueOf? k) := by
  rw [List.findSome?_map]
  rfl

theorem get?_stackedEnvironment (t : Topology) (id : ComponentId) (k : String) :
    (t.stackedEnvironment id).get? k = (t.suppliers [] id).findSome? (t.valueOf? k) := by
  rw [stackedEnvironment, OrderedMap.get?_mergeAll, List.reverse_concat, hostEnvironments,
    ← List.map_reverse, List.reverse_reverse, OrderedMap.findSome?_cons_eq_or,
    findSome?_environments, suppliers, OrderedMap.findSome?_cons_eq_or]
  rfl

theorem get?_inputValues (t : Topology) (id : ComponentId) (k : String) :
    (Heat.inputValues t id).get? k =
      (t.suppliers (t.targets id .connectsTo) id).findSome? (t.valueOf? k) := by
  rw [Heat.inputValues, OrderedMap.get?_mergeAll, List.reverse_concat, List.reverse_concat,
    hostEnvironments, ← List.map_reverse, List.reverse_reverse, OrderedMap.findSome?_cons_eq_or,
    OrderedMap.findSome?_cons_eq_or, OrderedMap.get?_mergeAll, ← List.map_reverse,
    findSome?_environments, findSome?_environments, suppliers, OrderedMap.findSome?_cons_eq_or,
    List.findSome?_append]
  rfl

theorem connectsTo_iff {t : Topology} {id other : ComponentId} :
    t.ConnectsTo id other ↔ other ∈ t.targets id .connectsTo := by
  have hkind (e : Edge) : e.isA .connectsTo = true ↔ e.kind = .connectsTo := by
    unfold Edge.isA
    cases e.kind <;> decide
  simp only [mem_targets, ConnectsTo, hkind]
  refine exists_congr fun e => and_congr_right fun _ => ?_
  tauto

/-- Software on its hosts is supplied by these and itself. -/
theorem suppliedWith_stackedEnvironment (t : Topology) (id : ComponentId) :
    t.SuppliedWith (fun _ => False) id (t.stackedEnvironment id).toList :=
  suppliedWith_of_get? .nil (fun _ => (iff_false_intro List.not_mem_nil).symm)
    (t.get?_stackedEnvironment id)

/-- A deployment is supplied by what its component is connected to as well. -/
theorem suppliedWith_inputValues (t : Topology) (id : ComponentId) :
    t.SuppliedWith (t.ConnectsTo id) id (Heat.inputValues t id).toList :=
  suppliedWith_of_get? (ascending_pairwise _) (fun _ => connectsTo_iff)
    (t.get?_inputValues id)

end Provision.Topology
