import Mathlib.Data.List.Induction
import Mathlib.Data.List.Nodup
import Provision.Output.Derived
import Provision.Proofs.Model.References

/-! The tree below the root of an entity graph.

In a graph that has grown entity by entity, entities stand behind their parents, and a child knows
its name and its parent. So no two ways lead from the root to one entity, and what can be reached
from the root is a finite tree, also where children have taken the places of others. -/
namespace Provision

theorem Composite.preorderAll_eq_flatMap {α : Type} (parts : List (Composite α)) :
    preorderAll parts = parts.flatMap preorder := by
  induction parts with
  | nil => rfl
  | cons part rest ih => rw [preorderAll, ih, List.flatMap_cons]

namespace EntityGraph

variable {g : EntityGraph} {i c : EntityId}

/-! ### Ways to an entity -/

theorem mem_children : c ∈ g.children i ↔ ∃ name, g.child? i name = some c := by
  rw [children, OrderedMap.mem_values]
  exact exists_congr fun name => OrderedMap.get?_eq_some.symm

theorem descend?_singleton (name : String) : g.descend? i [name] = g.child? i name :=
  Option.bind_fun_some _

theorem mem_declared {container : String} :
    c ∈ g.declared i container ↔ ∃ name, g.descend? i [container, name] = some c := by
  refine ⟨fun h => ?_, fun ⟨name, h⟩ => mem_declared_of_descend? h⟩
  obtain ⟨p, name, hp, hc⟩ := exists_of_mem_declared h
  refine ⟨name, Option.bind_eq_some_iff.mpr ⟨p, OrderedMap.get?_eq_some.mpr hp, ?_⟩⟩
  rw [descend?_singleton]
  exact OrderedMap.get?_eq_some.mpr hc

namespace IsTree

variable (h : IsTree g.entity)
include h

/-- The last of some names leads from a parent to a child. -/
theorem exists_parent {path : List String} {name : String}
    (hc : g.descend? i (path ++ [name]) = some c) : ∃ p, g.descend? i path = some p ∧
      p < c ∧ (g.entity c).name = name ∧ (g.entity c).parent = some p := by
  rw [descend?_append] at hc
  obtain ⟨p, hp, hchild⟩ := Option.bind_eq_some_iff.mp hc
  rw [descend?_singleton] at hchild
  exact ⟨p, hp, h _ _ _ (OrderedMap.get?_eq_some.mp hchild)⟩

theorem le {path : List String} (hc : g.descend? i path = some c) : i ≤ c := by
  induction path using List.reverseRecOn generalizing c with
  | nil =>
    cases hc
    exact Nat.le_refl _
  | append_singleton path name ih =>
    obtain ⟨p, hp, hlt, _⟩ := h.exists_parent hc
    exact Nat.le_of_lt (Nat.lt_of_le_of_lt (ih hp) hlt)

/-- No two ways lead to an entity. -/
theorem path_unique {path path' : List String} (hc : g.descend? i path = some c)
    (hc' : g.descend? i path' = some c) : path = path' := by
  -- An entity knows its name and its parent, so both ways end alike.
  induction path using List.reverseRecOn generalizing c path' with
  | nil =>
    cases hc
    rcases List.eq_nil_or_concat' path' with rfl | ⟨path', name', rfl⟩
    · rfl
    · obtain ⟨p, hp, hlt, _⟩ := h.exists_parent hc'
      exact absurd (h.le hp) (Nat.not_le_of_lt hlt)
  | append_singleton path name ih =>
    obtain ⟨p, hp, hlt, hname, hparent⟩ := h.exists_parent hc
    rcases List.eq_nil_or_concat' path' with rfl | ⟨path', name', rfl⟩
    · cases hc'
      exact absurd (h.le hp) (Nat.not_le_of_lt hlt)
    · obtain ⟨p', hp', _, hname', hparent'⟩ := h.exists_parent hc'
      cases hname.symm.trans hname'
      cases hparent.symm.trans hparent'
      rw [ih hp hp']

theorem nodup_children (i : EntityId) : (g.children i).Nodup := by
  have hkeys : (g.children i).map (fun c => (g.entity c).name) = (g.entity i).children.keys := by
    rw [children, OrderedMap.values, OrderedMap.keys, List.map_map]
    exact List.map_congr_left fun entry hentry => (h _ _ _ hentry).2.1
  refine List.Nodup.of_map (fun c => (g.entity c).name) ?_
  rw [hkeys]
  exact (g.entity i).children.nodup

end IsTree

/-! ### The tree of an entity -/

/-- A composite has the parts that the graph has as children, all the way down. -/
inductive Unfolds (g : EntityGraph) : Composite EntityId → Prop
  | node {i : EntityId} {parts : List (Composite EntityId)} :
      parts.map Composite.value = g.children i → (∀ part ∈ parts, Unfolds g part) →
      Unfolds g (.node i parts)

theorem exists_unfolds {n : Nat} (hg : ∀ i, ∀ c ∈ g.children i, i < c ∧ c < n) (i : EntityId) :
    ∃ tree, g.Unfolds tree ∧ tree.value = i := by
  -- Children have larger numbers, of which fewer are left.
  induction hroom : n - i using Nat.strongRecOn generalizing i with
  | ind room ih =>
    have hchild : ∀ c ∈ g.children i, ∃ tree, g.Unfolds tree ∧ tree.value = c := by
      intro c hc
      obtain ⟨hlt, hn⟩ := hg i c hc
      refine ih (n - c) ?_ c rfl
      rw [← hroom]
      exact Nat.sub_lt_sub_left (Nat.lt_trans hlt hn) hlt
    choose! part hpart hvalue using hchild
    refine ⟨.node i ((g.children i).map part), .node ?_ ?_, rfl⟩
    · rw [List.map_map]
      exact (List.map_congr_left hvalue).trans (List.map_id _)
    · simpa using hpart

namespace Unfolds

/-- What a composite has is what names lead to from its top. -/
theorem mem_preorder {tree : Composite EntityId} (h : g.Unfolds tree) :
    c ∈ tree.preorder ↔ ∃ path, g.descend? tree.value path = some c := by
  induction h with
  | @node i parts hparts _ ih =>
    rw [Composite.preorder, List.mem_cons, Composite.preorderAll_eq_flatMap, List.mem_flatMap]
    constructor
    · rintro (rfl | ⟨part, hpart, hc⟩)
      · exact ⟨[], rfl⟩
      · obtain ⟨path, hpath⟩ := (ih part hpart).mp hc
        obtain ⟨name, hname⟩ := mem_children.mp (hparts ▸ List.mem_map_of_mem hpart)
        exact ⟨name :: path, Option.bind_eq_some_iff.mpr ⟨_, hname, hpath⟩⟩
    · rintro ⟨_ | ⟨name, path⟩, hpath⟩
      · cases hpath
        exact .inl rfl
      · obtain ⟨d, hd, hpath⟩ := Option.bind_eq_some_iff.mp hpath
        have hmem : d ∈ parts.map Composite.value := hparts ▸ mem_children.mpr ⟨name, hd⟩
        obtain ⟨part, hpart, rfl⟩ := List.mem_map.mp hmem
        exact .inr ⟨part, hpart, (ih part hpart).mpr ⟨path, hpath⟩⟩

theorem nodup_preorder {tree : Composite EntityId} (h : g.Unfolds tree)
    (htree : IsTree g.entity) : tree.preorder.Nodup := by
  induction h with
  | @node i parts hparts hunfolds ih =>
    have hchild (part : Composite EntityId) (hpart : part ∈ parts) :
        ∃ name, g.child? i name = some part.value :=
      mem_children.mp (hparts ▸ List.mem_map_of_mem hpart)
    rw [Composite.preorder, Composite.preorderAll_eq_flatMap, List.nodup_cons, List.nodup_flatMap]
    refine ⟨fun hi => ?_, ih, ?_⟩
    · obtain ⟨part, hpart, hi⟩ := List.mem_flatMap.mp hi
      obtain ⟨path, hpath⟩ := (hunfolds part hpart).mem_preorder.mp hi
      obtain ⟨name, hname⟩ := hchild part hpart
      have hlt := (htree _ _ _ (OrderedMap.get?_eq_some.mp hname)).1
      exact absurd (htree.le hpath) (Nat.not_le_of_lt hlt)
    · have hnodup : (parts.map Composite.value).Nodup := hparts ▸ htree.nodup_children i
      refine (List.pairwise_map.mp hnodup).imp_of_mem fun {a b} ha hb hne _ hca hcb => hne ?_
      -- The ways through two parts start with the names of these.
      obtain ⟨path, hpath⟩ := (hunfolds a ha).mem_preorder.mp hca
      obtain ⟨path', hpath'⟩ := (hunfolds b hb).mem_preorder.mp hcb
      obtain ⟨name, hname⟩ := hchild a ha
      obtain ⟨name', hname'⟩ := hchild b hb
      have hway : g.descend? i (name :: path) = some _ :=
        Option.bind_eq_some_iff.mpr ⟨_, hname, hpath⟩
      have hway' : g.descend? i (name' :: path') = some _ :=
        Option.bind_eq_some_iff.mpr ⟨_, hname', hpath'⟩
      cases htree.path_unique hway hway'
      exact Option.some.inj (hname.symm.trans hname')

end Unfolds

/-- A graph whose entities stand in the order in which they were added, and of which a tree can be
reached. -/
structure Rooted (g : EntityGraph) : Prop where
  parent_lt : ∀ i p, (g.entity i).parent = some p → p < i
  child : ∀ p name c, (name, c) ∈ (g.entity p).children.toList →
    (g.entity c).name = name ∧ (g.entity c).parent = some p
  tree : ∃ tree, g.Unfolds tree ∧ tree.value = root ∧ tree.preorder.Nodup ∧
    ∀ c, c ∈ tree.preorder ↔ ∃ path, g.descend? root path = some c
  path_unique : ∀ path path' c, g.descend? root path = some c →
    g.descend? root path' = some c → path = path'

/-! ### Graphs that have grown -/

namespace Builder

variable {b : Builder}

theorem child?_build (b : Builder) (i : EntityId) (name : String) :
    b.build.child? i name = b.child? i name := by
  rw [EntityGraph.child?, children_build, child?]

theorem Grown.lt_next_of_descend? (hb : b.Grown) {i c : EntityId} {path : List String}
    (hi : i < b.next) (h : b.build.descend? i path = some c) : c < b.next := by
  induction path generalizing i with
  | nil =>
    cases h
    exact hi
  | cons name path ih =>
    obtain ⟨d, hd, h⟩ := Option.bind_eq_some_iff.mp h
    rw [child?_build] at hd
    exact ih (hb.child (OrderedMap.get?_eq_some.mp hd)).2.1 h

/-- Adding an entity changes nothing of the others but children. -/
theorem exists_children_add {parent : EntityId} (hparent : parent < b.next) (name : String)
    (value : Option Scalar) {id : EntityId} (hid : id ≠ b.next) :
    ∃ children, (b.add parent name value).2.entity id = { b.entity id with children } := by
  rw [entity_add hparent, if_neg hid]
  by_cases habove : id = parent
  · subst habove
    exact ⟨_, if_pos rfl⟩
  · exact ⟨(b.entity id).children, if_neg habove⟩

theorem Grown.parent_lt (hb : b.Grown) {i p : EntityId} (h : (b.entity i).parent = some p) :
    p < i := by
  induction hb with
  | start => rcases i with _ | i <;> cases h
  | @add b parent name value _ hparent ih =>
    by_cases hi : i = b.next
    · rw [entity_add hparent, if_pos hi] at h
      cases h
      exact hi ▸ hparent
    · obtain ⟨_, hsame⟩ := exists_children_add hparent name value hi
      rw [hsame] at h
      exact ih h

theorem Grown.rooted_build (hb : b.Grown) : b.build.Rooted where
  parent_lt i p h := by
    obtain ⟨_, hentity⟩ := b.exists_entity_build i
    rw [hentity] at h
    exact hb.parent_lt h
  child p name c h := (hb.isTree_build p c name h).2
  tree := by
    have hchildren (i : EntityId) : ∀ c ∈ b.build.children i, i < c ∧ c < b.next := by
      intro c hc
      obtain ⟨name, hname⟩ := mem_children.mp hc
      rw [child?_build] at hname
      obtain ⟨hlt, hnext, _⟩ := hb.child (OrderedMap.get?_eq_some.mp hname)
      exact ⟨hlt, hnext⟩
    obtain ⟨tree, htree, hvalue⟩ := exists_unfolds hchildren root
    refine ⟨tree, htree, hvalue, htree.nodup_preorder hb.isTree_build, fun c => ?_⟩
    rw [htree.mem_preorder, hvalue]
  path_unique _ _ _ h h' := hb.isTree_build.path_unique h h'

end Builder
end EntityGraph
end Provision
