import Provision.Output.Derived
import Provision.Proofs.Data.OrderedMap

/-! The algebra of derived values.

A merge inserts the entries of some maps one after another. A key stands where it first occurs
and has the value that it last occurs with, so its place and its value come from different
maps. Both are decided by the sequence of the entries alone, and it does not matter in which
groups the maps are merged. So what is collected from a composite, level by level, is one merge
of what its parts have, a whole before its parts. -/
namespace Provision

namespace OrderedMap

variable {α β : Type} [DecidableEq α]

/-- A map is what entries come to when they are inserted one after another: each key once, where
it first occurs, with the value that it last occurs with. -/
structure ComesFrom (m : OrderedMap α β) (l : List (α × β)) : Prop where
  once : m.keys.Nodup
  keys : ∀ k, k ∈ m.keys ↔ k ∈ l.map Prod.fst
  order : m.keys.Pairwise fun a b => (l.map Prod.fst).idxOf a < (l.map Prod.fst).idxOf b
  values : ∀ k v, (k, v) ∈ m.toList ↔
    ∃ before after, l = before ++ (k, v) :: after ∧ k ∉ after.map Prod.fst

theorem eraseDups_rising (l : List α) :
    l.eraseDups.Pairwise fun a b => l.idxOf a < l.idxOf b := by
  induction l using List.reverseRecOn with
  | nil => exact .nil
  | append_singleton before a ih =>
    have hnew : ([a].removeAll before).eraseDups = if a ∈ before then [] else [a] := by
      by_cases ha : a ∈ before <;> simp [List.removeAll, List.eraseDups_cons, ha]
    rw [List.eraseDups_append, hnew]
    refine List.pairwise_append.mpr ⟨ih.imp_of_mem fun {b c} hb hc hlt => ?_, ?_,
      fun b hb c hc => ?_⟩
    · rwa [List.idxOf_append_of_mem (List.mem_eraseDups.mp hb),
        List.idxOf_append_of_mem (List.mem_eraseDups.mp hc)]
    · split
      · exact .nil
      · exact List.pairwise_singleton _ a
    · split at hc
      case isTrue => cases hc
      case isFalse ha =>
        obtain rfl := List.mem_singleton.mp hc
        have hb := List.mem_eraseDups.mp hb
        rw [List.idxOf_append_of_mem hb, List.idxOf_append_of_notMem ha]
        exact Nat.lt_of_lt_of_le (List.idxOf_lt_length_of_mem hb) (Nat.le_add_right _ _)

theorem lookup_eq_some_iff_append {k : α} {v : β} {l : List (α × β)} :
    lookup k l = some v ↔
      ∃ before after, l = before ++ (k, v) :: after ∧ k ∉ before.map Prod.fst := by
  induction l with
  | nil => simp [lookup]
  | cons e rest ih =>
    obtain ⟨a, b⟩ := e
    rw [lookup]
    by_cases h : a = k
    · subst h
      rw [if_pos rfl, Option.some.injEq]
      constructor
      · rintro rfl
        exact ⟨[], rest, rfl, List.not_mem_nil⟩
      · rintro ⟨before, after, hsplit, hnot⟩
        cases before with
        | nil => exact congrArg Prod.snd (List.cons.inj hsplit).1
        | cons e before =>
          obtain ⟨rfl, _⟩ := List.cons.inj hsplit
          exact absurd List.mem_cons_self hnot
    · rw [if_neg h, ih]
      constructor
      · rintro ⟨before, after, rfl, hnot⟩
        refine ⟨(a, b) :: before, after, rfl, fun hk => ?_⟩
        rcases List.mem_cons.mp hk with hk | hk
        · exact h hk.symm
        · exact hnot hk
      · rintro ⟨before, after, hsplit, hnot⟩
        cases before with
        | nil => exact absurd (congrArg Prod.fst (List.cons.inj hsplit).1) h
        | cons e before =>
          exact ⟨before, after, (List.cons.inj hsplit).2,
            fun hk => hnot (List.mem_cons_of_mem _ hk)⟩

theorem comesFrom_ofList (l : List (α × β)) : (ofList l).ComesFrom l where
  once := nodup _
  keys k := by rw [keys_ofList, List.mem_eraseDups]
  order := by
    rw [keys_ofList]
    exact eraseDups_rising _
  values k v := by
    rw [← get?_eq_some, get?_ofList, lookup_eq_some_iff_append]
    constructor
    · rintro ⟨after, before, hsplit, hnot⟩
      refine ⟨before.reverse, after.reverse, ?_, by simpa using hnot⟩
      rw [← l.reverse_reverse, hsplit]
      simp
    · rintro ⟨before, after, rfl, hnot⟩
      exact ⟨after.reverse, before.reverse, by simp, by simpa using hnot⟩

theorem comesFrom_mergeAll (maps : List (OrderedMap α β)) :
    (mergeAll maps).ComesFrom (maps.flatMap toList) := by
  rw [mergeAll_eq_ofList]
  exact comesFrom_ofList _

theorem empty_merge (m : OrderedMap α β) : empty.merge m = m := by
  apply ext_get?
  · rw [keys_merge]
    exact List.filter_eq_self.mpr fun k _ => by simp [keys, empty]
  · intro k
    rw [get?_merge]
    exact Option.or_none

theorem mergeAll_cons (m : OrderedMap α β) (maps : List (OrderedMap α β)) :
    mergeAll (m :: maps) = m.merge (mergeAll maps) := by
  rw [merge_mergeAll, mergeAll, List.foldl_cons, empty_merge]

theorem mergeAll_append (maps maps' : List (OrderedMap α β)) :
    mergeAll (maps ++ maps') = (mergeAll maps).merge (mergeAll maps') := by
  rw [merge_mergeAll, mergeAll, mergeAll, List.foldl_append]

end OrderedMap

namespace Composite

variable {α β : Type} (own : α → OrderedMap String β)

mutual

/-- What a composite collects is one merge, a whole before its parts. -/
theorem collect_eq_mergeAll :
    (c : Composite α) → c.collect own = .mergeAll (c.preorder.map own)
  | .node v parts => by
    rw [collect, collectInto_eq_merge, preorder, List.map_cons, OrderedMap.mergeAll_cons]

theorem collectInto_eq_merge :
    (merged : OrderedMap String β) → (parts : List (Composite α)) →
      collectInto own merged parts = merged.merge (.mergeAll ((preorderAll parts).map own))
  | merged, [] => (OrderedMap.merge_mergeAll merged []).symm
  | merged, c :: rest => by
    rw [collectInto, collectInto_eq_merge, collect_eq_mergeAll, preorderAll, List.map_append,
      OrderedMap.mergeAll_append, OrderedMap.merge_assoc]

end

mutual

/-- Whether wholes are before or after their parts, they are the same. -/
theorem mem_preorder {v : α} : (c : Composite α) → (v ∈ c.preorder ↔ v ∈ c.postorder)
  | .node w parts => by
    rw [preorder, postorder, List.mem_cons, List.mem_append, List.mem_singleton,
      mem_preorderAll parts, or_comm]

theorem mem_preorderAll {v : α} :
    (parts : List (Composite α)) → (v ∈ preorderAll parts ↔ v ∈ postorderAll parts)
  | [] => Iff.rfl
  | c :: rest => by
    rw [preorderAll, postorderAll, List.mem_append, List.mem_append, mem_preorder c,
      mem_preorderAll rest]

end

end Composite

/-- **Merging obeys one algebra, in whichever groups it is done.** A merge has each key once,
where it first occurs, with the value that it last occurs with. Maps can be merged in two halves.
What is collected from a composite of any depth and width is the merge of what it and all of its
parts have, a whole before its parts. -/
theorem contributions_merged {α β : Type} :
    (∀ maps : List (OrderedMap String β),
      (OrderedMap.mergeAll maps).ComesFrom (maps.flatMap OrderedMap.toList)) ∧
    (∀ maps maps' : List (OrderedMap String β),
      OrderedMap.mergeAll [.mergeAll maps, .mergeAll maps'] = .mergeAll (maps ++ maps')) ∧
    ∀ (own : α → OrderedMap String β) (c : Composite α),
      c.collect own = .mergeAll (c.preorder.map own) := by
  refine ⟨OrderedMap.comesFrom_mergeAll, fun maps maps' => ?_, Composite.collect_eq_mergeAll⟩
  rw [OrderedMap.mergeAll_pair, OrderedMap.mergeAll_cons, OrderedMap.mergeAll_append]

/-- A value that is nested deeper takes the place of the one above it, where that stands. -/
example :
    let own (l : List (String × String)) : OrderedMap String String := .ofList l
    let deep : Composite (List (String × String)) := .node [("location", "deep")] []
    let group : Composite (List (String × String)) := .node [("group", "a")] [deep]
    let address : Composite (List (String × String)) := .node [("address", "b")] []
    ((Composite.node [("location", "own")] [group, address]).collect own).toList =
      [("location", "deep"), ("group", "a"), ("address", "b")] := by
  decide

end Provision
