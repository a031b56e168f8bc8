import Provision.Proofs.Model.Precedence
import Provision.Proofs.Text.Octets
import Provision.Proofs.Topology.Placement

/-! The order of operations.

An entity has each operation once, under its own name, whoever declares it. So no two of its
operations run at the same place: a standard one has a place of its own, and all others are told
apart by the octets of their names. There is one list of the operations in this order, and it
does not matter how they are declared. -/
namespace Provision
open Text (octets)
open Yaml (Value)

namespace Operation

/-- The standard operations come first, in their order, and all others follow by the octets of
their names. -/
def Scheduled (l : List Operation) : Prop :=
  ∃ first others, l = first ++ others ∧ (first.map name).Sublist standard ∧
    (∀ o ∈ others, o.name ∉ standard) ∧
    others.Pairwise fun a b => octets a.name < octets b.name

/-- An operation runs at an earlier place than another. -/
def Precedes (a b : Operation) : Prop :=
  a.rank < b.rank ∨ a.rank = b.rank ∧ octets a.name < octets b.name

theorem Precedes.asymm {a b : Operation} (h : a.Precedes b) : ¬ b.Precedes a := by
  intro h'
  rcases h with h | ⟨h, hname⟩
  · rcases h' with h' | ⟨h', _⟩ <;> omega
  · rcases h' with h' | ⟨_, hname'⟩
    · omega
    · exact List.lt_asymm hname hname'

theorem precedes_of_runsBefore {a b : Operation} (h : a.runsBefore b) (hne : a.name ≠ b.name) :
    a.Precedes b := by
  rcases runsBefore_iff.mp h with h | ⟨h, hname⟩
  · exact .inl h
  · exact .inr ⟨h, Text.octets_lt_octets (lt_of_le_of_ne hname hne)⟩

/-! ### The places of the standard operations -/

theorem rank_lt_iff {o : Operation} : o.rank < standard.length ↔ o.name ∈ standard :=
  List.idxOf_lt_length_iff

theorem rank_of_notMem {o : Operation} (h : o.name ∉ standard) : o.rank = standard.length :=
  List.idxOf_eq_length h

theorem standard_rising :
    standard.Pairwise fun a b => standard.idxOf a < standard.idxOf b := by
  decide

/-- Standard operations at rising places are in their order. -/
theorem sublist_standard {l : List Operation} (hl : l.Pairwise Precedes)
    (hstandard : ∀ o ∈ l, o.name ∈ standard) : (l.map name).Sublist standard := by
  have hrising : (l.map name).Pairwise fun a b => standard.idxOf a < standard.idxOf b := by
    refine List.pairwise_map.mpr (hl.imp_of_mem fun {a b} ha hb hab => ?_)
    rcases hab with hab | ⟨hsame, hname⟩
    · exact hab
    · rw [(List.idxOf_inj (hstandard a ha)).mp hsame] at hname
      exact absurd hname (List.lt_irrefl _)
  have hsubperm : (l.map name).Subperm standard := by
    have hnodup : (l.map name).Nodup := by
      refine hrising.imp ?_
      rintro a _ hlt rfl
      exact Nat.lt_irrefl _ hlt
    refine hnodup.subperm fun n hn => ?_
    obtain ⟨o, ho, rfl⟩ := List.mem_map.mp hn
    exact hstandard o ho
  obtain ⟨sorted, hperm, hsublist⟩ := hsubperm
  have hsame : sorted = l.map name :=
    hperm.eq_of_pairwise (fun _ _ _ _ hab hba => absurd hab (Nat.lt_asymm hba))
      (standard_rising.sublist hsublist) hrising
  exact hsame ▸ hsublist

/-- A list is in the order of operations exactly if its elements are at rising places. -/
theorem scheduled_iff {l : List Operation} : Scheduled l ↔ l.Pairwise Precedes := by
  constructor
  · rintro ⟨first, others, rfl, hfirst, hothers, hnames⟩
    have hstandard : ∀ o ∈ first, o.name ∈ standard := fun o ho =>
      hfirst.subset (List.mem_map_of_mem ho)
    refine List.pairwise_append.mpr ⟨?_, hnames.imp_of_mem fun {a b} ha hb hab => ?_,
      fun a ha b hb => .inl ?_⟩
    · exact (List.pairwise_map.mp (standard_rising.sublist hfirst)).imp .inl
    · exact .inr ⟨by rw [rank_of_notMem (hothers a ha), rank_of_notMem (hothers b hb)], hab⟩
    · rw [rank_of_notMem (hothers b hb)]
      exact rank_lt_iff.mpr (hstandard a ha)
  · intro hl
    induction l with
    | nil => exact ⟨[], [], rfl, List.nil_sublist _, by simp, .nil⟩
    | cons a rest ih =>
      obtain ⟨ha, hrest⟩ := List.pairwise_cons.mp hl
      obtain ⟨first, others, rfl, hfirst, hothers, hnames⟩ := ih hrest
      have hstandard : ∀ o ∈ first, o.name ∈ standard := fun o ho =>
        hfirst.subset (List.mem_map_of_mem ho)
      by_cases hname : a.name ∈ standard
      · refine ⟨a :: first, others, rfl, sublist_standard ?_ ?_, hothers, hnames⟩
        · exact hl.sublist (List.sublist_append_left (a :: first) others)
        · exact List.forall_mem_cons.mpr ⟨hname, hstandard⟩
      · -- Nothing that runs after it is standard.
        have hlater : ∀ b ∈ first ++ others, b.name ∉ standard := by
          intro b hb hmem
          have hlast := rank_of_notMem hname
          have hplace := rank_lt_iff.mpr hmem
          rcases ha b hb with hlt | ⟨heq, _⟩ <;> omega
        refine ⟨[], a :: (first ++ others), rfl, List.nil_sublist _,
          List.forall_mem_cons.mpr ⟨hname, hlater⟩, hl.imp_of_mem fun {b c} hb hc hbc => ?_⟩
        have hall : ∀ o ∈ a :: (first ++ others), o.name ∉ standard :=
          List.forall_mem_cons.mpr ⟨hname, hlater⟩
        rcases hbc with hlt | ⟨_, hbc⟩
        · rw [rank_of_notMem (hall b hb), rank_of_notMem (hall c hc)] at hlt
          exact absurd hlt (Nat.lt_irrefl _)
        · exact hbc

/-- Operations of different names have one order. -/
theorem scheduled_perm_iff {l l' : List Operation} (hl : (l.map name).Nodup) :
    l'.Perm l ∧ Scheduled l' ↔ l' = inOrder l := by
  have hperm : (inOrder l).Perm l := sort_perm _ l
  have hinOrder : (inOrder l).Pairwise Precedes := by
    have hnames : ((inOrder l).map name).Nodup := (hperm.map name).nodup_iff.mpr hl
    exact ((pairwise_inOrder l).and (List.pairwise_map.mp hnames)).imp fun ⟨h, hne⟩ =>
      precedes_of_runsBefore h hne
  constructor
  · rintro ⟨hperm', hscheduled⟩
    exact (hperm'.trans hperm.symm).eq_of_pairwise
      (fun _ _ _ _ hab hba => absurd hba hab.asymm) (scheduled_iff.mp hscheduled) hinOrder
  · rintro rfl
    exact ⟨hperm, scheduled_iff.mpr hinOrder⟩

end Operation

namespace EntityGraph

/-- An operation stands under its own name. -/
theorem name_of_mem_operationsOf {g : EntityGraph} {owners : List EntityId} {name : String}
    {o : Operation} (h : (name, o) ∈ (g.operationsOf owners).toList) : o.name = name := by
  unfold operationsOf at h
  generalize (g.declaredBy owners Key.operations).map (Operation.ofEntity g) = l at h
  induction l using List.reverseRecOn with
  | nil => cases h
  | append_singleton before last ih =>
    rw [List.foldl_concat, OrderedMap.toList_insertNew] at h
    split at h
    · exact ih h
    · rcases List.mem_append.mp h with h | h
      · exact ih h
      · cases List.mem_singleton.mp h
        rfl

theorem map_name_operationsOf (g : EntityGraph) (owners : List EntityId) :
    (g.operationsOf owners).values.map Operation.name = (g.operationsOf owners).keys := by
  rw [OrderedMap.values_eq_map, List.map_map, OrderedMap.keys]
  exact List.map_congr_left fun _ he => name_of_mem_operationsOf he

theorem operations_eq_ok {g : EntityGraph} {id : EntityId}
    {operations : OrderedMap String Operation} (h : g.operations id = .ok operations) :
    ∃ owners, operations = g.operationsOf owners := by
  obtain ⟨types, _, h⟩ := bind_eq_ok.mp h
  cases h
  exact ⟨id :: types, rfl⟩

/-- **The operations of an entity have one order.** An entity whose chain of types resolves has
its operations in the order in which the standard ones come first, as they run, and all others
follow by the octets of their names. No other list of them is in this order, so entities with the
same operations under the same names, in whichever order and wherever these are declared, have
the same list. -/
theorem operations_scheduled {g : EntityGraph} {id : EntityId} {types : List EntityId}
    (htypes : g.Typed id types) :
    ∃ operations, g.operations id = .ok operations ∧
      (∀ l, l.Perm operations.values ∧ Operation.Scheduled l ↔ l = orderedOperations operations) ∧
      ∀ (g' : EntityGraph) (id' : EntityId) (operations' : OrderedMap String Operation),
        g'.operations id' = .ok operations' →
        (∀ name o, (name, o) ∈ operations'.toList ↔ (name, o) ∈ operations.toList) →
          orderedOperations operations' = orderedOperations operations := by
  have hone (l : List Operation) : l.Perm (g.operationsOf (id :: types)).values ∧
      Operation.Scheduled l ↔ l = orderedOperations (g.operationsOf (id :: types)) := by
    refine Operation.scheduled_perm_iff ?_
    rw [map_name_operationsOf]
    exact OrderedMap.nodup _
  refine ⟨_, operations_of_typed htypes, hone, fun g' id' operations' h hsame => ?_⟩
  obtain ⟨owners, rfl⟩ := operations_eq_ok h
  have hperm : (g'.operationsOf owners).toList.Perm (g.operationsOf (id :: types)).toList := by
    refine (List.perm_ext_iff_of_nodup ?_ ?_).mpr fun e => hsame e.1 e.2
    · exact List.Nodup.of_map _ (g'.operationsOf owners).nodup
    · exact List.Nodup.of_map _ (g.operationsOf (id :: types)).nodup
  have hnames : ((g'.operationsOf owners).values.map Operation.name).Nodup := by
    rw [map_name_operationsOf]
    exact OrderedMap.nodup _
  obtain ⟨hvalues, hscheduled⟩ := (Operation.scheduled_perm_iff hnames).mpr rfl
  exact (hone _).mp ⟨hvalues.trans (hperm.map Prod.snd), hscheduled⟩

/-- Two components with the same operations. One of them declares all of these itself, the other
one has some of them from its type. -/
def spreadDocument : Value :=
  BuiltIn.mapping
    [(Key.componentTypes, BuiltIn.mapping
        [("store", BuiltIn.mapping
            [(Key.operations, BuiltIn.mapping
              [("stop", .string "halt.sh"), ("create", .string "make.sh"),
                ("backup", .string "save.sh")])]),
          ("node", BuiltIn.mapping [])]),
      (Key.components, BuiltIn.mapping
        [("db", BuiltIn.mapping
            [(Key.type, .string "store"),
              (Key.operations, BuiltIn.mapping
                [("restore", .string "load.sh"), ("start", .string "run.sh")])]),
          ("log", BuiltIn.mapping
            [(Key.type, .string "node"),
              (Key.operations, BuiltIn.mapping
                [("backup", .string "save.sh"), ("create", .string "make.sh"),
                  ("restore", .string "load.sh"), ("start", .string "run.sh"),
                  ("stop", .string "halt.sh")])])])]

theorem operations_scheduled_spread : ∃ g db log, ofValue false spreadDocument = .ok g ∧
    g.descend? root [Key.components, "db"] = some 9 ∧ g.operations 9 = .ok db ∧
    g.descend? root [Key.components, "log"] = some 14 ∧ g.operations 14 = .ok log ∧
    db.keys = ["restore", "start", "stop", "create", "backup"] ∧
    log.keys = ["backup", "create", "restore", "start", "stop"] ∧
    orderedOperations log = orderedOperations db ∧
    (orderedOperations db).map Operation.name =
      ["create", "start", "stop", "backup", "restore"] := by
  have hspread : (ofValue false spreadDocument).map (fun g =>
      (g.chainOf 9, g.chainOf 14, decide (
        g.descend? root [Key.components, "db"] = some 9 ∧
        g.descend? root [Key.components, "log"] = some 14 ∧
        (g.operationsOf [14, 7]).toList.Perm (g.operationsOf [9, 2]).toList ∧
        (g.operationsOf [9, 2]).keys = ["restore", "start", "stop", "create", "backup"] ∧
        (g.operationsOf [14, 7]).keys = ["backup", "create", "restore", "start", "stop"] ∧
        (orderedOperations (g.operationsOf [9, 2])).map Operation.name =
          ["create", "start", "stop", "backup", "restore"]))) =
      .ok (.ok [2], .ok [7], true) := by
    decide +kernel
  obtain ⟨g, hg, hvalues⟩ := map_eq_ok.mp hspread
  simp only [Prod.mk.injEq, decide_eq_true_eq] at hvalues
  obtain ⟨hdb, hlog, hdbAt, hlogAt, hperm, hdbKeys, hlogKeys, horder⟩ := hvalues
  have hdbTyped := chainOf_eq_ok.mp hdb
  have hlogOperations := operations_of_typed (chainOf_eq_ok.mp hlog)
  obtain ⟨db, hdbOperations, _, halike⟩ := operations_scheduled hdbTyped
  cases hdbOperations.symm.trans (operations_of_typed hdbTyped)
  exact ⟨g, _, _, hg, hdbAt, hdbOperations, hlogAt, hlogOperations, hdbKeys, hlogKeys,
    halike g 14 _ hlogOperations fun _ _ => hperm.mem_iff, horder⟩

end EntityGraph
end Provision
