import Provision.Entity.Document
import Provision.Proofs.Data.Except
import Provision.Proofs.Data.OrderedMap

/-! Entity graphs as they are built.

A builder starts with the root and adds one entity after another, each below one that is
there; documents are read in no other way. What has grown like this is a tree: a child
knows the name under which it is found and the entity below which it is found, and has a
larger number than that one. Finishing a graph adds types and moves nothing. -/
namespace Provision.EntityGraph
open Yaml (Value)

namespace Builder

/-- What can be built by adding entities below those that are there. -/
inductive Grown : Builder → Prop where
  | start : Grown .start
  | add {b : Builder} {parent : EntityId} (name : String) (value : Option Scalar) : Grown b →
      parent < b.next → Grown (b.add parent name value).2

theorem next_add (b : Builder) (parent : EntityId) (name : String) (value : Option Scalar) :
    (b.add parent name value).2.next = b.next + 1 :=
  b.size_add parent name value

theorem lt_next_add (b : Builder) (parent : EntityId) (name : String) (value : Option Scalar) :
    b.next < (b.add parent name value).2.next := by
  rw [next_add]
  exact Nat.lt_succ_self _

/-- Adding an entity adds a leaf and tells its parent. -/
theorem entity_add {b : Builder} {parent : EntityId} (hparent : parent < b.next) (name : String)
    (value : Option Scalar) (id : EntityId) :
    (b.add parent name value).2.entity id =
      if id = b.next then { name, parent := some parent, value }
      else if id = parent then
        { b.entity parent with children := (b.entity parent).children.insert name b.next }
      else b.entity id := by
  have hsize : parent < b.entities.size := hparent
  simp only [add, entity, next, Array.getElem?_modify, Array.getElem?_push]
  by_cases hnew : id = b.entities.size
  · have hne : parent ≠ b.entities.size := Nat.ne_of_lt hsize
    simp [hnew, hne]
  · by_cases hid : id = parent
    · subst hid
      simp [hnew, hsize]
    · simp [hnew, hid, Ne.symm hid]

theorem Grown.next_pos {b : Builder} (h : b.Grown) : 0 < b.next := by
  induction h with
  | start => exact Nat.one_pos
  | add =>
    rw [next_add]
    exact Nat.succ_pos _

/-- A child has its name and its parent, and a larger number. -/
theorem Grown.child {b : Builder} (h : b.Grown) {p c : EntityId} {name : String}
    (hc : (name, c) ∈ (b.entity p).children.toList) :
    p < c ∧ c < b.next ∧ (b.entity c).name = name ∧ (b.entity c).parent = some p := by
  induction h generalizing p c name with
  | start =>
    have hleaf : (Builder.start.entity p).children = OrderedMap.empty := by
      rcases p with _ | p <;> rfl
    rw [hleaf] at hc
    exact absurd hc List.not_mem_nil
  | @add b parent added value hb hparent ih =>
    have hold {p c : EntityId} {name : String} (hc : (name, c) ∈ (b.entity p).children.toList) :
        p < c ∧ c < (b.add parent added value).2.next ∧
          ((b.add parent added value).2.entity c).name = name ∧
          ((b.add parent added value).2.entity c).parent = some p := by
      obtain ⟨hpc, hlt, hname, hparent'⟩ := ih hc
      have hne : c ≠ b.next := Nat.ne_of_lt hlt
      rw [next_add, entity_add hparent, if_neg hne]
      refine ⟨hpc, Nat.lt_succ_of_lt hlt, ?_⟩
      by_cases hcp : c = parent
      · subst hcp
        rw [if_pos rfl]
        exact ⟨hname, hparent'⟩
      · rw [if_neg hcp]
        exact ⟨hname, hparent'⟩
    rw [entity_add hparent] at hc
    by_cases hnew : p = b.next
    · rw [if_pos hnew] at hc
      exact absurd hc List.not_mem_nil
    · rw [if_neg hnew] at hc
      by_cases hp : p = parent
      · rw [if_pos hp] at hc
        subst hp
        rcases OrderedMap.mem_insert.mp hc with ⟨rfl, rfl⟩ | ⟨_, hc⟩
        · rw [next_add, entity_add hparent, if_pos rfl]
          exact ⟨hparent, Nat.lt_succ_self _, rfl, rfl⟩
        · exact hold hc
      · rw [if_neg hp] at hc
        exact hold hc

/-! ### Reading -/

/-- What grows out of a builder, at least as large. -/
def Grows (b b' : Builder) : Prop := b'.Grown ∧ b.next ≤ b'.next

theorem Grows.trans {b₁ b₂ b₃ : Builder} (h : b₁.Grows b₂) (h' : b₂.Grows b₃) : b₁.Grows b₃ :=
  ⟨h'.1, Nat.le_trans h.2 h'.2⟩

theorem Grown.grows_add {b : Builder} (h : b.Grown) {parent : EntityId} (hparent : parent < b.next)
    (name : String) (value : Option Scalar) : b.Grows (b.add parent name value).2 :=
  ⟨.add name value h hparent, by rw [next_add]; exact Nat.le_succ _⟩

/-- Adding below an entity changes the children of that entity and nothing else that was
there. -/
structure Extends (b : Builder) (parent : EntityId) (children : OrderedMap String EntityId)
    (b' : Builder) : Prop where
  grows : b.Grows b'
  above : b'.entity parent = { b.entity parent with children }
  rest : ∀ i < b.next, i ≠ parent → b'.entity i = b.entity i

namespace Extends

variable {b b₁ b₂ : Builder} {parent : EntityId} {children children₁ : OrderedMap String EntityId}

theorem refl (hb : b.Grown) : b.Extends parent (b.entity parent).children b :=
  ⟨⟨hb, Nat.le_refl _⟩, rfl, fun _ _ _ => rfl⟩

theorem trans (h : b.Extends parent children b₁) (h' : b₁.Extends parent children₁ b₂) :
    b.Extends parent children₁ b₂ where
  grows := h.grows.trans h'.grows
  above := by rw [h'.above, h.above]
  rest i hi hne := by
    rw [h'.rest i (Nat.lt_of_lt_of_le hi h.grows.2) hne, h.rest i hi hne]

/-- Adding below the entity that was just added. -/
theorem below (h : b.Extends parent children b₁) (hparent : parent < b.next)
    (h' : b₁.Extends b.next children₁ b₂) : b.Extends parent children b₂ where
  grows := h.grows.trans h'.grows
  above := by
    rw [h'.rest parent (Nat.lt_of_lt_of_le hparent h.grows.2) (Nat.ne_of_lt hparent), h.above]
  rest i hi hne := by
    rw [h'.rest i (Nat.lt_of_lt_of_le hi h.grows.2) (Nat.ne_of_lt hi), h.rest i hi hne]

end Extends

theorem Grown.extends_add {b : Builder} (h : b.Grown) {parent : EntityId}
    (hparent : parent < b.next) (name : String) (value : Option Scalar) :
    b.Extends parent ((b.entity parent).children.insert name b.next)
      (b.add parent name value).2 where
  grows := h.grows_add hparent name value
  above := by rw [entity_add hparent, if_neg (Nat.ne_of_lt hparent), if_pos rfl]
  rest i hi hne := by rw [entity_add hparent, if_neg (Nat.ne_of_lt hi), if_neg hne]

mutual

theorem extends_addValue {parent : EntityId} {name : String} : (v : Value) → {b b' : Builder} →
    addValue parent name v b = .ok b' → b.Grown → parent < b.next →
    b.Extends parent ((b.entity parent).children.insert name b.next) b'
  | .mapping entries, b, b', h, hb, hparent => by
    have hadd := hb.extends_add hparent name none
    rw [addValue] at h
    obtain ⟨children, hentries⟩ := extends_addEntries entries h hadd.grows.1 (b.lt_next_add ..)
    exact hadd.below hparent hentries
  | .sequence items, b, b', h, hb, hparent => by
    have hadd := hb.extends_add hparent name none
    rw [addValue] at h
    obtain ⟨children, hitems⟩ := extends_addItems items h hadd.grows.1 (b.lt_next_add ..)
    exact hadd.below hparent hitems
  | .tagged _ v, b, b', h, hb, hparent => by
    rw [addValue] at h
    exact extends_addValue v h hb hparent
  | .null, b, b', h, hb, hparent | .boolean _, b, b', h, hb, hparent
  | .integer _, b, b', h, hb, hparent | .float _, b, b', h, hb, hparent
  | .string _, b, b', h, hb, hparent => by
    cases h
    exact hb.extends_add hparent name _

theorem extends_addEntries {parent : EntityId} : (entries : List (Value × Value)) →
    {b b' : Builder} → addEntries parent entries b = .ok b' → b.Grown → parent < b.next →
    ∃ children, b.Extends parent children b'
  | [], b, b', h, hb, hparent => by
    cases h
    exact ⟨_, .refl hb⟩
  | (k, v) :: rest, b, b', h, hb, hparent => by
    rw [addEntries] at h
    obtain ⟨name, _, h⟩ := bind_eq_ok.mp h
    obtain ⟨b₁, hv, h⟩ := bind_eq_ok.mp h
    have hvalue := extends_addValue v hv hb hparent
    obtain ⟨children, hrest⟩ := extends_addEntries rest h hvalue.grows.1
      (Nat.lt_of_lt_of_le hparent hvalue.grows.2)
    exact ⟨children, hvalue.trans hrest⟩

theorem extends_addItems {parent : EntityId} : {index : Nat} → (items : List Value) →
    {b b' : Builder} → addItems parent index items b = .ok b' → b.Grown → parent < b.next →
    ∃ children, b.Extends parent children b'
  | _, [], b, b', h, hb, hparent => by
    cases h
    exact ⟨_, .refl hb⟩
  | _, v :: rest, b, b', h, hb, hparent => by
    rw [addItems] at h
    obtain ⟨b₁, hv, h⟩ := bind_eq_ok.mp h
    have hvalue := extends_addValue v hv hb hparent
    obtain ⟨children, hrest⟩ := extends_addItems rest h hvalue.grows.1
      (Nat.lt_of_lt_of_le hparent hvalue.grows.2)
    exact ⟨children, hvalue.trans hrest⟩

end

theorem grows_mergeEntry {entry : Value × Value} {b b' : Builder}
    (h : mergeEntry b entry = .ok b') (hb : b.Grown) : b.Grows b' := by
  obtain ⟨name, _, h⟩ := bind_eq_ok.mp h
  split at h
  case h_1 types definitions _ hchild _ =>
    have htypes := hb.child (OrderedMap.get?_eq_some.mp hchild)
    obtain ⟨_, hentries⟩ := extends_addEntries definitions h hb htypes.2.1
    exact hentries.grows
  case h_2 => exact (extends_addValue _ h hb hb.next_pos).grows

theorem grows_mergeDocument {entries : List (Value × Value)} {b b' : Builder}
    (h : b.mergeDocument entries = .ok b') (hb : b.Grown) : b.Grows b' := by
  refine foldlM_invariant (fun b₁ entry _ b₂ h₁ h₂ => ?_) h ⟨hb, Nat.le_refl _⟩
  exact h₁.trans (grows_mergeEntry h₂ h₁.1)

/-! ### Finishing -/

theorem exists_foldl_assign (refs : List (EntityId × EntityId)) (entities : Array Entity)
    (id : EntityId) : ∃ t, (refs.foldl assign entities)[id]?.getD default =
      { entities[id]?.getD default with typeRef := t } := by
  induction refs generalizing entities with
  | nil => exact ⟨_, rfl⟩
  | cons ref rest ih =>
    obtain ⟨t, ht⟩ := ih (assign entities ref)
    refine ⟨t, ?_⟩
    rw [List.foldl_cons, ht, assign, Array.getElem?_modify]
    split
    · cases entities[id]? <;> rfl
    · rfl

/-- Finishing changes nothing but types. -/
theorem exists_entity_build (b : Builder) (id : EntityId) :
    ∃ t, b.build.entity id = { b.entity id with typeRef := t } :=
  exists_foldl_assign _ _ _

end Builder

/-- Every document that is read has grown entity by entity. -/
theorem exists_grown_of_ofValue {builtIn : Bool} {v : Value} {g : EntityGraph}
    (h : ofValue builtIn v = .ok g) : ∃ b : Builder, b.Grown ∧ b.build = g := by
  obtain ⟨b₁, hstart, h⟩ := bind_eq_ok.mp h
  obtain ⟨entries, _, h⟩ := bind_eq_ok.mp h
  obtain ⟨b, hb, h⟩ := bind_eq_ok.mp h
  cases h
  exact ⟨b, (Builder.grows_mergeDocument hb (Builder.grows_mergeDocument hstart .start).1).1, rfl⟩

/-- A child is found under its name. -/
theorem name_of_child {builtIn : Bool} {v : Value} {g : EntityGraph}
    (h : ofValue builtIn v = .ok g) {p c : EntityId} {name : String}
    (hc : (name, c) ∈ (g.entity p).children.toList) : (g.entity c).name = name := by
  obtain ⟨b, hb, rfl⟩ := exists_grown_of_ofValue h
  obtain ⟨_, hp⟩ := b.exists_entity_build p
  obtain ⟨_, hc'⟩ := b.exists_entity_build c
  rw [hp] at hc
  rw [hc']
  exact (hb.child hc).2.2.1

/-- No two children of an entity have one name. -/
theorem nodup_names_children {builtIn : Bool} {v : Value} {g : EntityGraph}
    (h : ofValue builtIn v = .ok g) (p : EntityId) :
    ((g.children p).map fun c => (g.entity c).name).Nodup := by
  have hkeys : (g.children p).map (fun c => (g.entity c).name) = (g.entity p).children.keys := by
    rw [children, OrderedMap.values, OrderedMap.keys, List.map_map]
    exact List.map_congr_left fun entry hentry => name_of_child h hentry
  rw [hkeys]
  exact (g.entity p).children.nodup

end Provision.EntityGraph
