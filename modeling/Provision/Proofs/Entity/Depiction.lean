import Provision.Proofs.Entity.Alike
import Mathlib.Data.List.Nodup

/-! Entities that depict a document.

A value of a document becomes a tree of entities. The entities are numbered as they are read and
an entity whose name is given again stays behind, so the tree is not the list of entities: it is
what is reached from the value's entity by names. Adding a value gives such a tree, and nothing
that is added elsewhere changes it. -/
namespace Provision

namespace Yaml.Value

/-! ### Entries with names -/

/-- The entries of a mapping under the texts of their keys. -/
def named (entries : List (Value × Value)) : List (String × Value) :=
  entries.filterMap fun (k, v) => k.text?.map (·, v)

/-- Items under their numbers, the first one of which is given. -/
def numbered (index : Nat) (items : List Value) : List (String × Value) :=
  (items.zipIdx index).map fun (v, i) => (toString i, v)

theorem named_cons {k v : Value} {name : String} (hk : k.text? = some name)
    (rest : List (Value × Value)) : named ((k, v) :: rest) = (name, v) :: named rest :=
  List.filterMap_cons_some (by simp only [hk, Option.map_some])

theorem numbered_cons (index : Nat) (v : Value) (rest : List Value) :
    numbered index (v :: rest) = (toString index, v) :: numbered (index + 1) rest := rfl

theorem map_fst_numbered (items : List Value) :
    (numbered 0 items).map Prod.fst = (List.range items.length).map toString := by
  rw [List.range_eq_range', ← List.zipIdx_map_snd 0 items, numbered, List.map_map, List.map_map]
  rfl

theorem eq_of_toString_eq {j k : Nat} (h : toString j = toString k) : j = k := by
  have hdigits : Nat.toDigits 10 j = Nat.toDigits 10 k := by
    rw [← Nat.toList_repr, ← Nat.toList_repr]
    exact congrArg String.toList h
  rw [← Nat.ofDigitChars_ten_toDigits (n := j), hdigits, Nat.ofDigitChars_ten_toDigits]

/-- No number stands for two items. -/
theorem nodup_numbered (items : List Value) : ((numbered 0 items).map Prod.fst).Nodup := by
  rw [map_fst_numbered]
  exact List.nodup_range.map fun _ _ h => eq_of_toString_eq h

theorem lookup_numbered {items : List Value} {name : String} {v : Value} :
    OrderedMap.lookup name (numbered 0 items).reverse = some v ↔
      ∃ k : Nat, toString k = name ∧ items[k]? = some v := by
  have hnodup : ((numbered 0 items).reverse.map Prod.fst).Nodup := by
    rw [List.map_reverse, List.nodup_reverse]
    exact nodup_numbered items
  rw [OrderedMap.lookup_eq_some hnodup, List.mem_reverse, numbered, List.mem_map]
  constructor
  · rintro ⟨⟨w, k⟩, hw, heq⟩
    cases heq
    exact ⟨k, rfl, List.mk_mem_zipIdx_iff_getElem?.mp hw⟩
  · rintro ⟨k, rfl, hv⟩
    exact ⟨(v, k), List.mk_mem_zipIdx_iff_getElem?.mpr hv, rfl⟩

end Yaml.Value

namespace EntityGraph
open Yaml (Value)
open Builder (leafValue)

/-! ### Depictions -/

/-- What an entity and those below it say is a value of a document. -/
inductive Depicts (e : EntityId → Entity) : EntityId → Value → Prop where
  /-- A mapping has a child for each name, where the name first occurs, which depicts the value
  that the name has last. -/
  | mapping {i : EntityId} {entries : List (Value × Value)} : (e i).value = none →
      (e i).children.keys = ((Value.named entries).map Prod.fst).eraseDups →
      (∀ name c v, (e i).children.get? name = some c →
        OrderedMap.lookup name (Value.named entries).reverse = some v → Depicts e c v) →
      Depicts e i (.mapping entries)
  /-- A sequence has a child for each item, with its index as name. -/
  | sequence {i : EntityId} {items : List Value} : (e i).value = none →
      (e i).children.keys = (List.range items.length).map toString →
      (∀ (k : Nat) c v, (e i).children.get? (toString k) = some c → items[k]? = some v →
        Depicts e c v) → Depicts e i (.sequence items)
  /-- A scalar is a leaf. -/
  | leaf {i : EntityId} {v : Value} : v.isScalar → (e i).value = leafValue v →
      (e i).children.toList = [] → Depicts e i v
  /-- A tag makes no difference. -/
  | tagged {i : EntityId} {tag : String} {v : Value} : Depicts e i v → Depicts e i (.tagged tag v)

/-- The children of an entity depict fields. Under a name that several fields have there is one
child, where the name first occurs and for its last field. -/
def Shows (e : EntityId → Entity) (i : EntityId) (fields : List (String × Value)) : Prop :=
  OrderedMap.Rel (fun _ => Depicts e) (e i).children (.ofList fields)

section Depicts
variable {e e₁ : EntityId → Entity} {i : EntityId} {v : Value} {part : EntityId → Prop}
  {fields : List (String × Value)}

theorem Depicts.of_untouched (h : Depicts e i v) (he : Untouched e e₁ part) (hi : part i) :
    Depicts e₁ i v := by
  induction h with
  | @mapping i entries hvalue hkeys _ ih =>
    obtain ⟨t, ht⟩ := he.same i hi
    refine .mapping (by rw [ht]; exact hvalue) (by rw [ht]; exact hkeys) fun name c v hc hv => ?_
    rw [ht] at hc
    exact ih name c v hc hv (he.closed i hi name c (OrderedMap.get?_eq_some.mp hc))
  | @sequence i items hvalue hkeys _ ih =>
    obtain ⟨t, ht⟩ := he.same i hi
    refine .sequence (by rw [ht]; exact hvalue) (by rw [ht]; exact hkeys) fun k c v hc hv => ?_
    rw [ht] at hc
    exact ih k c v hc hv (he.closed i hi _ c (OrderedMap.get?_eq_some.mp hc))
  | @leaf i v hv hvalue hchildren =>
    obtain ⟨t, ht⟩ := he.same i hi
    exact .leaf hv (by rw [ht]; exact hvalue) (by rw [ht]; exact hchildren)
  | tagged _ ih => exact .tagged (ih hi)

theorem Shows.of_untouched (h : Shows e i fields) (he : Untouched e e₁ part) (hi : part i) :
    Shows e₁ i fields := by
  obtain ⟨t, ht⟩ := he.same i hi
  rw [Shows, ht]
  exact OrderedMap.Rel.imp h fun name c v hc _ hcv =>
    hcv.of_untouched he (he.closed i hi name c (OrderedMap.get?_eq_some.mp hc))

theorem Shows.keys (h : Shows e i fields) :
    (e i).children.keys = (fields.map Prod.fst).eraseDups := by
  rw [OrderedMap.Rel.keys h, OrderedMap.keys_ofList]

theorem Shows.child (h : Shows e i fields) {name : String} {c : EntityId}
    (hc : (e i).children.get? name = some c) (hv : OrderedMap.lookup name fields.reverse = some v) :
    Depicts e c v := by
  rw [← OrderedMap.get?_ofList] at hv
  exact OrderedMap.Rel.values h name c v hc hv

/-- What an entity shows is found below it. -/
theorem Shows.exists_child (h : Shows e i fields) {name : String}
    (hv : OrderedMap.lookup name fields.reverse = some v) :
    ∃ c, (e i).children.get? name = some c ∧ Depicts e c v := by
  cases hc : (e i).children.get? name with
  | none =>
    rw [OrderedMap.Rel.get?_eq_none_iff h, OrderedMap.get?_ofList, hv] at hc
    cases hc
  | some c => exact ⟨c, rfl, h.child hc hv⟩

theorem Shows.child_eq_none (h : Shows e i fields) {name : String}
    (hname : name ∉ fields.map Prod.fst) : (e i).children.get? name = none := by
  rw [OrderedMap.get?_eq_none, h.keys, List.mem_eraseDups]
  exact hname

theorem shows_iff : Shows e i fields ↔
    (e i).children.keys = (fields.map Prod.fst).eraseDups ∧
      ∀ name c v, (e i).children.get? name = some c →
        OrderedMap.lookup name fields.reverse = some v → Depicts e c v := by
  constructor
  · exact fun h => ⟨h.keys, fun name c v hc hv => h.child hc hv⟩
  · rintro ⟨hkeys, hchild⟩
    refine ⟨by rw [hkeys, OrderedMap.keys_ofList], fun name c v hc hv => hchild name c v hc ?_⟩
    rwa [← OrderedMap.get?_ofList]

theorem depicts_mapping_iff {entries : List (Value × Value)} : Depicts e i (.mapping entries) ↔
    (e i).value = none ∧ Shows e i (Value.named entries) := by
  rw [shows_iff]
  constructor
  · intro h
    cases h with
    | mapping hvalue hkeys hchild => exact ⟨hvalue, hkeys, hchild⟩
    | leaf hv => cases hv
  · rintro ⟨hvalue, hkeys, hchild⟩
    exact .mapping hvalue hkeys hchild

theorem depicts_sequence_iff {items : List Value} : Depicts e i (.sequence items) ↔
    (e i).value = none ∧ Shows e i (Value.numbered 0 items) := by
  rw [shows_iff, OrderedMap.eraseDups_of_nodup (Value.nodup_numbered items),
    Value.map_fst_numbered]
  constructor
  · intro h
    cases h with
    | sequence hvalue hkeys hchild =>
      refine ⟨hvalue, hkeys, fun name c v hc hv => ?_⟩
      obtain ⟨k, rfl, hk⟩ := Value.lookup_numbered.mp hv
      exact hchild k c v hc hk
    | leaf hv => cases hv
  · rintro ⟨hvalue, hkeys, hchild⟩
    exact .sequence hvalue hkeys fun k c v hc hk =>
      hchild _ c v hc (Value.lookup_numbered.mpr ⟨k, rfl, hk⟩)

end Depicts

namespace Builder

theorem text?_of_keyName {k : Value} {name : String} (h : keyName k = .ok name) :
    k.text? = some name := by
  unfold keyName at h
  cases hk : k.text? with
  | none =>
    rw [hk] at h
    cases h
  | some text =>
    rw [hk] at h
    rw [Except.ok.inj h]

section Adding
variable {b b₁ : Builder} {i : EntityId} {name : String} {v : Value}
  {fields : List (String × Value)}

/-- A child that is added depicts one more field. -/
theorem shows_concat (h : Shows b.entity i fields) (hb : b.Grown)
    (hx : b.Extends i ((b.entity i).children.insert name b.next) b₁)
    (hnew : Depicts b₁.entity b.next v) : Shows b₁.entity i (fields ++ [(name, v)]) := by
  rw [Shows, hx.above, OrderedMap.ofList_concat]
  refine OrderedMap.Rel.insert (OrderedMap.Rel.imp h fun key c w hc _ hcw => ?_) name hnew
  obtain ⟨hlt, hnext, _⟩ := hb.child (OrderedMap.get?_eq_some.mp hc)
  exact hcw.of_untouched (hx.untouched hb) ⟨hlt, hnext⟩

theorem shows_add (parent : EntityId) (hparent : parent < b.next) (name : String) :
    Shows (b.add parent name none).2.entity b.next [] := by
  rw [Shows, entity_add_next hparent]
  exact .empty

/-- What is added below a new entity leaves its value. -/
theorem value_of_extends_add {parent : EntityId} (hparent : parent < b.next)
    {value : Option Scalar} {children : OrderedMap String EntityId}
    (h : (b.add parent name value).2.Extends b.next children b₁) :
    (b₁.entity b.next).value = value := by
  rw [h.above, entity_add_next hparent]

end Adding

mutual

/-- A value that is added is depicted by the entity that is added. -/
theorem depicts_addValue {parent : EntityId} {name : String} : (v : Value) → {b b' : Builder} →
    addValue parent name v b = .ok b' → b.Grown → parent < b.next →
    Depicts b'.entity b.next v
  | .mapping entries, b, b', h, hb, hparent => by
    have hadd := hb.grows_add hparent name none
    have hnext := b.lt_next_add parent name none
    rw [addValue] at h
    obtain ⟨_, hx⟩ := extends_addEntries entries h hadd.1 hnext
    have hshows := shows_addEntries entries h hadd.1 hnext (shows_add parent hparent name)
    exact depicts_mapping_iff.mpr ⟨value_of_extends_add hparent hx, hshows⟩
  | .sequence items, b, b', h, hb, hparent => by
    have hadd := hb.grows_add hparent name none
    have hnext := b.lt_next_add parent name none
    rw [addValue] at h
    obtain ⟨_, hx⟩ := extends_addItems items h hadd.1 hnext
    have hshows := shows_addItems items h hadd.1 hnext (shows_add parent hparent name)
    exact depicts_sequence_iff.mpr ⟨value_of_extends_add hparent hx, hshows⟩
  | .tagged _ v, b, b', h, hb, hparent => by
    rw [addValue] at h
    exact .tagged (depicts_addValue v h hb hparent)
  | .null, b, b', h, hb, hparent | .boolean _, b, b', h, hb, hparent
  | .integer _, b, b', h, hb, hparent | .float _, b, b', h, hb, hparent
  | .string _, b, b', h, hb, hparent => by
    cases h
    refine .leaf rfl ?_ ?_
    · rw [entity_add_next hparent]
      rfl
    · rw [entity_add_next hparent]
      rfl

/-- Entries that are added are depicted after those that are there. -/
theorem shows_addEntries {i : EntityId} : (entries : List (Value × Value)) →
    {fields : List (String × Value)} → {b b' : Builder} → addEntries i entries b = .ok b' →
    b.Grown → i < b.next → Shows b.entity i fields →
    Shows b'.entity i (fields ++ Value.named entries)
  | [], fields, b, b', h, hb, hi, hshows => by
    cases h
    rw [show Value.named [] = [] from rfl, List.append_nil]
    exact hshows
  | (k, v) :: rest, fields, b, b', h, hb, hi, hshows => by
    rw [addEntries] at h
    obtain ⟨name, hname, h⟩ := bind_eq_ok.mp h
    obtain ⟨b₁, hv, h⟩ := bind_eq_ok.mp h
    have hx := extends_addValue v hv hb hi
    have hone := shows_concat hshows hb hx (depicts_addValue v hv hb hi)
    have hall := shows_addEntries rest h hx.grows.1 (Nat.lt_of_lt_of_le hi hx.grows.2) hone
    rw [Value.named_cons (text?_of_keyName hname)]
    rwa [List.append_assoc] at hall

/-- Items that are added are depicted under their numbers. -/
theorem shows_addItems {i : EntityId} : {index : Nat} → (items : List Value) →
    {fields : List (String × Value)} → {b b' : Builder} → addItems i index items b = .ok b' →
    b.Grown → i < b.next → Shows b.entity i fields →
    Shows b'.entity i (fields ++ Value.numbered index items)
  | index, [], fields, b, b', h, hb, hi, hshows => by
    cases h
    rw [show Value.numbered index [] = [] from rfl, List.append_nil]
    exact hshows
  | index, v :: rest, fields, b, b', h, hb, hi, hshows => by
    rw [addItems] at h
    obtain ⟨b₁, hv, h⟩ := bind_eq_ok.mp h
    have hx := extends_addValue v hv hb hi
    have hone := shows_concat hshows hb hx (depicts_addValue v hv hb hi)
    have hall := shows_addItems rest h hx.grows.1 (Nat.lt_of_lt_of_le hi hx.grows.2) hone
    rw [Value.numbered_cons]
    rwa [List.append_assoc] at hall

end

end Builder
end EntityGraph
end Provision
