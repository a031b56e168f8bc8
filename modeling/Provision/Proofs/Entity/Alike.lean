import Provision.Proofs.Entity.Grown
import Provision.Proofs.Entity.Lengthening

/-! Reading a document in short and in long form.

The long form of a document gives more entities, so those of the two readings have different
numbers. They still correspond: entity by entity from the root down, up to a scalar that one
document writes in short and the other one in long form. Adding a value to both readings keeps
this, and fails for both or for none. -/
namespace Provision.EntityGraph
open Yaml (Value)

/-! ### Entities that correspond -/

/-- Single children lead from an entity to a leaf. -/
def LeafBelow (e : EntityId → Entity) : EntityId → List String → Option Scalar → Prop
  | i, [], s => (e i).value = s ∧ (e i).children.toList = []
  | i, name :: rest, s => (e i).value = none ∧
      ∃ c, (e i).children.toList = [(name, c)] ∧ (e c).name = name ∧ LeafBelow e c rest s

/-- Two entities have the same content, except that where the first reading has a leaf, the
second one may have the leaf in a long form. -/
inductive Alike (e e' : EntityId → Entity) : Role → EntityId → EntityId → Prop where
  | same {role : Role} {i i' : EntityId} : (e i).name = (e' i').name →
      (e i).value = (e' i').value → (e i).children.keys = (e' i').children.keys →
      (∀ name c c', (e i).children.get? name = some c → (e' i').children.get? name = some c' →
        Alike e e' (role.child name) c c') → Alike e e' role i i'
  | long {role : Role} {wraps : List Wrap} {i i' : EntityId} {s : Option Scalar} :
      wraps ∈ role.longForms → (e i).name = (e' i').name → LeafBelow e i [] s →
      LeafBelow e' i' (wraps.map Wrap.name) s → Alike e e' role i i'

/-- Two entities have the same name and value, and children that are related. -/
structure Match (r : Role → EntityId → EntityId → Prop) (e e' : EntityId → Entity) (role : Role)
    (i i' : EntityId) : Prop where
  name : (e i).name = (e' i').name
  value : (e i).value = (e' i').value
  children : OrderedMap.Rel (fun name => r (role.child name)) (e i).children (e' i').children

section Alike
variable {e e' e₁ e₁' : EntityId → Entity} {role : Role} {i i' : EntityId}

theorem Match.alike (h : Match (Alike e e') e e' role i i') : Alike e e' role i i' :=
  .same h.name h.value h.children.keys h.children.values

theorem Alike.name (h : Alike e e' role i i') : (e i).name = (e' i').name := by
  cases h with
  | same hname => exact hname
  | long _ hname => exact hname

/-- Entities match, or one of them is a leaf and the other one its long form. -/
theorem Alike.match_or_long (h : Alike e e' role i i') : Match (Alike e e') e e' role i i' ∨
    ∃ wraps ∈ role.longForms, ∃ s, (e i).name = (e' i').name ∧ LeafBelow e i [] s ∧
      LeafBelow e' i' (wraps.map Wrap.name) s := by
  cases h with
  | same hname hvalue hkeys hchildren => exact .inl ⟨hname, hvalue, hkeys, hchildren⟩
  | long hwraps hname hleaf hlong => exact .inr ⟨_, hwraps, _, hname, hleaf, hlong⟩

/-- Where there are no long forms, entities match. -/
theorem Alike.matches (h : Alike e e' role i i') (hrole : role.longForms = []) :
    Match (Alike e e') e e' role i i' := by
  obtain h | ⟨wraps, hwraps, _⟩ := h.match_or_long
  · exact h
  · rw [hrole] at hwraps
    cases hwraps

theorem bind_value_eq {c c' : Option EntityId} (h : Option.Rel (Alike e e' role) c c')
    (hrole : role.longForms = []) :
    (c.bind fun c => (e c).value) = c'.bind fun c => (e' c).value := by
  cases h with
  | none => rfl
  | some hc => exact (hc.matches hrole).value

/-- Two entities have the same children, but for those that belong to a long form. -/
theorem Alike.rel_child (h : Alike e e' role i i') (name : String) (hname : name ∉ role.opening) :
    Option.Rel (Alike e e' (role.child name)) ((e i).children.get? name)
      ((e' i').children.get? name) := by
  obtain h | ⟨wraps, hwraps, s, _, hleaf, hlong⟩ := h.match_or_long
  · exact h.children.get? name
  · rw [OrderedMap.get?_of_toList_eq_nil hleaf.2]
    cases wraps with
    | nil =>
      rw [OrderedMap.get?_of_toList_eq_nil hlong.2]
      exact .none
    | cons w rest =>
      obtain ⟨_, c, hchildren, _⟩ := hlong
      have hne : w.name ≠ name := by
        rintro rfl
        exact hname (List.mem_filterMap.mpr ⟨_, hwraps, rfl⟩)
      rw [OrderedMap.get?_of_toList_eq_singleton hchildren, if_neg hne]
      exact .none

/-! ### Changes elsewhere -/

/-- With an entity a part of a graph has its children, and nothing but types changes in it. -/
structure Untouched (e e₁ : EntityId → Entity) (part : EntityId → Prop) : Prop where
  same : ∀ i, part i → ∃ t, e₁ i = { e i with typeRef := t }
  closed : ∀ i, part i → ∀ name c, (name, c) ∈ (e i).children.toList → part c

variable {part part' : EntityId → Prop}

theorem LeafBelow.of_untouched {names : List String} {s : Option Scalar}
    (h : LeafBelow e i names s) (he : Untouched e e₁ part) (hi : part i) :
    LeafBelow e₁ i names s := by
  induction names generalizing i with
  | nil =>
    obtain ⟨t, ht⟩ := he.same i hi
    rw [LeafBelow, ht]
    exact h
  | cons name rest ih =>
    obtain ⟨hvalue, c, hchildren, hname, hrest⟩ := h
    have hc : part c := he.closed i hi name c (by rw [hchildren]; exact List.mem_singleton_self _)
    obtain ⟨t, ht⟩ := he.same i hi
    obtain ⟨t', ht'⟩ := he.same c hc
    rw [LeafBelow, ht]
    exact ⟨hvalue, c, hchildren, by rw [ht']; exact hname, ih hrest hc⟩

theorem Alike.of_untouched (h : Alike e e' role i i') (he : Untouched e e₁ part)
    (he' : Untouched e' e₁' part') (hi : part i) (hi' : part' i') : Alike e₁ e₁' role i i' := by
  induction h with
  | @same role i i' hname hvalue hkeys _ ih =>
    obtain ⟨t, ht⟩ := he.same i hi
    obtain ⟨t', ht'⟩ := he'.same i' hi'
    refine .same ?_ ?_ ?_ fun name c c' hc hc' => ?_
    · rw [ht, ht']
      exact hname
    · rw [ht, ht']
      exact hvalue
    · rw [ht, ht']
      exact hkeys
    · rw [ht] at hc
      rw [ht'] at hc'
      exact ih name c c' hc hc' (he.closed i hi name c (OrderedMap.get?_eq_some.mp hc))
        (he'.closed i' hi' name c' (OrderedMap.get?_eq_some.mp hc'))
  | @long role wraps i i' s hwraps hname hleaf hlong =>
    obtain ⟨t, ht⟩ := he.same i hi
    obtain ⟨t', ht'⟩ := he'.same i' hi'
    refine .long hwraps ?_ (hleaf.of_untouched he hi) (hlong.of_untouched he' hi')
    rw [ht, ht']
    exact hname

end Alike

namespace Builder

/-! ### Values -/

/-- Entities of two builders match. -/
abbrev Matches (b b' : Builder) (role : Role) (i i' : EntityId) : Prop :=
  Match (Alike b.entity b'.entity) b.entity b'.entity role i i'

section Adding
variable {b b₁ b' b₁' : Builder} {role : Role} {name : String} {parent parent' i i' : EntityId}
  {children children' : OrderedMap String EntityId} {v v' : Value}

/-- Adding below an entity leaves what is below its children alone. -/
theorem Extends.untouched (h : b.Extends parent children b₁) (hb : b.Grown) :
    Untouched b.entity b₁.entity fun j => parent < j ∧ j < b.next where
  same j hj := ⟨(b.entity j).typeRef, h.rest j hj.2 (Nat.ne_of_gt hj.1)⟩
  closed j hj name c hc := by
    obtain ⟨hlt, hnext, _⟩ := hb.child hc
    exact ⟨Nat.lt_trans hj.1 hlt, hnext⟩

/-- Children of one name that are alike can be added to entities that match. -/
theorem Matches.extends (h : b.Matches b' role i i') (hb : b.Grown) (hb' : b'.Grown)
    (hx : b.Extends i ((b.entity i).children.insert name b.next) b₁)
    (hx' : b'.Extends i' ((b'.entity i').children.insert name b'.next) b₁')
    (hnew : Alike b₁.entity b₁'.entity (role.child name) b.next b'.next) :
    b₁.Matches b₁' role i i' where
  name := by
    rw [hx.above, hx'.above]
    exact h.name
  value := by
    rw [hx.above, hx'.above]
    exact h.value
  children := by
    rw [hx.above, hx'.above]
    refine OrderedMap.Rel.insert (h.children.imp fun k c c' hc hc' halike => ?_) name hnew
    obtain ⟨hlt, hnext, _⟩ := hb.child (OrderedMap.get?_eq_some.mp hc)
    obtain ⟨hlt', hnext', _⟩ := hb'.child (OrderedMap.get?_eq_some.mp hc')
    exact halike.of_untouched (hx.untouched hb) (hx'.untouched hb') ⟨hlt, hnext⟩ ⟨hlt', hnext'⟩

/-- The value of the leaf that a scalar becomes. -/
def leafValue : Value → Option Scalar
  | .tagged _ v => leafValue v
  | v => scalar v

theorem addValue_of_isScalar (hv : v.isScalar) :
    addValue parent name v b = .ok (b.add parent name (leafValue v)).2 := by
  induction v using leafValue.induct with
  | case1 tag v ih =>
    rw [addValue, leafValue]
    exact ih hv
  | case2 v htag =>
    cases v with
    | sequence => cases hv
    | mapping => cases hv
    | tagged tag v => exact absurd rfl (htag tag v)
    | _ => rfl

theorem addValue_around (w : Wrap) (v : Value) : addValue parent name (w.around v) b =
    addValue b.next w.name v (b.add parent name none).2 := by
  cases w with
  | field key => exact bind_pure (addValue b.next key v (b.add parent name none).2)
  | item => exact bind_pure (addValue b.next (toString 0) v (b.add parent name none).2)

theorem entity_add_next (hparent : parent < b.next) (name : String) (value : Option Scalar) :
    (b.add parent name value).2.entity b.next = { name, parent := some parent, value } := by
  rw [entity_add hparent, if_pos rfl]

/-- A scalar in a long form becomes a leaf below single children. -/
theorem exists_addValue_wrapped (wraps : List Wrap) (name : String) (hv : v.isScalar)
    (hb : b.Grown) (hparent : parent < b.next) :
    ∃ b₁, addValue parent name (wrapped wraps v) b = .ok b₁ ∧
      (b₁.entity b.next).name = name ∧
      LeafBelow b₁.entity b.next (wraps.map Wrap.name) (leafValue v) := by
  induction wraps generalizing b parent name with
  | nil =>
    refine ⟨_, addValue_of_isScalar hv, ?_, ?_⟩
    · rw [entity_add_next hparent]
    · rw [List.map_nil, LeafBelow, entity_add_next hparent]
      exact ⟨rfl, rfl⟩
  | cons w rest ih =>
    have hadd := hb.grows_add hparent name none
    have hnext := b.lt_next_add parent name none
    obtain ⟨b₁, h, hname, hbelow⟩ := ih w.name hadd.1 hnext
    have habove := (extends_addValue _ h hadd.1 hnext).above
    rw [entity_add_next hparent] at habove
    refine ⟨b₁, (addValue_around w _).trans h, by rw [habove], ?_⟩
    rw [List.map_cons, LeafBelow, habove]
    exact ⟨rfl, _, rfl, hname, hbelow⟩

theorem matches_add (hparent : parent < b.next) (hparent' : parent' < b'.next) (name : String)
    (value : Option Scalar) : (b.add parent name value).2.Matches (b'.add parent' name value).2
      role b.next b'.next where
  name := by rw [entity_add_next hparent, entity_add_next hparent']
  value := by rw [entity_add_next hparent, entity_add_next hparent']
  children := by
    rw [entity_add_next hparent, entity_add_next hparent']
    exact .empty

/-- A scalar and one of its long forms. -/
theorem agree_addValue_wrapped {wraps : List Wrap} (hwraps : wraps ∈ role.longForms)
    (hv : v.isScalar) (hb' : b'.Grown) (hparent : parent < b.next) (hparent' : parent' < b'.next) :
    Agree (fun b₁ b₁' => Alike b₁.entity b₁'.entity role b.next b'.next)
      (addValue parent name v b) (addValue parent' name (wrapped wraps v) b') := by
  obtain ⟨b₁', h', hname, hbelow⟩ := exists_addValue_wrapped wraps name hv hb' hparent'
  rw [addValue_of_isScalar hv, h']
  refine .ok (.long hwraps ?_ ?_ hbelow)
  · rw [entity_add_next hparent, hname]
  · rw [LeafBelow, entity_add_next hparent]
    exact ⟨rfl, rfl⟩

/-- What is added below entities that match keeps them matching. -/
theorem agree_below (h : Agree (fun b₁ b₁' => Alike b₁.entity b₁'.entity (role.child name) b.next
      b'.next) (addValue i name v b) (addValue i' name v' b')) (hb : b.Grown) (hb' : b'.Grown)
    (hi : i < b.next) (hi' : i' < b'.next) (hmatch : b.Matches b' role i i') :
    Agree (fun b₁ b₁' => b.Grows b₁ ∧ b'.Grows b₁' ∧ b₁.Matches b₁' role i i')
      (addValue i name v b) (addValue i' name v' b') := by
  refine h.imp fun b₁ b₁' h₁ h₁' hnew => ?_
  have hx := extends_addValue v h₁ hb hi
  have hx' := extends_addValue v' h₁' hb' hi'
  exact ⟨hx.grows, hx'.grows, hmatch.extends hb hb' hx hx' hnew⟩

end Adding

/-! ### Adding both forms -/

-- The recursion is on the short form. Where the long form has levels of its own, the short one
-- is a scalar and ends it.
mutual

/-- A value and a longer form of it are added with entities that are alike, or neither is
added. -/
theorem agree_addValue {role : Role} {name : String} {parent parent' : EntityId} : (v : Value) →
    {v' : Value} → Lengthens role v v' → {b b' : Builder} → b.Grown → b'.Grown →
    parent < b.next → parent' < b'.next →
    Agree (fun b₁ b₁' => Alike b₁.entity b₁'.entity role b.next b'.next)
      (addValue parent name v b) (addValue parent' name v' b')
  | .mapping entries, v', h, b, b', hb, hb', hparent, hparent' => by
    obtain ⟨entries', rfl, hentries⟩ := h.of_mapping
    rw [addValue, addValue]
    exact (agree_addEntries entries hentries (hb.grows_add hparent name none).1
      (hb'.grows_add hparent' name none).1 (b.lt_next_add ..) (b'.lt_next_add ..)
      (matches_add hparent hparent' name none)).imp fun _ _ _ _ h₁ => h₁.alike
  | .sequence items, v', h, b, b', hb, hb', hparent, hparent' => by
    obtain ⟨items', rfl, hitems⟩ := h.of_sequence
    rw [addValue, addValue]
    exact (agree_addItems items hitems (hb.grows_add hparent name none).1
      (hb'.grows_add hparent' name none).1 (b.lt_next_add ..) (b'.lt_next_add ..)
      (matches_add hparent hparent' name none)).imp fun _ _ _ _ h₁ => h₁.alike
  | .tagged tag v, v', h, b, b', hb, hb', hparent, hparent' => by
    cases h with
    | same =>
      rw [addValue, addValue]
      exact agree_addValue v (.same role v) hb hb' hparent hparent'
    | long hwraps hv => exact agree_addValue_wrapped hwraps hv hb' hparent hparent'
    | tagged _ h =>
      rw [addValue, addValue]
      exact agree_addValue v h hb hb' hparent hparent'
  | .null, v', h, b, b', hb, hb', hparent, hparent'
  | .boolean _, v', h, b, b', hb, hb', hparent, hparent'
  | .integer _, v', h, b, b', hb, hb', hparent, hparent'
  | .float _, v', h, b, b', hb, hb', hparent, hparent'
  | .string _, v', h, b, b', hb, hb', hparent, hparent' => by
    cases h with
    | same => exact .ok (matches_add hparent hparent' name _).alike
    | long hwraps hv => exact agree_addValue_wrapped hwraps hv hb' hparent hparent'

theorem agree_addEntries {role : Role} {i i' : EntityId} : (entries : List (Value × Value)) →
    {entries' : List (Value × Value)} → LengthensEntries role entries entries' →
    {b b' : Builder} → b.Grown → b'.Grown → i < b.next → i' < b'.next → b.Matches b' role i i' →
    Agree (fun b₁ b₁' => b₁.Matches b₁' role i i') (addEntries i entries b)
      (addEntries i' entries' b')
  | [], entries', h, b, b', hb, hb', hi, hi', hmatch => by
    cases h
    exact .ok hmatch
  | (k, v) :: rest, entries', h, b, b', hb, hb', hi, hi', hmatch => by
    obtain ⟨v', rest', rfl, hv, hrest⟩ := h.of_cons
    rw [addEntries, addEntries]
    refine (Agree.of_eq rfl).bind fun name _ hname _ heq => ?_
    subst heq
    refine (agree_below (agree_addValue v (hv name hname) hb hb' hi hi') hb hb' hi hi'
      hmatch).bind fun b₁ b₁' _ _ h₁ => ?_
    obtain ⟨hgrows, hgrows', hmatch⟩ := h₁
    exact agree_addEntries rest hrest hgrows.1 hgrows'.1 (Nat.lt_of_lt_of_le hi hgrows.2)
      (Nat.lt_of_lt_of_le hi' hgrows'.2) hmatch

theorem agree_addItems {role : Role} {i i' : EntityId} : {index : Nat} → (items : List Value) →
    {items' : List Value} → LengthensItems role index items items' → {b b' : Builder} →
    b.Grown → b'.Grown → i < b.next → i' < b'.next → b.Matches b' role i i' →
    Agree (fun b₁ b₁' => b₁.Matches b₁' role i i') (addItems i index items b)
      (addItems i' index items' b')
  | _, [], items', h, b, b', hb, hb', hi, hi', hmatch => by
    cases h
    exact .ok hmatch
  | _, v :: rest, items', h, b, b', hb, hb', hi, hi', hmatch => by
    cases h with
    | cons hv hrest =>
      rw [addItems, addItems]
      refine (agree_below (agree_addValue v hv hb hb' hi hi') hb hb' hi hi' hmatch).bind
        fun b₁ b₁' _ _ h₁ => ?_
      obtain ⟨hgrows, hgrows', hmatch⟩ := h₁
      exact agree_addItems rest hrest hgrows.1 hgrows'.1 (Nat.lt_of_lt_of_le hi hgrows.2)
        (Nat.lt_of_lt_of_le hi' hgrows'.2) hmatch

end

/-! ### Documents -/

theorem mergeEntry_namespace {b : Builder} {k : Value} {name : String} {types : EntityId}
    (hk : keyName k = .ok name) (hname : isNamespace name)
    (htypes : b.child? root name = some types) (definitions : List (Value × Value)) :
    mergeEntry b (k, .mapping definitions) = addEntries types definitions b := by
  simp only [mergeEntry, hk, bind, Except.bind, hname, htypes]

theorem mergeEntry_other {b : Builder} {k v : Value} {name : String} (hk : keyName k = .ok name)
    (h : isNamespace name → b.child? root name ≠ none → ∀ definitions, v ≠ .mapping definitions) :
    mergeEntry b (k, v) = addValue root name v b := by
  simp only [mergeEntry, hk, bind, Except.bind]
  split
  case h_1 hname htypes => exact absurd rfl (h hname (by simp [htypes]) _)
  case h_2 => rfl

theorem longForms_child_document (name : String) :
    (Role.document.child name).longForms = [] := by
  rw [Role.child]
  split
  · rfl
  · split <;> rfl

theorem child_document_of_isNamespace {name : String} (h : isNamespace name) :
    Role.document.child name = .types := by
  have hne : name ≠ Key.components := by
    rintro rfl
    exact absurd h (by decide)
  rw [Role.child, if_neg hne, if_pos h]

section Merging
variable {b b' : Builder}

/-- Adding below a child of the root leaves the other children of the root alone. -/
theorem Extends.untouched_root {types : EntityId} {children : OrderedMap String EntityId}
    {b₁ : Builder} {name : String} (h : b.Extends types children b₁) (hb : b.Grown)
    (htypes : b.child? root name = some types) :
    Untouched b.entity b₁.entity fun j => root < j ∧ j < b.next ∧ j ≠ types where
  same j hj := ⟨(b.entity j).typeRef, h.rest j hj.2.1 hj.2.2⟩
  closed j hj key c hc := by
    obtain ⟨hlt, hnext, _, hparent⟩ := hb.child hc
    refine ⟨Nat.lt_trans hj.1 hlt, hnext, ?_⟩
    rintro rfl
    obtain ⟨_, _, _, hroot⟩ := hb.child (OrderedMap.get?_eq_some.mp htypes)
    rw [hparent] at hroot
    cases hroot
    exact absurd hj.1 (Nat.lt_irrefl _)

/-- Definitions that are added to a namespace of both readings. -/
theorem agree_addDefinitions {name : String} {types types' : EntityId}
    {definitions definitions' : List (Value × Value)} (hb : b.Grown) (hb' : b'.Grown)
    (hmatch : b.Matches b' .document root root) (hname : isNamespace name)
    (htypes : b.child? root name = some types) (htypes' : b'.child? root name = some types')
    (h : LengthensEntries .types definitions definitions') :
    Agree (fun b₁ b₁' => b₁.Matches b₁' .document root root) (addEntries types definitions b)
      (addEntries types' definitions' b') := by
  have hrole := child_document_of_isNamespace hname
  have halike := hmatch.children.values name types types' htypes htypes'
  rw [hrole] at halike
  obtain ⟨hlt, hnext, hkey, _⟩ := hb.child (OrderedMap.get?_eq_some.mp htypes)
  obtain ⟨hlt', hnext', hkey', _⟩ := hb'.child (OrderedMap.get?_eq_some.mp htypes')
  refine (agree_addEntries definitions h hb hb' hnext hnext' (halike.matches rfl)).imp
    fun b₁ b₁' h₁ h₁' hnew => ?_
  obtain ⟨_, hx⟩ := extends_addEntries definitions h₁ hb hnext
  obtain ⟨_, hx'⟩ := extends_addEntries definitions' h₁' hb' hnext'
  have hroot := hx.rest root hb.next_pos (Nat.ne_of_lt hlt)
  have hroot' := hx'.rest root hb'.next_pos (Nat.ne_of_lt hlt')
  refine ⟨by rw [hroot, hroot', hmatch.name], by rw [hroot, hroot', hmatch.value], ?_⟩
  rw [hroot, hroot']
  refine hmatch.children.imp fun key c c' hc hc' hcc => ?_
  by_cases hsame : key = name
  · subst hsame
    cases hc.symm.trans htypes
    cases hc'.symm.trans htypes'
    rw [hrole]
    exact hnew.alike
  · obtain ⟨hc₁, hc₂, hc₃, _⟩ := hb.child (OrderedMap.get?_eq_some.mp hc)
    obtain ⟨hc₁', hc₂', hc₃', _⟩ := hb'.child (OrderedMap.get?_eq_some.mp hc')
    refine hcc.of_untouched (hx.untouched_root hb htypes) (hx'.untouched_root hb' htypes')
      ⟨hc₁, hc₂, ?_⟩ ⟨hc₁', hc₂', ?_⟩
    · rintro rfl
      exact hsame (hc₃.symm.trans hkey)
    · rintro rfl
      exact hsame (hc₃'.symm.trans hkey')

theorem agree_mergeEntry {k v v' : Value} (hb : b.Grown) (hb' : b'.Grown)
    (hmatch : b.Matches b' .document root root)
    (hv : ∀ name, keyName k = .ok name → Lengthens (Role.document.child name) v v') :
    Agree (fun b₁ b₁' => b₁.Matches b₁' .document root root) (mergeEntry b (k, v))
      (mergeEntry b' (k, v')) := by
  cases hk : keyName k with
  | error e =>
    simp only [mergeEntry, hk]
    exact .error e
  | ok name =>
    have hv := hv name hk
    by_cases hmerge : isNamespace name ∧ b.child? root name ≠ none ∧
      ∃ definitions, v = .mapping definitions
    · obtain ⟨hname, htypes, definitions, rfl⟩ := hmerge
      obtain ⟨definitions', rfl, h⟩ := hv.of_mapping
      rw [child_document_of_isNamespace hname] at h
      obtain ⟨types, htypes⟩ := Option.ne_none_iff_exists'.mp htypes
      obtain ⟨types', htypes', _⟩ := hmatch.children.exists_of_get? htypes
      rw [mergeEntry_namespace hk hname htypes, mergeEntry_namespace hk hname htypes']
      exact agree_addDefinitions hb hb' hmatch hname htypes htypes' h
    · rw [mergeEntry_other hk fun hname htypes definitions hdefinitions =>
        hmerge ⟨hname, htypes, definitions, hdefinitions⟩, mergeEntry_other hk ?_]
      · exact (agree_below (agree_addValue v hv hb hb' hb.next_pos hb'.next_pos) hb hb' hb.next_pos
          hb'.next_pos hmatch).imp fun _ _ _ _ h₁ => h₁.2.2
      · rintro hname htypes definitions' rfl
        obtain ⟨definitions, rfl⟩ := hv.to_mapping (longForms_child_document name)
        exact hmerge ⟨hname, mt hmatch.children.get?_eq_none_iff.mp htypes, definitions, rfl⟩

theorem agree_mergeDocument : (entries : List (Value × Value)) → {entries' : List (Value × Value)} →
    LengthensEntries .document entries entries' → {b b' : Builder} → b.Grown → b'.Grown →
    b.Matches b' .document root root →
    Agree (fun b₁ b₁' => b₁.Matches b₁' .document root root) (b.mergeDocument entries)
      (b'.mergeDocument entries')
  | [], _, h, b, b', _, _, hmatch => by
    cases h
    exact .ok hmatch
  | (k, v) :: rest, _, h, b, b', hb, hb', hmatch => by
    obtain ⟨v', rest', rfl, hv, hrest⟩ := h.of_cons
    rw [mergeDocument, mergeDocument, List.foldlM_cons, List.foldlM_cons]
    refine (agree_mergeEntry hb hb' hmatch hv).bind fun b₁ b₁' h₁ h₁' hmatch => ?_
    exact agree_mergeDocument rest hrest (grows_mergeEntry h₁ hb).1 (grows_mergeEntry h₁' hb').1
      hmatch

end Merging

end Builder

theorem agree_topLevel {v v' : Value} (h : Lengthens .document v v') :
    Agree (LengthensEntries .document) (topLevel v) (topLevel v') := by
  cases h with
  | same =>
    cases v with
    | mapping entries => exact .ok (.refl entries)
    | null => exact .ok .nil
    | _ => exact .error _
  | long hwraps => cases hwraps
  | tagged => exact .error _
  | mapping h => exact .ok h
  | sequence => exact .error _

/-- Both readings of a document fail, for the same cause, or their entities match. -/
theorem agree_read {v v' : Value} (h : Lengthens .document v v') (builtIn : Bool) :
    Agree (fun g g' => ∃ b b' : Builder, b.Grown ∧ b'.Grown ∧ b.build = g ∧ b'.build = g' ∧
      b.Matches b' .document root root) (ofValue builtIn v) (ofValue builtIn v') := by
  have hstart : Builder.start.Matches .start .document root root := ⟨rfl, rfl, .empty⟩
  refine (Builder.agree_mergeDocument _ (.refl _) .start .start hstart).bind
    fun b₁ b₁' h₁ h₁' hmatch => ?_
  refine (agree_topLevel h).bind fun entries entries' _ _ hentries => ?_
  have hb₁ := (Builder.grows_mergeDocument h₁ .start).1
  have hb₁' := (Builder.grows_mergeDocument h₁' .start).1
  refine (Builder.agree_mergeDocument entries hentries hb₁ hb₁' hmatch).bind
    fun b b' h₂ h₂' hmatch => ?_
  exact .ok ⟨b, b', (Builder.grows_mergeDocument h₂ hb₁).1,
    (Builder.grows_mergeDocument h₂' hb₁').1, rfl, rfl, hmatch⟩

end Provision.EntityGraph
