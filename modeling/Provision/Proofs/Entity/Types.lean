import Provision.Proofs.Entity.Exact

/-! The types that a document leaves.

The built-in types are read first and stand in two namespaces. What a document gives for a
namespace joins the types that are there if it is a mapping. Anything else takes their place: a
namespace without content, a list, and also a mapping with a tag. So the built-in types are there
for every document that declares its types in mappings or not at all, and for no other one,
while all types that a document declares are found as it declares them. -/
namespace Provision
open Yaml (Value)

namespace Yaml.Value

/-- What a value has under names. -/
def fields : Value → List (String × Value)
  | .mapping entries => named entries
  | .sequence items => numbered 0 items
  | .tagged _ v => v.fields
  | _ => []

/-- Entries whose keys are strings have these as names. -/
theorem named_entries (fields : List (String × Value)) :
    named (BuiltIn.entries fields) = fields := by
  induction fields with
  | nil => rfl
  | cons field rest ih => rw [BuiltIn.entries, List.map_cons, named_cons rfl, ← BuiltIn.entries, ih]

end Yaml.Value

/-! ### Namespaces of types -/

/-- The namespaces of types. -/
inductive TypeSpace where
  | component
  | relation

namespace TypeSpace

/-- The name that a document gives the namespace. -/
def key : TypeSpace → String
  | .component => Key.componentTypes
  | .relation => Key.relationTypes

def builtIn : TypeSpace → List (String × Value)
  | .component => BuiltIn.componentTypes
  | .relation => BuiltIn.relationTypes

/-- A type of the namespace. -/
def find? (space : TypeSpace) (g : EntityGraph) (name : String) : Option EntityId :=
  match space with
  | .component => g.componentType? name
  | .relation => g.relationType? name

/-- What a document gives for the namespace. -/
def given (space : TypeSpace) (entries : List (Value × Value)) : List Value :=
  (entries.filter fun e => e.1.text? = some space.key).map Prod.snd

/-- The types that a document declares in the namespace. -/
def declared (space : TypeSpace) (entries : List (Value × Value)) : List (String × Value) :=
  (space.given entries).flatMap Value.fields

/-- Whether all that a document gives for the namespace, if anything, is a mapping without tag. -/
def Joins (space : TypeSpace) (entries : List (Value × Value)) : Prop :=
  ∀ v ∈ space.given entries, ∃ definitions, v = .mapping definitions

/-- The types of the namespace after what a document gives for it. -/
def joined (types : List (String × Value)) : Value → List (String × Value)
  | .mapping definitions => types ++ Value.named definitions
  | v => v.fields

section
variable {space : TypeSpace} {k : Value}

theorem given_cons_own (hk : k.text? = some space.key) (v : Value) (rest : List (Value × Value)) :
    space.given ((k, v) :: rest) = v :: space.given rest := by
  rw [given, List.filter_cons_of_pos (by simpa using hk)]
  rfl

theorem given_cons_other (hk : k.text? ≠ some space.key) (v : Value)
    (rest : List (Value × Value)) : space.given ((k, v) :: rest) = space.given rest := by
  rw [given, List.filter_cons_of_neg (by simpa using hk)]
  rfl

end

theorem lookup_builtIn (space : TypeSpace) {name : String} {definition : Value}
    (h : (name, definition) ∈ space.builtIn) :
    OrderedMap.lookup name space.builtIn.reverse = some definition := by
  have hnodup : (space.builtIn.reverse.map Prod.fst).Nodup := by cases space <;> decide
  exact (OrderedMap.lookup_eq_some hnodup).mpr (List.mem_reverse.mpr h)

theorem isNamespace_key (space : TypeSpace) : EntityGraph.Builder.isNamespace space.key := by
  cases space <;> decide

end TypeSpace

namespace EntityGraph
open Builder (leafValue)

theorem fields_of_isScalar {v : Value} (h : v.isScalar) : v.fields = [] := by
  induction v using Builder.leafValue.induct with
  | case1 tag v ih => exact ih h
  | case2 v htag =>
    cases v with
    | sequence => cases h
    | mapping => cases h
    | tagged tag v => exact absurd rfl (htag tag v)
    | _ => rfl

/-- The children of an entity depict what its value has under names. -/
theorem Depicts.shows {e : EntityId → Entity} {i : EntityId} {v : Value} (h : Depicts e i v) :
    Shows e i v.fields := by
  induction h with
  | mapping hvalue hkeys hchild => exact shows_iff.mpr ⟨hkeys, hchild⟩
  | sequence hvalue hkeys hchild =>
    exact (depicts_sequence_iff.mp (.sequence hvalue hkeys hchild)).2
  | leaf hv _ hchildren =>
    rw [fields_of_isScalar hv, shows_iff]
    refine ⟨congrArg (List.map Prod.fst) hchildren, fun name c v hc => ?_⟩
    rw [OrderedMap.get?_of_toList_eq_nil hchildren] at hc
    cases hc
  | tagged _ ih => exact ih

namespace Builder

/-- A namespace has types. -/
def Offers (b : Builder) (space : TypeSpace) (types : List (String × Value)) : Prop :=
  ∃ t, b.child? root space.key = some t ∧ Shows b.entity t types

section Offers
variable {b b₁ : Builder} {space : TypeSpace} {types : List (String × Value)}

/-- What a document gives for the namespace itself. -/
theorem Offers.own {k v : Value} (h : b.Offers space types) (hb : b.Grown)
    (hk : keyName k = .ok space.key) (hmerge : mergeEntry b (k, v) = .ok b₁) :
    b₁.Offers space (TypeSpace.joined types v) := by
  obtain ⟨t, ht, hshows⟩ := h
  unfold TypeSpace.joined
  split
  case h_1 definitions =>
    obtain ⟨hlt, hnext, _⟩ := hb.child (OrderedMap.get?_eq_some.mp ht)
    rw [mergeEntry_namespace hk space.isNamespace_key ht] at hmerge
    obtain ⟨_, hx⟩ := extends_addEntries definitions hmerge hb hnext
    refine ⟨t, ?_, shows_addEntries definitions hmerge hb hnext hshows⟩
    rw [child?, hx.rest root hb.next_pos (Nat.ne_of_lt hlt)]
    exact ht
  case h_2 hmapping =>
    rw [mergeEntry_other hk fun _ _ definitions => hmapping definitions] at hmerge
    have hx := extends_addValue v hmerge hb hb.next_pos
    refine ⟨b.next, ?_, (depicts_addValue v hmerge hb hb.next_pos).shows⟩
    rw [child?, hx.above, OrderedMap.get?_insert, if_pos rfl]

/-- What a document gives under another name. -/
theorem Offers.other {k v : Value} {name : String} (h : b.Offers space types) (hb : b.Grown)
    (hk : keyName k = .ok name) (hname : name ≠ space.key)
    (hmerge : mergeEntry b (k, v) = .ok b₁) : b₁.Offers space types := by
  obtain ⟨t, ht, hshows⟩ := h
  obtain ⟨hlt, hnext, htname, _⟩ := hb.child (OrderedMap.get?_eq_some.mp ht)
  by_cases hjoins : isNamespace name ∧ b.child? root name ≠ none ∧
    ∃ definitions, v = .mapping definitions
  · obtain ⟨hspace, hold, definitions, rfl⟩ := hjoins
    obtain ⟨t', ht'⟩ := Option.ne_none_iff_exists'.mp hold
    obtain ⟨hlt', hnext', htname', _⟩ := hb.child (OrderedMap.get?_eq_some.mp ht')
    have hne : t ≠ t' := fun h => hname (htname'.symm.trans (h ▸ htname))
    rw [mergeEntry_namespace hk hspace ht'] at hmerge
    obtain ⟨_, hx⟩ := extends_addEntries definitions hmerge hb hnext'
    refine ⟨t, ?_, hshows.of_untouched (hx.untouched_root hb ht') ⟨hlt, hnext, hne⟩⟩
    rw [child?, hx.rest root hb.next_pos (Nat.ne_of_lt hlt')]
    exact ht
  · rw [mergeEntry_other hk fun hspace hold definitions hv =>
      hjoins ⟨hspace, hold, definitions, hv⟩] at hmerge
    have hx := extends_addValue v hmerge hb hb.next_pos
    refine ⟨t, ?_, hshows.of_untouched (hx.untouched hb) ⟨hlt, hnext⟩⟩
    rw [child?, hx.above, OrderedMap.get?_insert, if_neg hname]
    exact ht

theorem Offers.mergeDocument {entries : List (Value × Value)} (h : b.Offers space types)
    (hb : b.Grown) (hmerge : b.mergeDocument entries = .ok b₁) :
    b₁.Offers space ((space.given entries).foldl TypeSpace.joined types) := by
  induction entries generalizing b types with
  | nil =>
    cases hmerge
    exact h
  | cons entry rest ih =>
    obtain ⟨k, v⟩ := entry
    rw [Builder.mergeDocument, List.foldlM_cons] at hmerge
    obtain ⟨b₂, hentry, hmerge⟩ := bind_eq_ok.mp hmerge
    obtain ⟨name, hk, _⟩ := bind_eq_ok.mp hentry
    have htext := text?_of_keyName hk
    have hgrown := (grows_mergeEntry hentry hb).1
    by_cases hname : name = space.key
    · subst hname
      rw [TypeSpace.given_cons_own htext, List.foldl_cons]
      exact ih (h.own hb hk hentry) hgrown hmerge
    · rw [TypeSpace.given_cons_other (by simpa [htext] using hname)]
      exact ih (h.other hb hk hname hentry) hgrown hmerge

end Offers

/-- The built-in types are read as they are. -/
theorem offers_builtIn {b : Builder} (h : Builder.start.mergeDocument BuiltIn.document = .ok b)
    (space : TypeSpace) : b.Offers space space.builtIn := by
  have hdistinct : Value.DistinctKeys BuiltIn.document := by
    unfold Value.DistinctKeys
    decide
  rw [mergeDocument_eq_addEntries hdistinct .start fun _ _ hold => absurd rfl hold] at h
  have hshows := shows_addEntries BuiltIn.document h .start (Grown.start).next_pos shows_start
  have hlookup : OrderedMap.lookup space.key ([] ++ Value.named BuiltIn.document).reverse =
      some (BuiltIn.mapping space.builtIn) := by
    cases space <;> rfl
  obtain ⟨t, ht, hdepicts⟩ := hshows.exists_child hlookup
  have htypes := (depicts_mapping_iff.mp hdepicts).2
  rw [Value.named_entries] at htypes
  exact ⟨t, ht, htypes⟩

/-- The types of a finished graph are the children of the namespace. -/
theorem find?_build {b : Builder} {space : TypeSpace} {p : EntityId}
    (hp : b.child? root space.key = some p) (name : String) :
    space.find? b.build name = (b.entity p).children.get? name := by
  have hindex : b.namespaceIndex space.key = (b.entity p).children := by
    simp only [namespaceIndex, hp]
  rw [← hindex]
  cases space <;> rfl

/-- A type that is found stands below its namespace. -/
theorem exists_namespace_of_find? {b : Builder} {space : TypeSpace} {name : String} {t : EntityId}
    (h : space.find? b.build name = some t) :
    ∃ p, b.child? root space.key = some p ∧ (b.entity p).children.get? name = some t := by
  cases hp : b.child? root space.key with
  | none =>
    have hindex : b.namespaceIndex space.key = .empty := by simp only [namespaceIndex, hp]
    have hfind : space.find? b.build name = (b.namespaceIndex space.key).get? name := by
      cases space <;> rfl
    rw [hfind, hindex] at h
    cases h
  | some p => exact ⟨p, rfl, (find?_build hp name).symm.trans h⟩

/-- A finished graph has the types of its namespaces. -/
theorem Offers.find? {b : Builder} {space : TypeSpace} {types : List (String × Value)}
    (h : b.Offers space types) (name : String) :
    (∀ definition, OrderedMap.lookup name types.reverse = some definition →
      ∃ t, space.find? b.build name = some t ∧ Depicts b.build.entity t definition) ∧
    (name ∉ types.map Prod.fst → space.find? b.build name = none) := by
  obtain ⟨p, hp, hshows⟩ := h
  rw [find?_build hp]
  constructor
  · intro definition hdefinition
    obtain ⟨c, hc, hdepicts⟩ := hshows.exists_child hdefinition
    exact ⟨c, hc, hdepicts.of_untouched b.untouched_build trivial⟩
  · exact hshows.child_eq_none

/-- With the built-in types, a document is read on top of them. -/
theorem exists_offers_of_ofValue {v : Value} {g : EntityGraph} (h : ofValue true v = .ok g) :
    ∃ (b : Builder) (entries : List (Value × Value)), b.Grown ∧ b.build = g ∧
      topLevel v = .ok entries ∧
      ∀ space, b.Offers space ((space.given entries).foldl TypeSpace.joined space.builtIn) := by
  obtain ⟨b₁, hstart, h⟩ := bind_eq_ok.mp h
  obtain ⟨entries, hentries, h⟩ := bind_eq_ok.mp h
  obtain ⟨b, hb, h⟩ := bind_eq_ok.mp h
  cases h
  have hgrown := (grows_mergeDocument hstart .start).1
  exact ⟨b, entries, (grows_mergeDocument hb hgrown).1, rfl, hentries,
    fun space => (offers_builtIn hstart space).mergeDocument hgrown hb⟩

end Builder

/-! ### What a document leaves -/

/-- Mappings join the types that are there. -/
theorem foldl_joined {values : List Value}
    (h : ∀ v ∈ values, ∃ definitions, v = .mapping definitions) (types : List (String × Value)) :
    values.foldl TypeSpace.joined types = types ++ values.flatMap Value.fields := by
  induction values generalizing types with
  | nil => exact (List.append_nil types).symm
  | cons v rest ih =>
    obtain ⟨definitions, rfl⟩ := h v List.mem_cons_self
    rw [List.foldl_cons, ih fun v hv => h v (List.mem_cons_of_mem _ hv), List.flatMap_cons,
      ← List.append_assoc]
    rfl

/-- A document that is read gives at most one value for a namespace. -/
theorem given_cases {entries : List (Value × Value)} (h : Value.DistinctKeys entries)
    (space : TypeSpace) : space.given entries = [] ∨ ∃ v, space.given entries = [v] := by
  have hpairwise := (h.pairwise_text?
    (Builder.underscore_mem_of_isNamespace space.isNamespace_key)).filter
      fun e => e.1.text? = some space.key
  have hkey : ∀ e ∈ entries.filter fun e => e.1.text? = some space.key,
      e.1.text? = some space.key := fun e he => by simpa using (List.mem_filter.mp he).2
  unfold TypeSpace.given
  generalize entries.filter _ = given at hpairwise hkey ⊢
  cases given with
  | nil => exact .inl rfl
  | cons e rest =>
    cases rest with
    | nil => exact .inr ⟨e.2, rfl⟩
    | cons e' rest =>
      exact absurd ⟨hkey e (by simp), hkey e' (by simp)⟩
        (List.rel_of_pairwise_cons hpairwise List.mem_cons_self)

/-- If what is given for a namespace does not join the types there, it takes their place. -/
theorem foldl_joined_of_not {entries : List (Value × Value)} (h : Value.DistinctKeys entries)
    {space : TypeSpace} (hjoins : ¬ space.Joins entries) (types : List (String × Value)) :
    (space.given entries).foldl TypeSpace.joined types = space.declared entries := by
  rcases given_cases h space with hgiven | ⟨v, hgiven⟩
  · rw [TypeSpace.Joins, hgiven] at hjoins
    exact absurd (fun v hv => absurd hv List.not_mem_nil) hjoins
  · rw [TypeSpace.Joins, hgiven] at hjoins
    rw [TypeSpace.declared, hgiven, List.foldl_cons, List.foldl_nil, List.flatMap_singleton]
    unfold TypeSpace.joined
    split
    case h_1 definitions =>
      exact absurd (fun w hw => ⟨definitions, List.mem_singleton.mp hw⟩) hjoins
    case h_2 => rfl

theorem distinctKeys_of_topLevel {text : String} {v : Value} {entries : List (Value × Value)}
    (hv : Value.parse text = .ok v) (h : topLevel v = .ok entries) :
    Value.DistinctKeys entries := by
  cases v with
  | mapping => exact Except.ok.inj h ▸ Value.distinctKeys_of_parse hv
  | null => exact Except.ok.inj h ▸ .nil
  | _ => cases h

/-- **A document has the types that it declares, and the built-in types besides if it declares
its own in mappings or not at all.** Every type is found as it is declared last, and every other
built-in type with its own definition. If a document gives anything but a mapping without tag for
a namespace, no other built-in type of the namespace is left. -/
theorem types_of_parse {origin text : String} {g : EntityGraph}
    (h : parse true origin text = .ok g) :
    ∃ v entries, Value.parse text = .ok v ∧ topLevel v = .ok entries ∧ ∀ space : TypeSpace,
      (∀ name definition,
        OrderedMap.lookup name (space.declared entries).reverse = some definition →
          ∃ t, space.find? g name = some t ∧ Depicts g.entity t definition) ∧
      (∀ name definition, (name, definition) ∈ space.builtIn →
        name ∉ (space.declared entries).map Prod.fst →
          (space.Joins entries →
            ∃ t, space.find? g name = some t ∧ Depicts g.entity t definition) ∧
          (¬ space.Joins entries → space.find? g name = none)) ∧
      ∀ name, name ∉ (space.declared entries).map Prod.fst → name ∉ space.builtIn.map Prod.fst →
        space.find? g name = none := by
  unfold parse at h
  split at h
  case h_1 => cases h
  case h_2 v hv =>
    obtain ⟨b, entries, _, rfl, hentries, hoffers⟩ :=
      Builder.exists_offers_of_ofValue (mapError_eq_ok.mp h)
    have hdistinct := distinctKeys_of_topLevel hv hentries
    refine ⟨v, entries, hv, hentries, fun space => ?_⟩
    have hfind := (hoffers space).find?
    by_cases hjoins : space.Joins entries
    · rw [foldl_joined hjoins, ← TypeSpace.declared] at hfind
      simp only [List.reverse_append, List.map_append, List.mem_append, not_or,
        OrderedMap.lookup_append] at hfind
      refine ⟨fun name definition hdefinition => (hfind name).1 definition ?_,
        fun name definition hbuiltIn hname => ⟨fun _ => (hfind name).1 definition ?_,
          fun hnot => absurd hjoins hnot⟩,
        fun name hname hbuiltIn => (hfind name).2 ⟨hbuiltIn, hname⟩⟩
      · rw [hdefinition, Option.some_or]
      · rw [OrderedMap.lookup_eq_none.mpr (by rwa [List.map_reverse, List.mem_reverse]),
          Option.none_or]
        exact space.lookup_builtIn hbuiltIn
    · rw [foldl_joined_of_not hdistinct hjoins] at hfind
      exact ⟨fun name definition => (hfind name).1 definition,
        fun name definition _ hname => ⟨fun h => absurd h hjoins, fun _ => (hfind name).2 hname⟩,
        fun name hname _ => (hfind name).2 hname⟩

/-- A document with a type of its own. -/
def extendedText : String := "component_types:\n  app_database:\n    extends: mysql_database\n"

def extendedEntries : List (Value × Value) :=
  BuiltIn.entries [(Key.componentTypes, BuiltIn.mapping
    [("app_database", BuiltIn.mapping [BuiltIn.refining "mysql_database"])])]

theorem parse_extendedText : Value.parse extendedText = .ok (.mapping extendedEntries) :=
  Value.parse_eq_ok (by decide +kernel)

theorem types_of_parse_extended : ∃ g t t', parse true "extended.yaml" extendedText = .ok g ∧
    g.componentType? "app_database" = some t ∧
    Depicts g.entity t (BuiltIn.mapping [BuiltIn.refining "mysql_database"]) ∧
    g.componentType? "mysql_database" = some t' ∧
    Depicts g.entity t' (BuiltIn.mapping [BuiltIn.refining "database"]) := by
  have hread : (parse true "extended.yaml" extendedText).map EntityGraph.size = .ok 72 := by
    decide +kernel
  obtain ⟨g, hg, _⟩ := map_eq_ok.mp hread
  obtain ⟨v, entries, hv, hentries, htypes⟩ := types_of_parse hg
  cases hv.symm.trans parse_extendedText
  cases hentries
  obtain ⟨hown, hbuiltIn, _⟩ := htypes .component
  obtain ⟨t, ht, hdepicts⟩ := hown "app_database" _ rfl
  obtain ⟨t', ht', hdepicts'⟩ := (hbuiltIn "mysql_database" _
    (List.mem_of_getElem? (i := 6) rfl) (by decide)).1 fun v hv =>
      ⟨_, List.mem_singleton.mp hv⟩
  exact ⟨g, t, t', hg, ht, hdepicts, ht', hdepicts'⟩

/-- A document that names the component types without giving any. -/
def emptiedText : String := "component_types:\ncomponents:\n  vm:\n    type: compute\n"

def emptiedEntries : List (Value × Value) :=
  BuiltIn.entries [(Key.componentTypes, .null),
    (Key.components, BuiltIn.mapping
      [("vm", BuiltIn.mapping [(Key.type, .string "compute")])])]

/-- The document is read and declares no types, but the built-in ones are not found. -/
theorem emptied_types_lost : Value.parse emptiedText = .ok (.mapping emptiedEntries) ∧
    TypeSpace.component.declared emptiedEntries = [] ∧
    "compute" ∈ TypeSpace.component.builtIn.map Prod.fst ∧
    ∃ g, parse true "emptied.yaml" emptiedText = .ok g ∧ g.componentType? "compute" = none := by
  have hread : (parse true "emptied.yaml" emptiedText).map (fun g => g.componentType? "compute") =
      .ok none := by
    decide +kernel
  exact ⟨Value.parse_eq_ok (by decide +kernel), rfl, by decide, map_eq_ok.mp hread⟩

end EntityGraph
end Provision
