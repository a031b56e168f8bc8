import Provision.Proofs.Entity.Whole

/-! Entries that are kept.

Keys of one mapping differ as values, but entities go by the texts of keys. Of several entries
whose keys have one text the last is kept, in the place of the first, and the others are lost
without a fault. This is the only way in which an entry is lost: a mapping has as many children
as it has entries exactly if its keys have different texts, as keys that are strings do. -/
namespace Provision

namespace Yaml.Value

/-! ### Keys of parts -/

theorem keysIn_untagged : (v : Value) → v.untagged.keysIn = v.keysIn
  | .tagged _ v => keysIn_untagged v
  | .null | .boolean _ | .integer _ | .float _ | .string _ | .sequence _ | .mapping _ => rfl

theorem mem_keysInEntries_of_mem {entries : List (Value × Value)} {k v : Value}
    (h : (k, v) ∈ entries) :
    k ∈ keysInEntries entries ∧ ∀ key ∈ v.keysIn, key ∈ keysInEntries entries := by
  induction entries with
  | nil => cases h
  | cons entry rest ih =>
    obtain ⟨k', v'⟩ := entry
    rw [keysInEntries]
    rcases List.mem_cons.mp h with heq | h
    · cases heq
      exact ⟨List.mem_cons_self, fun key hkey =>
        List.mem_cons_of_mem _ (List.mem_append_left _ hkey)⟩
    · exact ⟨List.mem_cons_of_mem _ (List.mem_append_right _ (ih h).1), fun key hkey =>
        List.mem_cons_of_mem _ (List.mem_append_right _ ((ih h).2 key hkey))⟩

theorem mem_keysInItems_of_mem {items : List Value} {v key : Value} (h : v ∈ items)
    (hkey : key ∈ v.keysIn) : key ∈ keysInItems items := by
  induction items with
  | nil => cases h
  | cons item rest ih =>
    rw [keysInItems]
    rcases List.mem_cons.mp h with rfl | h
    · exact List.mem_append_left _ hkey
    · exact List.mem_append_right _ (ih h)

theorem mem_keysIn_of_field : {v : Value} → {name : String} → {u key : Value} →
    (name, u) ∈ v.fields → key ∈ u.keysIn → key ∈ v.keysIn
  | .mapping entries, name, u, key, hu, hkey => by
    obtain ⟨k, hentry, _⟩ := entry_of_mem_named hu
    rw [keysIn]
    exact (mem_keysInEntries_of_mem hentry).2 key hkey
  | .sequence items, name, u, key, hu, hkey => by
    rw [keysIn]
    exact mem_keysInItems_of_mem (exists_item_of_mem_numbered hu) hkey
  | .tagged _ v, name, u, key, hu, hkey => by
    rw [keysIn]
    exact mem_keysIn_of_field (v := v) hu hkey
  | .null, _, _, _, hu, _ | .boolean _, _, _, _, hu, _ | .integer _, _, _, _, hu, _
  | .float _, _, _, _, hu, _ | .string _, _, _, _, hu, _ => by cases hu

/-- The keys of a part are keys of the value. -/
theorem mem_keysIn_of_at {v w key : Value} {path : List String} (h : v.At path w)
    (hkey : key ∈ w.keysIn) : key ∈ v.keysIn := by
  induction h with
  | here => exact hkey
  | field hu _ ih => exact mem_keysIn_of_field hu (ih hkey)

theorem isSome_text?_of_isName {k : Value} (h : k.isName) : k.text?.isSome := by
  cases k <;> first | rfl | cases h

/-- Where all keys have texts, each entry is under one. -/
theorem length_named {entries : List (Value × Value)} (h : ∀ e ∈ entries, e.1.text?.isSome) :
    (named entries).length = entries.length := by
  induction entries with
  | nil => rfl
  | cons entry rest ih =>
    obtain ⟨k, v⟩ := entry
    obtain ⟨hk, hrest⟩ := List.forall_mem_cons.mp h
    obtain ⟨name, hname⟩ := Option.isSome_iff_exists.mp hk
    rw [named_cons hname, List.length_cons, List.length_cons, ih hrest]

/-- Strings that differ have different texts. -/
theorem DistinctKeys.nodup_names {entries : List (Value × Value)} (h : DistinctKeys entries)
    (hkeys : ∀ e ∈ entries, ∃ s, e.1 = .string s) : ((named entries).map Prod.fst).Nodup := by
  induction entries with
  | nil => exact List.nodup_nil
  | cons entry rest ih =>
    obtain ⟨k, v⟩ := entry
    obtain ⟨⟨s, hs⟩, hrest⟩ := List.forall_mem_cons.mp hkeys
    obtain ⟨hfirst, hdistinct⟩ := List.pairwise_cons.mp h
    cases hs
    rw [named_cons rfl, List.map_cons, List.nodup_cons]
    refine ⟨fun hmem => ?_, ih hdistinct hrest⟩
    obtain ⟨⟨name, w⟩, hw, rfl⟩ := List.mem_map.mp hmem
    obtain ⟨k', hentry, htext⟩ := entry_of_mem_named hw
    obtain ⟨s', hs'⟩ := hrest _ hentry
    cases hs'
    cases htext
    have hdiffer := hfirst _ hentry
    simp [same] at hdiffer

end Yaml.Value

namespace EntityGraph
open Yaml (Value)
open Builder (isNamespace standing onTop)

/-! ### Keys of documents that are accepted -/

namespace Builder

theorem isName_of_keyName {k : Value} {name : String} (h : keyName k = .ok name) : k.isName := by
  have htext := text?_of_keyName h
  cases k <;> first | rfl | cases htext

theorem isName_of_refused {α : Type} {x : Except ModelFault α} {keys : List Value} {a : α}
    (h : Refused x keys) (hx : x = .ok a) : ∀ k ∈ keys, k.isName := by
  subst hx
  exact Value.firstUnnamed_eq_none.mp h.eq_none

theorem isName_of_mergeEntry {b b₁ : Builder} {k v : Value} (h : mergeEntry b (k, v) = .ok b₁) :
    k.isName ∧ ∀ key ∈ v.keysIn, key.isName := by
  obtain ⟨name, hk, h⟩ := bind_eq_ok.mp h
  refine ⟨isName_of_keyName hk, ?_⟩
  split at h
  case h_1 types definitions _ _ hv =>
    have hkeys := isName_of_refused (refused_addEntries definitions types b) h
    rw [show v = .mapping definitions from hv, Value.keysIn]
    exact hkeys
  case h_2 => exact isName_of_refused (refused_addValue v root name b) h

/-- All keys of a document that is accepted are names. -/
theorem isName_of_mergeDocument {entries : List (Value × Value)} {b b' : Builder}
    (h : b.mergeDocument entries = .ok b') : ∀ k ∈ Value.keysInEntries entries, k.isName := by
  induction entries generalizing b with
  | nil => exact fun _ hk => by cases hk
  | cons entry rest ih =>
    obtain ⟨k, v⟩ := entry
    rw [mergeDocument, List.foldlM_cons] at h
    obtain ⟨b₁, hentry, h⟩ := bind_eq_ok.mp h
    obtain ⟨hk, hv⟩ := isName_of_mergeEntry hentry
    rw [Value.keysInEntries, List.forall_mem_cons]
    refine ⟨hk, fun key hkey => ?_⟩
    rcases List.mem_append.mp hkey with hkey | hkey
    · exact hv key hkey
    · exact ih h key hkey

end Builder

/-! ### Mappings and their children -/

/-- The children of an entity are the entries of a mapping: one for each text of a key, in the
order in which the texts first occur, which depicts the last entry with this text. So none is
lost exactly if no two keys have one text. -/
structure Keeps (g : EntityGraph) (i : EntityId) (entries : List (Value × Value)) : Prop where
  names : (g.entity i).children.keys = ((Value.named entries).map Prod.fst).eraseDups
  child : ∀ name v, OrderedMap.lookup name (Value.named entries).reverse = some v →
    ∃ c, g.child? i name = some c ∧ Depicts g.entity c v
  count : (g.children i).length = entries.length ↔ ((Value.named entries).map Prod.fst).Nodup

theorem Depicts.keeps {g : EntityGraph} {i : EntityId} {v : Value} {entries : List (Value × Value)}
    (h : Depicts g.entity i v) (hv : v.untagged = .mapping entries)
    (hkeys : ∀ e ∈ entries, e.1.text?.isSome) : g.Keeps i entries := by
  have huntagged := h.untagged
  rw [hv] at huntagged
  have hshows := (depicts_mapping_iff.mp huntagged).2
  refine ⟨hshows.keys, fun name w hw => hshows.exists_child hw, ?_⟩
  have hchildren :
      (g.children i).length = ((Value.named entries).map Prod.fst).eraseDups.length := by
    rw [← hshows.keys, children, OrderedMap.values, OrderedMap.keys, List.length_map,
      List.length_map]
  rw [hchildren, ← Value.length_named hkeys, ← List.length_map Prod.fst,
    OrderedMap.length_eraseDups_eq_iff]

/-! ### Documents -/

theorem exists_space_of_isNamespace {name : String} (h : isNamespace name) :
    ∃ space : TypeSpace, name = space.key := by
  rw [isNamespace, Bool.or_eq_true, decide_eq_true_iff, decide_eq_true_iff] at h
  rcases h with rfl | rfl
  · exact ⟨.component, rfl⟩
  · exact ⟨.relation, rfl⟩

section Documents
variable {builtIn : Bool} {v : Value} {g : EntityGraph} {entries : List (Value × Value)}

theorem isName_of_ofValue (h : ofValue builtIn v = .ok g) (hentries : topLevel v = .ok entries) :
    ∀ k ∈ Value.keysInEntries entries, k.isName := by
  obtain ⟨b₁, _, h⟩ := bind_eq_ok.mp h
  obtain ⟨entries', hentries', h⟩ := bind_eq_ok.mp h
  obtain ⟨b, hb, _⟩ := bind_eq_ok.mp h
  cases hentries.symm.trans hentries'
  exact Builder.isName_of_mergeDocument hb

/-- The keys of a part have texts, also those of the built-in types with which it stands. -/
theorem isSome_text?_of_standsFor {name : String} {path : List String} {w : Value}
    {sub : List (Value × Value)} (hw : ∀ k ∈ w.keysIn, k.isName)
    (hsub : (standsFor builtIn name path w).untagged = .mapping sub) :
    ∀ e ∈ sub, e.1.text?.isSome := by
  have hplain {w : Value} {sub : List (Value × Value)} (hw : ∀ k ∈ w.keysIn, k.isName)
      (hsub : w.untagged = .mapping sub) : ∀ e ∈ sub, e.1.text?.isSome := by
    rw [← Value.keysIn_untagged, hsub, Value.keysIn] at hw
    exact fun e he => Value.isSome_text?_of_isName (hw _ (Value.mem_keysInEntries_of_mem he).1)
  unfold standsFor at hsub
  split at hsub
  case isFalse => exact hplain hw hsub
  case isTrue =>
    unfold standing at hsub
    split at hsub
    case h_2 => exact hplain hw hsub
    case h_1 types definitions _ hold =>
      obtain ⟨space, _, heq⟩ := exists_builtIn_of_lookup hold
      cases heq
      cases hsub
      intro e he
      rcases List.mem_append.mp he with he | he
      · obtain ⟨field, _, rfl⟩ := List.mem_map.mp he
        rfl
      · exact hplain hw rfl e he

/-- Definitions of types are found under the name of their namespace. -/
theorem under?_of_isNamespace (hdistinct : Value.DistinctKeys entries) {k u : Value} {name : String}
    (hname : isNamespace name) (he : (k, u) ∈ entries) (hk : k.text? = some name) :
    (Value.mapping entries).under? [name] = some u := by
  obtain ⟨space, rfl⟩ := exists_space_of_isNamespace hname
  have hgiven (k w : Value) (he : (k, w) ∈ entries) (hk : k.text? = some space.key) :
      w ∈ space.given entries :=
    List.mem_map.mpr ⟨(k, w), List.mem_filter.mpr ⟨he, by simpa using hk⟩, rfl⟩
  have hmem : (space.key, u) ∈ Value.named entries :=
    List.mem_filterMap.mpr ⟨(k, u), he, by simp [hk]⟩
  cases hlookup : OrderedMap.lookup space.key (Value.named entries).reverse with
  | none =>
    rw [OrderedMap.lookup_eq_none, List.map_reverse, List.mem_reverse] at hlookup
    exact absurd (List.mem_map_of_mem hmem) hlookup
  | some w =>
    obtain ⟨k', he', hk'⟩ := Value.entry_of_mem_named
      (List.mem_reverse.mp (OrderedMap.mem_of_lookup_eq_some hlookup))
    have hu := hgiven k u he hk
    have hw := hgiven k' w he' hk'
    rcases given_cases hdistinct space with hnone | ⟨only, honly⟩
    · rw [hnone] at hu
      cases hu
    · rw [honly, List.mem_singleton] at hu hw
      rw [Value.under?, show (Value.mapping entries).fields = Value.named entries from rfl, hlookup,
        hu, hw]
      rfl

/-- Every part of a document has an entity that keeps what it stands for. -/
theorem exists_keeps (h : ofValue builtIn v = .ok g) (hentries : topLevel v = .ok entries)
    (hdistinct : Value.DistinctKeys entries) {k u w : Value} {name : String} {path : List String}
    (he : (k, u) ∈ entries) (hk : k.text? = some name) (hw : u.At path w) :
    ∃ i, Depicts g.entity i (standsFor builtIn name path w) ∧
      ∀ sub, (standsFor builtIn name path w).untagged = .mapping sub → g.Keeps i sub := by
  have hnames : ∀ key ∈ w.keysIn, key.isName := fun key hkey =>
    isName_of_ofValue h hentries key
      ((Value.mem_keysInEntries_of_mem he).2 key (Value.mem_keysIn_of_at hw hkey))
  obtain ⟨i, hi⟩ : ∃ i, Depicts g.entity i (standsFor builtIn name path w) := by
    by_cases hwhole : isNamespace name ∧ path = []
    · obtain ⟨hname, rfl⟩ := hwhole
      cases hw
      obtain ⟨i, _, hi⟩ := exists_descend?_of_under? (shows_of_ofValue h hentries hdistinct)
        hdistinct (under?_of_isNamespace hdistinct hname he hk)
      exact ⟨i, hi⟩
    · have hself : standsFor builtIn name path w = w := by
        cases path with
        | nil => exact standsFor_of_not (by simpa using hwhole) builtIn [] w
        | cons next path => rfl
      rw [hself]
      exact exists_depicts_of_ofValue h hentries hdistinct he hk
        (fun hname hpath => hwhole ⟨hname, hpath⟩) hw
  exact ⟨i, hi, fun sub hsub => hi.keeps hsub (isSome_text?_of_standsFor hnames hsub)⟩

end Documents

/-- A document whose keys are all strings has no names that lead to several parts. -/
theorem unambiguous_of_strings {v : Value} (h : v.AllRead)
    (hkeys : ∀ path w entries, v.At path w → w.untagged = .mapping entries →
      ∀ e ∈ entries, ∃ s, e.1 = .string s) : v.Unambiguous := by
  intro path w hw
  rw [← Value.fields_untagged]
  cases huntagged : w.untagged with
  | mapping entries =>
    exact ((h path w hw).keys entries huntagged).nodup_names (hkeys path w entries hw huntagged)
  | sequence items => exact Value.nodup_numbered items
  | tagged tag u => exact absurd huntagged (w.untagged_ne_tagged tag u)
  | _ => exact List.nodup_nil

/-- **A mapping loses an entry exactly if two of its keys have one text.** Keys that differ as
values may have one text, such as `1` and `"1"`; then the last entry is there instead of the
others. Otherwise, and always if the keys are strings, the entity of a mapping has a child for
each entry. So in a document where no mapping has two keys of one text, every part is found under
the names that lead to it. This holds of every part of a document that is accepted, however deep
it is; only the definitions of types at its top stand together with the built-in ones. -/
theorem entries_kept {origin text : String} {builtIn : Bool} {g : EntityGraph}
    (h : parse builtIn origin text = .ok g) :
    ∃ v entries, Value.parse text = .ok v ∧ topLevel v = .ok entries ∧
      (∀ k u name, (k, u) ∈ entries → k.text? = some name → ∀ path w, u.At path w →
        ∃ i, Depicts g.entity i (standsFor builtIn name path w) ∧
          ∀ sub, (standsFor builtIn name path w).untagged = .mapping sub → g.Keeps i sub) ∧
      ((Value.mapping entries).Unambiguous →
        ∀ name path w, (Value.mapping entries).At (name :: path) w →
          ∃ i, g.descend? root (name :: path) = some i ∧
            Depicts g.entity i (standsFor builtIn name path w)) ∧
      ((∀ path w sub, (Value.mapping entries).At path w → w.untagged = .mapping sub →
        ∀ e ∈ sub, ∃ s, e.1 = .string s) → (Value.mapping entries).Unambiguous) := by
  obtain ⟨v, entries, hv, hread⟩ := exists_readFrom h
  refine ⟨v, entries, hv, hread.top, fun k u name he hk path w hw => ?_,
    fun hunambiguous name path w hw => ?_, unambiguous_of_strings hread.read⟩
  · exact exists_keeps hread.built hread.top hread.distinct he hk hw
  · exact exists_descend?_of_under? hread.shows hread.distinct (hunambiguous.under?_eq hw)

/-- A document that declares a type and two components. -/
def twoText : String :=
  "component_types:\n  base:\ncomponents:\n  one:\n    type: base\n  two:\n    type: base\n"

/-- The same with components that have the names `1` and `"1"`. -/
def shadowedText : String :=
  "component_types:\n  base:\ncomponents:\n  1:\n    type: base\n  \"1\":\n    type: base\n"

def baseComponent : Value := BuiltIn.mapping [(Key.type, .string "base")]

def twoComponents (first second : Value) : List (Value × Value) :=
  [(first, baseComponent), (second, baseComponent)]

def twoEntries (first second : Value) : List (Value × Value) :=
  BuiltIn.entries [(Key.componentTypes, BuiltIn.mapping [("base", .null)]),
    (Key.components, .mapping (twoComponents first second))]

theorem parse_twoText : Value.parse twoText =
    .ok (.mapping (twoEntries (.string "one") (.string "two"))) :=
  Value.parse_eq_ok (by decide +kernel)

theorem parse_shadowedText : Value.parse shadowedText =
    .ok (.mapping (twoEntries (.integer 1) (.string "1"))) :=
  Value.parse_eq_ok (by decide +kernel)

theorem entries_kept_two : ∃ g i, parse false "two.yaml" twoText = .ok g ∧
    g.Keeps i (twoComponents (.string "one") (.string "two")) ∧ (g.children i).length = 2 := by
  have hread : (parse false "two.yaml" twoText).map EntityGraph.size = .ok 8 := by
    decide +kernel
  obtain ⟨g, hg, _⟩ := map_eq_ok.mp hread
  obtain ⟨v, entries, hv, hentries, hkeeps, _, _⟩ := entries_kept hg
  cases hv.symm.trans parse_twoText
  cases hentries
  obtain ⟨i, _, hi⟩ := hkeeps (.string Key.components)
    (.mapping (twoComponents (.string "one") (.string "two"))) Key.components
    (List.mem_of_getElem? (i := 1) rfl) rfl [] _ .here
  have hi := hi _ rfl
  exact ⟨g, i, hg, hi, hi.count.mpr (by decide)⟩

/-- Two components become one, and the document is accepted. -/
theorem shadowed_entry_lost : ∃ g i, parse false "shadowed.yaml" shadowedText = .ok g ∧
    Value.parse shadowedText = .ok (.mapping (twoEntries (.integer 1) (.string "1"))) ∧
    g.child? root Key.components = some i ∧
    Depicts g.entity i (.mapping (twoComponents (.integer 1) (.string "1"))) ∧
    (g.children i).length = 1 := by
  have hone : (parse false "shadowed.yaml" shadowedText).map (fun g =>
      (g.descend? root [Key.components]).map fun i => (g.children i).length) = .ok (some 1) := by
    decide +kernel
  obtain ⟨g, hg, hone⟩ := map_eq_ok.mp hone
  obtain ⟨i, hi, hlength⟩ := Option.map_eq_some_iff.mp hone
  obtain ⟨v, entries, hv, hread⟩ := exists_readFrom hg
  cases hv.symm.trans parse_shadowedText
  cases hread.top
  have hrel := rel_descend?_under? hread.shows hread.distinct
    (show isNamespace Key.components = false from rfl) []
  rw [hi] at hrel
  have hchild : g.child? root Key.components = some i := by
    simpa [descend?] using hi
  cases hrel with
  | some hdepicts => exact ⟨g, i, hg, parse_shadowedText, hchild, hdepicts, hlength⟩

end EntityGraph
end Provision
