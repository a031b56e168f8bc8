import Provision.Proofs.Entity.Parts

/-! The document that a graph depicts.

A document is read on top of what is there: its definitions of types join the types, and every
other entry of the top takes the place of what had its name. So the entities below the root
depict one list of fields, those of the document together with those of the built-in types. Under
a name that is not one of the namespaces of types these are the document's own. -/
namespace Provision.EntityGraph
open Yaml (Value)

namespace Builder

/-! ### Entries on top of fields -/

/-- What a value for a name stands for on top of fields that are there. -/
def standing (fields : List (String × Value)) (name : String) (v : Value) : Value :=
  match isNamespace name, OrderedMap.lookup name fields.reverse, v with
  | true, some (.mapping types), .mapping definitions => .mapping (types ++ definitions)
  | _, _, v => v

def putOnTop (fields : List (String × Value)) (field : String × Value) : List (String × Value) :=
  fields ++ [(field.1, standing fields field.1 field.2)]

/-- The fields that a document leaves on top of those that are there. -/
def onTop (fields : List (String × Value)) (entries : List (Value × Value)) :
    List (String × Value) :=
  (Value.named entries).foldl putOnTop fields

section
variable {fields : List (String × Value)} {name : String}

theorem standing_of_not (h : isNamespace name = false) (v : Value) :
    standing fields name v = v := by
  unfold standing
  rw [h]

theorem standing_of_eq_none (h : OrderedMap.lookup name fields.reverse = none) (v : Value) :
    standing fields name v = v := by
  unfold standing
  rw [h]
  cases isNamespace name <;> rfl

theorem standing_of_ne_mapping {v : Value} (h : ∀ definitions, v ≠ .mapping definitions) :
    standing fields name v = v := by
  unfold standing
  split
  case h_1 definitions _ _ => exact absurd rfl (h definitions)
  case h_2 => rfl

theorem standing_mapping {types : List (Value × Value)} (hname : isNamespace name)
    (h : OrderedMap.lookup name fields.reverse = some (.mapping types))
    (definitions : List (Value × Value)) :
    standing fields name (.mapping definitions) = .mapping (types ++ definitions) := by
  unfold standing
  rw [hname, h]

theorem standing_congr {fields' : List (String × Value)}
    (h : OrderedMap.lookup name fields.reverse = OrderedMap.lookup name fields'.reverse)
    (v : Value) : standing fields name v = standing fields' name v := by
  unfold standing
  rw [h]

theorem lookup_concat (other : String) (v : Value) :
    OrderedMap.lookup name (fields ++ [(other, v)]).reverse =
      if other = name then some v else OrderedMap.lookup name fields.reverse := by
  rw [← OrderedMap.get?_ofList, OrderedMap.ofList_concat, OrderedMap.get?_insert,
    OrderedMap.get?_ofList]

theorem lookup_reverse_cons (other : String) (v : Value) (rest : List (String × Value)) :
    OrderedMap.lookup name ((other, v) :: rest).reverse =
      (OrderedMap.lookup name rest.reverse).or (if other = name then some v else none) := by
  rw [List.reverse_cons, OrderedMap.lookup_append]
  rfl

/-- What a name leads to on top of fields: what the last entry for it stands for, else what was
there. -/
theorem lookup_foldl_putOnTop {l : List (String × Value)}
    (hl : isNamespace name → l.Pairwise fun a b => ¬ (a.1 = name ∧ b.1 = name)) :
    OrderedMap.lookup name (l.foldl putOnTop fields).reverse =
      ((OrderedMap.lookup name l.reverse).map (standing fields name)).or
        (OrderedMap.lookup name fields.reverse) := by
  induction l generalizing fields with
  | nil => rfl
  | cons field rest ih =>
    obtain ⟨other, v⟩ := field
    have hfirst (w : Value) (hw : OrderedMap.lookup name rest.reverse = some w) :
        standing (putOnTop fields (other, v)) name w = standing fields name w := by
      cases hname : isNamespace name with
      | false => rw [standing_of_not hname, standing_of_not hname]
      | true =>
        have hmem := List.mem_reverse.mp (OrderedMap.mem_of_lookup_eq_some hw)
        have hother : other ≠ name := fun h =>
          List.rel_of_pairwise_cons (hl hname) hmem ⟨h, rfl⟩
        refine standing_congr ?_ w
        rw [putOnTop, lookup_concat, if_neg hother]
    rw [List.foldl_cons, ih fun hname => (List.pairwise_cons.mp (hl hname)).2,
      lookup_reverse_cons, putOnTop, lookup_concat]
    cases hrest : OrderedMap.lookup name rest.reverse with
    | some w => exact congrArg some (hfirst w hrest)
    | none =>
      by_cases hother : other = name
      · subst hother
        simp
      · simp [hother]

theorem onTop_cons {k : Value} (hk : k.text? = some name) (v : Value)
    (rest : List (Value × Value)) : onTop fields ((k, v) :: rest) =
      onTop (fields ++ [(name, standing fields name v)]) rest := by
  rw [onTop, Value.named_cons hk, List.foldl_cons]
  rfl

/-- No document that is read has two entries for a namespace. -/
theorem pairwise_named {entries : List (Value × Value)} (h : Value.DistinctKeys entries)
    (hname : isNamespace name) :
    (Value.named entries).Pairwise fun a b => ¬ (a.1 = name ∧ b.1 = name) := by
  refine (h.pairwise_text? (underscore_mem_of_isNamespace hname)).filterMap _ ?_
  rintro ⟨k, v⟩ ⟨k', v'⟩ hdiffer ⟨n, w⟩ hw ⟨n', w'⟩ hw' ⟨rfl, rfl⟩
  obtain ⟨_, hk, heq⟩ := Option.map_eq_some_iff.mp hw
  obtain ⟨_, hk', heq'⟩ := Option.map_eq_some_iff.mp hw'
  cases heq
  cases heq'
  exact hdiffer ⟨hk, hk'⟩

end

/-! ### Merging -/

section Merging
variable {b b₁ : Builder} {fields : List (String × Value)} {name : String}

/-- A field for a name that is there takes its place. -/
theorem shows_replace {e : EntityId → Entity} {i : EntityId} {v : Value} {c : EntityId}
    (hkeys : (e i).children.keys = (fields.map Prod.fst).eraseDups)
    (hc : (e i).children.get? name = some c) (hv : Depicts e c v)
    (hrest : ∀ other c w, other ≠ name → (e i).children.get? other = some c →
      OrderedMap.lookup other fields.reverse = some w → Depicts e c w) :
    Shows e i (fields ++ [(name, v)]) := by
  have hmem : name ∈ (OrderedMap.ofList fields).keys := by
    rw [OrderedMap.keys_ofList, ← hkeys]
    by_contra hnot
    rw [OrderedMap.get?_eq_none.mpr hnot] at hc
    cases hc
  refine shows_iff.mpr ⟨?_, fun other c' w hc' hw => ?_⟩
  · rw [← OrderedMap.keys_ofList, OrderedMap.ofList_concat, OrderedMap.keys_insert, if_pos hmem,
      OrderedMap.keys_ofList, hkeys]
  · rw [lookup_concat] at hw
    by_cases hother : name = other
    · subst hother
      rw [if_pos rfl] at hw
      cases hw
      cases hc.symm.trans hc'
      exact hv
    · rw [if_neg hother] at hw
      exact hrest other c' w (Ne.symm hother) hc' hw

/-- Definitions that join those that are there. -/
theorem shows_joined {k : Value} {types definitions : List (Value × Value)} {t : EntityId}
    (hshows : Shows b.entity root fields) (hb : b.Grown) (hk : keyName k = .ok name)
    (hspace : isNamespace name) (ht : b.child? root name = some t)
    (hold : OrderedMap.lookup name fields.reverse = some (.mapping types))
    (h : mergeEntry b (k, .mapping definitions) = .ok b₁) :
    Shows b₁.entity root (fields ++ [(name, standing fields name (.mapping definitions))]) := by
  obtain ⟨hlt, hnext, htname, _⟩ := hb.child (OrderedMap.get?_eq_some.mp ht)
  rw [mergeEntry_namespace hk hspace ht] at h
  obtain ⟨children, hx⟩ := extends_addEntries definitions h hb hnext
  have hroot := hx.rest root hb.next_pos (Nat.ne_of_lt hlt)
  obtain ⟨hvalue, htypes⟩ := depicts_mapping_iff.mp (hshows.child ht hold)
  have hall := shows_addEntries definitions h hb hnext htypes
  rw [← Value.named_append] at hall
  rw [standing_mapping hspace hold]
  refine shows_replace (c := t) (by rw [hroot]; exact hshows.keys) (by rw [hroot]; exact ht)
    (depicts_mapping_iff.mpr ⟨by rw [hx.above]; exact hvalue, hall⟩)
    fun other c u hother hc hu => ?_
  rw [hroot] at hc
  obtain ⟨hc₁, hc₂, hc₃, _⟩ := hb.child (OrderedMap.get?_eq_some.mp hc)
  refine (hshows.child hc hu).of_untouched (hx.untouched_root hb ht) ⟨hc₁, hc₂, ?_⟩
  rintro rfl
  exact hother (hc₃.symm.trans htname)

/-- One more entry of the top of a document. -/
theorem shows_mergeEntry {k v : Value} (hshows : Shows b.entity root fields) (hb : b.Grown)
    (hk : keyName k = .ok name) (hmapping : isNamespace name →
      ∀ w, OrderedMap.lookup name fields.reverse = some w → ∃ types, w = .mapping types)
    (h : mergeEntry b (k, v) = .ok b₁) :
    Shows b₁.entity root (fields ++ [(name, standing fields name v)]) := by
  have hrel := hshows.rel_child name
  by_cases hjoins : isNamespace name ∧ b.child? root name ≠ none ∧
    ∃ definitions, v = .mapping definitions
  · obtain ⟨hspace, hold, definitions, rfl⟩ := hjoins
    obtain ⟨t, ht⟩ := Option.ne_none_iff_exists'.mp hold
    rw [show (b.entity root).children.get? name = some t from ht] at hrel
    obtain ⟨w, hw⟩ : ∃ w, OrderedMap.lookup name fields.reverse = some w := by
      generalize OrderedMap.lookup name fields.reverse = w at hrel
      cases hrel
      exact ⟨_, rfl⟩
    obtain ⟨types, rfl⟩ := hmapping hspace w hw
    exact shows_joined hshows hb hk hspace ht hw h
  · have hstanding : standing fields name v = v := by
      by_cases hspace : isNamespace name
      · by_cases hold : b.child? root name = none
        · rw [show (b.entity root).children.get? name = none from hold] at hrel
          refine standing_of_eq_none ?_ v
          generalize OrderedMap.lookup name fields.reverse = w at hrel
          cases hrel
          rfl
        · exact standing_of_ne_mapping fun definitions hv => hjoins ⟨hspace, hold, definitions, hv⟩
      · exact standing_of_not (by simpa using hspace) v
    rw [mergeEntry_other hk fun hspace hold definitions hv =>
      hjoins ⟨hspace, hold, definitions, hv⟩] at h
    rw [hstanding]
    exact shows_concat hshows hb (extends_addValue v h hb hb.next_pos)
      (depicts_addValue v h hb hb.next_pos)

/-- A document that gives something for a namespace finds a mapping there, or nothing. -/
def Joinable (fields : List (String × Value)) (entries : List (Value × Value)) : Prop :=
  ∀ name, isNamespace name → ∀ w, OrderedMap.lookup name fields.reverse = some w →
    (∃ types, w = .mapping types) ∨ ∀ e ∈ entries, e.1.text? ≠ some name

theorem shows_mergeDocument {entries : List (Value × Value)} {b' : Builder}
    (hdistinct : Value.DistinctKeys entries) (hjoinable : Joinable fields entries)
    (hshows : Shows b.entity root fields) (hb : b.Grown) (h : b.mergeDocument entries = .ok b') :
    Shows b'.entity root (onTop fields entries) := by
  induction entries generalizing b fields with
  | nil =>
    cases h
    exact hshows
  | cons entry rest ih =>
    obtain ⟨k, v⟩ := entry
    rw [mergeDocument, List.foldlM_cons] at h
    obtain ⟨b₁, hentry, h⟩ := bind_eq_ok.mp h
    obtain ⟨name, hk, _⟩ := bind_eq_ok.mp hentry
    have htext := text?_of_keyName hk
    rw [onTop_cons htext]
    refine ih (List.pairwise_cons.mp hdistinct).2 ?_ (shows_mergeEntry hshows hb hk
      (fun hspace w hw => ?_) hentry) (grows_mergeEntry hentry hb).1 h
    · intro other hother w hw
      rw [lookup_concat] at hw
      by_cases hname : name = other
      · subst hname
        exact .inr fun e he hsame => List.rel_of_pairwise_cons
          (hdistinct.pairwise_text? (underscore_mem_of_isNamespace hother)) he ⟨htext, hsame⟩
      · rw [if_neg hname] at hw
        exact (hjoinable other hother w hw).imp_right fun hnot e he =>
          hnot e (List.mem_cons_of_mem _ he)
    · exact (hjoinable name hspace w hw).resolve_right fun hnot =>
        hnot (k, v) List.mem_cons_self htext

/-! ### Parts of the entries -/

/-- An entity that entries of the top of a document leave alone: it is not the namespace that one
of them is about. -/
structure Aside (b : Builder) (entries : List (Value × Value)) (i : EntityId) : Prop where
  pos : root < i
  lt : i < b.next
  apart : (b.entity i).parent = some root →
    ∀ e ∈ entries, e.1.text? = some (b.entity i).name → ¬ isNamespace (b.entity i).name

theorem Aside.depicts_mergeEntry {i : EntityId} {k v w : Value} {rest : List (Value × Value)}
    (h : b.Aside ((k, v) :: rest) i) (hb : b.Grown) (hw : Depicts b.entity i w)
    (hmerge : mergeEntry b (k, v) = .ok b₁) : Depicts b₁.entity i w ∧ b₁.Aside rest i := by
  obtain ⟨name, hk, _⟩ := bind_eq_ok.mp hmerge
  have hgrows := grows_mergeEntry hmerge hb
  have hsame : Depicts b₁.entity i w ∧ b₁.entity i = b.entity i := by
    by_cases hjoins : isNamespace name ∧ b.child? root name ≠ none ∧
      ∃ definitions, v = .mapping definitions
    · obtain ⟨hspace, hold, definitions, rfl⟩ := hjoins
      obtain ⟨t, ht⟩ := Option.ne_none_iff_exists'.mp hold
      obtain ⟨hlt, hnext, htname, htparent⟩ := hb.child (OrderedMap.get?_eq_some.mp ht)
      rw [mergeEntry_namespace hk hspace ht] at hmerge
      obtain ⟨_, hx⟩ := extends_addEntries definitions hmerge hb hnext
      have hne : i ≠ t := by
        rintro rfl
        refine h.apart htparent _ List.mem_cons_self ?_ (htname ▸ hspace)
        rw [htname]
        exact text?_of_keyName hk
      exact ⟨hw.of_untouched (hx.untouched_root hb ht) ⟨h.pos, h.lt, hne⟩, hx.rest i h.lt hne⟩
    · rw [mergeEntry_other hk fun hspace hold definitions hv =>
        hjoins ⟨hspace, hold, definitions, hv⟩] at hmerge
      have hx := extends_addValue v hmerge hb hb.next_pos
      exact ⟨hw.of_untouched (hx.untouched hb) ⟨h.pos, h.lt⟩,
        hx.rest i h.lt (Nat.ne_of_gt h.pos)⟩
  refine ⟨hsame.1, ⟨h.pos, Nat.lt_of_lt_of_le h.lt hgrows.2, ?_⟩⟩
  rw [hsame.2]
  exact fun hparent e he => h.apart hparent e (List.mem_cons_of_mem _ he)

theorem Aside.depicts_mergeDocument {entries : List (Value × Value)} {b' : Builder} {i : EntityId}
    {w : Value} (h : b.Aside entries i) (hb : b.Grown) (hw : Depicts b.entity i w)
    (hmerge : b.mergeDocument entries = .ok b') : Depicts b'.entity i w := by
  induction entries generalizing b with
  | nil =>
    cases hmerge
    exact hw
  | cons entry rest ih =>
    rw [mergeDocument, List.foldlM_cons] at hmerge
    obtain ⟨b₁, hentry, hmerge⟩ := bind_eq_ok.mp hmerge
    obtain ⟨hw, haside⟩ := h.depicts_mergeEntry hb hw hentry
    exact ih haside (grows_mergeEntry hentry hb).1 hw hmerge

/-- A part of an entry gets an entity, unless it is a mapping of definitions as a whole. -/
theorem exists_aside_mergeEntry {k v w : Value} {path : List String} {rest : List (Value × Value)}
    (hb : b.Grown) (hk : keyName k = .ok name)
    (hrest : isNamespace name → ∀ e ∈ rest, e.1.text? ≠ some name)
    (hmerge : mergeEntry b (k, v) = .ok b₁) (hpath : isNamespace name → path ≠ [])
    (hw : v.At path w) : ∃ i, b₁.Aside rest i ∧ Depicts b₁.entity i w := by
  by_cases hjoins : isNamespace name ∧ b.child? root name ≠ none ∧
    ∃ definitions, v = .mapping definitions
  · obtain ⟨hspace, hold, definitions, rfl⟩ := hjoins
    obtain ⟨t, ht⟩ := Option.ne_none_iff_exists'.mp hold
    obtain ⟨hlt, hnext, _⟩ := hb.child (OrderedMap.get?_eq_some.mp ht)
    rw [mergeEntry_namespace hk hspace ht] at hmerge
    cases hw with
    | here => exact absurd rfl (hpath hspace)
    | field hu hw =>
      obtain ⟨i, hi⟩ := places_addEntries definitions hmerge hb hnext _ hu _ w hw
      refine ⟨i, ⟨Nat.lt_of_lt_of_le hb.next_pos hi.new.1, hi.new.2, fun hroot => ?_⟩, hi.depicts⟩
      rcases hi.above with ⟨hparent, _⟩ | ⟨p, hparent, hnew⟩
      · cases hroot.symm.trans hparent
        exact absurd hlt (Nat.lt_irrefl _)
      · cases hroot.symm.trans hparent
        exact absurd hb.next_pos (Nat.not_lt_of_le hnew)
  · rw [mergeEntry_other hk fun hspace hold definitions hv =>
      hjoins ⟨hspace, hold, definitions, hv⟩] at hmerge
    obtain ⟨i, hi⟩ := places_addValue v hmerge hb hb.next_pos path w hw
    refine ⟨i, ⟨Nat.lt_of_lt_of_le hb.next_pos hi.new.1, hi.new.2, fun hroot e he hsame hspace =>
      ?_⟩, hi.depicts⟩
    rcases hi.above with ⟨_, hname⟩ | ⟨p, hparent, hnew⟩
    · rw [hname] at hsame hspace
      exact hrest hspace e he hsame
    · cases hroot.symm.trans hparent
      exact absurd hb.next_pos (Nat.not_lt_of_le hnew)

theorem exists_depicts_mergeDocument {entries : List (Value × Value)} {b' : Builder}
    (hdistinct : Value.DistinctKeys entries) (hb : b.Grown)
    (hmerge : b.mergeDocument entries = .ok b') {k v w : Value} {path : List String}
    (he : (k, v) ∈ entries) (hk : k.text? = some name) (hpath : isNamespace name → path ≠ [])
    (hw : v.At path w) : ∃ i, Depicts b'.entity i w := by
  induction entries generalizing b with
  | nil => cases he
  | cons entry rest ih =>
    rw [mergeDocument, List.foldlM_cons] at hmerge
    obtain ⟨b₁, hentry, hafter⟩ := bind_eq_ok.mp hmerge
    have hgrown := (grows_mergeEntry hentry hb).1
    rcases List.mem_cons.mp he with rfl | he
    · obtain ⟨name', hname, _⟩ := bind_eq_ok.mp hentry
      cases hk.symm.trans (text?_of_keyName hname)
      have hrest (hspace : isNamespace name) : ∀ e ∈ rest, e.1.text? ≠ some name :=
        fun e he hsame => List.rel_of_pairwise_cons
          (hdistinct.pairwise_text? (underscore_mem_of_isNamespace hspace)) he ⟨hk, hsame⟩
      obtain ⟨i, haside, hdepicts⟩ := exists_aside_mergeEntry hb hname hrest hentry hpath hw
      exact ⟨i, haside.depicts_mergeDocument hgrown hdepicts hafter⟩
    · exact ih (List.pairwise_cons.mp hdistinct).2 hgrown hafter he

end Merging

end Builder

/-! ### The whole -/

/-- The fields that are there before a document is read. -/
def builtInFields (builtIn : Bool) : List (String × Value) :=
  if builtIn then Value.named BuiltIn.document else []

open Builder (isNamespace standing onTop)

/-- What a part of a document stands for in its graph, where the names lead to it. Definitions of
types stand for these together with the built-in ones, anything else for itself. -/
def standsFor (builtIn : Bool) (name : String) (path : List String) (w : Value) : Value :=
  if path = [] then standing (builtInFields builtIn) name w else w

theorem standsFor_of_not {name : String} (h : isNamespace name = false) (builtIn : Bool)
    (path : List String) (w : Value) : standsFor builtIn name path w = w := by
  unfold standsFor
  split
  · exact Builder.standing_of_not h w
  · rfl

/-- The built-in types are mappings with strings as keys. -/
theorem exists_builtIn_of_lookup {name : String} {builtIn : Bool} {w : Value}
    (h : OrderedMap.lookup name (builtInFields builtIn).reverse = some w) :
    ∃ space : TypeSpace, name = space.key ∧ w = BuiltIn.mapping space.builtIn := by
  cases builtIn with
  | false => cases h
  | true =>
    have hmem : (name, w) ∈ Value.named BuiltIn.document :=
      List.mem_reverse.mp (OrderedMap.mem_of_lookup_eq_some h)
    obtain ⟨k, hentry, hk⟩ := Value.entry_of_mem_named hmem
    rcases List.mem_cons.mp hentry with heq | hentry
    · cases heq
      cases hk
      exact ⟨.component, rfl, rfl⟩
    · cases List.mem_singleton.mp hentry
      cases hk
      exact ⟨.relation, rfl, rfl⟩

theorem joinable_builtInFields (builtIn : Bool) (entries : List (Value × Value)) :
    Builder.Joinable (builtInFields builtIn) entries := by
  intro name _ w hw
  obtain ⟨space, _, rfl⟩ := exists_builtIn_of_lookup hw
  exact .inl ⟨_, rfl⟩

theorem lookup_builtInFields {name : String} (h : isNamespace name = false) (builtIn : Bool) :
    OrderedMap.lookup name (builtInFields builtIn).reverse = none := by
  by_contra hsome
  obtain ⟨w, hw⟩ := Option.ne_none_iff_exists'.mp hsome
  obtain ⟨space, rfl, _⟩ := exists_builtIn_of_lookup hw
  rw [space.isNamespace_key] at h
  cases h

section Whole
variable {builtIn : Bool} {v : Value} {g : EntityGraph} {entries : List (Value × Value)}

/-- What is there before a document is read. -/
theorem shows_builtInFields {b : Builder} (h : Builder.start.mergeDocument
    (if builtIn then BuiltIn.document else []) = .ok b) :
    Shows b.entity root (builtInFields builtIn) := by
  cases builtIn with
  | false =>
    cases h
    exact shows_start
  | true =>
    have hdistinct : Value.DistinctKeys BuiltIn.document := by
      unfold Value.DistinctKeys
      decide
    exact Builder.shows_mergeDocument hdistinct (fun _ _ _ hw => by cases hw) shows_start .start h

/-- A graph depicts its document on top of the built-in types. -/
theorem shows_of_ofValue (h : ofValue builtIn v = .ok g) (hentries : topLevel v = .ok entries)
    (hdistinct : Value.DistinctKeys entries) :
    Shows g.entity root (onTop (builtInFields builtIn) entries) := by
  obtain ⟨b₁, hstart, h⟩ := bind_eq_ok.mp h
  obtain ⟨entries', hentries', h⟩ := bind_eq_ok.mp h
  obtain ⟨b, hb, h⟩ := bind_eq_ok.mp h
  cases h
  cases hentries.symm.trans hentries'
  have hshows := Builder.shows_mergeDocument hdistinct (joinable_builtInFields builtIn entries)
    (shows_builtInFields hstart) (Builder.grows_mergeDocument hstart .start).1 hb
  exact hshows.of_untouched b.untouched_build trivial

/-- Every part of a document has an entity, except that definitions of types join those that are
there. -/
theorem exists_depicts_of_ofValue (h : ofValue builtIn v = .ok g)
    (hentries : topLevel v = .ok entries) (hdistinct : Value.DistinctKeys entries) {k u w : Value}
    {name : String} {path : List String} (he : (k, u) ∈ entries) (hk : k.text? = some name)
    (hpath : isNamespace name → path ≠ []) (hw : u.At path w) :
    ∃ i, Depicts g.entity i w := by
  obtain ⟨b₁, hstart, h⟩ := bind_eq_ok.mp h
  obtain ⟨entries', hentries', h⟩ := bind_eq_ok.mp h
  obtain ⟨b, hb, h⟩ := bind_eq_ok.mp h
  cases h
  cases hentries.symm.trans hentries'
  obtain ⟨i, hi⟩ := Builder.exists_depicts_mergeDocument hdistinct
    (Builder.grows_mergeDocument hstart .start).1 hb he hk hpath hw
  exact ⟨i, hi.of_untouched b.untouched_build trivial⟩

end Whole

/-! ### Paths in a document -/

section Paths
variable {builtIn : Bool} {g : EntityGraph} {entries : List (Value × Value)}
  (hshows : Shows g.entity root (onTop (builtInFields builtIn) entries))

theorem lookup_onTop (hdistinct : Value.DistinctKeys entries) (fields : List (String × Value))
    (name : String) : OrderedMap.lookup name (onTop fields entries).reverse =
      ((OrderedMap.lookup name (Value.named entries).reverse).map (standing fields name)).or
        (OrderedMap.lookup name fields.reverse) :=
  Builder.lookup_foldl_putOnTop (Builder.pairwise_named hdistinct)

/-- What is below definitions of types is below them still when they have joined others. -/
theorem under?_standing {fields : List (String × Value)} {name : String} {v w : Value}
    {path : List String} (hpath : path ≠ []) (h : v.under? path = some w) :
    (standing fields name v).under? path = some w := by
  unfold standing
  split
  case h_1 types definitions _ _ =>
    cases path with
    | nil => exact absurd rfl hpath
    | cons next path =>
      obtain ⟨u, hu, h⟩ := Option.bind_eq_some_iff.mp h
      have hfields : (Value.mapping (types ++ definitions)).fields =
          Value.named types ++ Value.named definitions := Value.named_append types definitions
      have hu : OrderedMap.lookup next (Value.named definitions).reverse = some u := hu
      rw [Value.under?, hfields, List.reverse_append, OrderedMap.lookup_append, hu]
      exact h
  case h_2 => exact h

/-- A document together with the built-in types. -/
def whole (builtIn : Bool) (entries : List (Value × Value)) : Value :=
  BuiltIn.mapping (onTop (builtInFields builtIn) entries)

theorem fields_whole (builtIn : Bool) (entries : List (Value × Value)) :
    (whole builtIn entries).fields = onTop (builtInFields builtIn) entries :=
  Value.named_entries _

theorem under?_whole (hdistinct : Value.DistinctKeys entries) {name : String}
    {path : List String} {w : Value} (h : (Value.mapping entries).under? (name :: path) = some w) :
    (whole builtIn entries).under? (name :: path) = some (standsFor builtIn name path w) := by
  obtain ⟨u, hu, h⟩ := Option.bind_eq_some_iff.mp h
  have hu : OrderedMap.lookup name (Value.named entries).reverse = some u := hu
  rw [Value.under?, fields_whole, lookup_onTop hdistinct, hu, Option.map_some, Option.some_or,
    Option.bind_some]
  cases path with
  | nil =>
    cases h
    rfl
  | cons next path => exact under?_standing (List.cons_ne_nil next path) h

/-- Under a name that is no namespace of types there is only the document. -/
theorem under?_whole_of_not (hdistinct : Value.DistinctKeys entries) {name : String}
    (hname : isNamespace name = false) (path : List String) :
    (whole builtIn entries).under? (name :: path) =
      (Value.mapping entries).under? (name :: path) := by
  rw [Value.under?, fields_whole, lookup_onTop hdistinct, lookup_builtInFields hname,
    Option.or_none, Option.map_congr fun v _ => Builder.standing_of_not hname v, Option.map_id']
  rfl

include hshows

/-- Names lead to the same part in a graph and in its document with the built-in types. -/
theorem rel_descend?_whole (name : String) (path : List String) : Option.Rel (Depicts g.entity)
    (g.descend? root (name :: path)) ((whole builtIn entries).under? (name :: path)) := by
  have hchild := hshows.rel_child name
  rw [EntityGraph.descend?, child?, Value.under?, fields_whole]
  generalize (g.entity root).children.get? name = c at hchild ⊢
  generalize OrderedMap.lookup name (onTop (builtInFields builtIn) entries).reverse = u
    at hchild ⊢
  cases hchild with
  | none => exact .none
  | some hcu => exact hcu.descend? path

/-- What some names lead to in a document is found under them in its graph. -/
theorem exists_descend?_of_under? (hdistinct : Value.DistinctKeys entries) {name : String}
    {path : List String} {w : Value} (h : (Value.mapping entries).under? (name :: path) = some w) :
    ∃ i, g.descend? root (name :: path) = some i ∧
      Depicts g.entity i (standsFor builtIn name path w) := by
  have hrel := rel_descend?_whole hshows name path
  rw [under?_whole hdistinct h] at hrel
  generalize g.descend? root (name :: path) = i at hrel
  cases hrel with
  | some hi => exact ⟨_, rfl, hi⟩

/-- Under a name that is no namespace of types a graph is the document. -/
theorem rel_descend?_under? (hdistinct : Value.DistinctKeys entries) {name : String}
    (hname : isNamespace name = false) (path : List String) :
    Option.Rel (Depicts g.entity) (g.descend? root (name :: path))
      ((Value.mapping entries).under? (name :: path)) := by
  rw [← under?_whole_of_not hdistinct hname]
  exact rel_descend?_whole hshows name path

end Paths

/-! ### Graphs that are read -/

theorem allRead_of_topLevel {text : String} {v : Value} {entries : List (Value × Value)}
    (hv : Value.parse text = .ok v) (h : topLevel v = .ok entries) :
    (Value.mapping entries).AllRead := by
  cases v with
  | mapping => exact Except.ok.inj h ▸ Value.allRead_of_parse hv
  | null =>
    cases Except.ok.inj h
    refine Value.allRead_of_fields ⟨fun _ hw => ?_, fun _ hw => by cases hw⟩
      fun _ hfield => by cases hfield
    cases hw
    exact .nil
  | _ => cases h

/-- How a graph that is read stands to its document. -/
structure ReadFrom (g : EntityGraph) (builtIn : Bool) (v : Value) (entries : List (Value × Value)) :
    Prop where
  top : topLevel v = .ok entries
  built : ofValue builtIn v = .ok g
  read : (Value.mapping entries).AllRead
  distinct : Value.DistinctKeys entries
  shows : Shows g.entity root (onTop (builtInFields builtIn) entries)

theorem exists_readFrom {builtIn : Bool} {origin text : String} {g : EntityGraph}
    (h : parse builtIn origin text = .ok g) :
    ∃ v entries, Value.parse text = .ok v ∧ g.ReadFrom builtIn v entries := by
  unfold parse at h
  split at h
  case h_1 => cases h
  case h_2 v hv =>
    have hwhole := mapError_eq_ok.mp h
    obtain ⟨_, _, hrest⟩ := bind_eq_ok.mp hwhole
    obtain ⟨entries, htop, _⟩ := bind_eq_ok.mp hrest
    have hdistinct := distinctKeys_of_topLevel hv htop
    exact ⟨v, entries, hv, htop, hwhole, allRead_of_topLevel hv htop, hdistinct,
      shows_of_ofValue hwhole htop hdistinct⟩

end Provision.EntityGraph
