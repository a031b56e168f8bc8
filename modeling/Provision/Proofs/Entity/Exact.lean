import Provision.Proofs.Entity.Depiction
import Provision.Proofs.Entity.Found
import Provision.Proofs.Yaml.Identical
import Provision.Proofs.Yaml.Keys

/-! Reading a document by itself.

A key has to be a string, a truth value or a number. Reading goes through the keys of all
mappings of a document in the order in which they stand there, and stops at the first other one.
If there is none, the tree of entities below the root is the document. Only the top of a
document is read in a way of its own, because types are to join those that are there. Nothing is
there for the first types, and no document has two entries for the same ones, so reading the
top is adding its entries as well. -/
namespace Provision

namespace Yaml.Value

/-! ### Keys that are no names -/

/-- Whether a value is a string, a truth value or a number. -/
def isName : Value → Bool
  | .string _ | .boolean _ | .integer _ | .float _ => true
  | _ => false

mutual

/-- The keys of all mappings of a value, as they follow each other in the document. -/
def keysIn : Value → List Value
  | .sequence items => keysInItems items
  | .mapping entries => keysInEntries entries
  | .tagged _ v => v.keysIn
  | _ => []

def keysInItems : List Value → List Value
  | [] => []
  | v :: rest => v.keysIn ++ keysInItems rest

def keysInEntries : List (Value × Value) → List Value
  | [] => []
  | (k, v) :: rest => k :: (v.keysIn ++ keysInEntries rest)

end

/-- The first key that is no name. -/
def firstUnnamed (keys : List Value) : Option Value := keys.find? fun k => !k.isName

theorem firstUnnamed_eq_none {keys : List Value} :
    firstUnnamed keys = none ↔ ∀ k ∈ keys, k.isName := by
  simp [firstUnnamed]

end Yaml.Value

namespace EntityGraph
open Yaml (Value)

namespace Builder

/-- A step is refused at the first of some keys that is no name, and only there. -/
def Refused {α : Type} (x : Except ModelFault α) (keys : List Value) : Prop :=
  ∀ f, x = .error f ↔ ∃ k, Value.firstUnnamed keys = some k ∧ .unsupportedKey k.shown = f

section Refused
variable {α β : Type} {x : Except ModelFault α} {keys : List Value}

theorem refused_ok (a : α) : Refused (.ok a) [] := fun f => by simp [Value.firstUnnamed]

theorem refused_keyName (k : Value) : Refused (keyName k) [k] := by
  intro f
  cases k <;> simp [keyName, Value.text?, Value.firstUnnamed, Value.isName]

theorem Refused.eq_none {a : α} (h : Refused (.ok a) keys) : Value.firstUnnamed keys = none := by
  cases hk : Value.firstUnnamed keys with
  | none => rfl
  | some k => cases (h _).mpr ⟨k, hk, rfl⟩

theorem Refused.exists_ok (h : Refused x keys) (hkeys : Value.firstUnnamed keys = none) :
    ∃ a, x = .ok a := by
  cases x with
  | ok a => exact ⟨a, rfl⟩
  | error f =>
    obtain ⟨k, hk, _⟩ := (h f).mp rfl
    rw [hkeys] at hk
    cases hk

/-- Steps are refused at the first key of the first one that is. -/
theorem Refused.bind {next : α → Except ModelFault β} {keys' : List Value} (h : Refused x keys)
    (hnext : ∀ a, Refused (next a) keys') : Refused (x >>= next) (keys ++ keys') := by
  intro f
  rw [Value.firstUnnamed, List.find?_append]
  cases x with
  | ok a =>
    rw [show List.find? _ keys = none from h.eq_none, Option.none_or]
    exact hnext a f
  | error f' =>
    obtain ⟨k, hk, rfl⟩ := (h f').mp rfl
    rw [show List.find? _ keys = some k from hk, Option.some_or]
    constructor
    · rintro ⟨⟩
      exact ⟨k, rfl, rfl⟩
    · rintro ⟨_, ⟨⟩, rfl⟩
      rfl

end Refused

mutual

/-- Adding a value is refused at the first of its keys that is no name. -/
theorem refused_addValue : (v : Value) → (parent : EntityId) → (name : String) → (b : Builder) →
    Refused (addValue parent name v b) v.keysIn
  | .mapping entries, parent, name, b => by
    rw [addValue, Value.keysIn]
    exact refused_addEntries entries _ _
  | .sequence items, parent, name, b => by
    rw [addValue, Value.keysIn]
    exact refused_addItems items _ _ _
  | .tagged _ v, parent, name, b => by
    rw [addValue, Value.keysIn]
    exact refused_addValue v parent name b
  | .null, _, _, _ | .boolean _, _, _, _ | .integer _, _, _, _ | .float _, _, _, _
  | .string _, _, _, _ => refused_ok _

theorem refused_addEntries : (entries : List (Value × Value)) → (parent : EntityId) →
    (b : Builder) → Refused (addEntries parent entries b) (Value.keysInEntries entries)
  | [], _, b => refused_ok b
  | (k, v) :: rest, parent, b => by
    rw [addEntries, Value.keysInEntries]
    exact (refused_keyName k).bind fun name =>
      (refused_addValue v parent name b).bind fun b₁ => refused_addEntries rest parent b₁

theorem refused_addItems : (items : List Value) → (parent : EntityId) → (index : Nat) →
    (b : Builder) → Refused (addItems parent index items b) (Value.keysInItems items)
  | [], _, _, b => refused_ok b
  | v :: rest, parent, index, b => by
    rw [addItems, Value.keysInItems]
    exact (refused_addValue v parent _ b).bind fun b₁ =>
      refused_addItems rest parent (index + 1) b₁

end

/-! ### The top of a document -/

theorem underscore_mem_of_isNamespace {name : String} (h : isNamespace name) :
    '_' ∈ name.toList := by
  rw [isNamespace, Bool.or_eq_true, decide_eq_true_iff, decide_eq_true_iff] at h
  rcases h with rfl | rfl <;> decide

/-- Where the top of a document names no types that are there, its entries are added. -/
theorem mergeDocument_eq_addEntries {entries : List (Value × Value)}
    (hdistinct : Value.DistinctKeys entries) {b : Builder} (hb : b.Grown)
    (hnew : ∀ name, isNamespace name → b.child? root name ≠ none →
      ∀ e ∈ entries, e.1.text? ≠ some name) :
    b.mergeDocument entries = addEntries root entries b := by
  induction entries generalizing b with
  | nil => rfl
  | cons entry rest ih =>
    obtain ⟨k, v⟩ := entry
    obtain ⟨hfirst, hrest⟩ := List.pairwise_cons.mp hdistinct
    rw [mergeDocument, List.foldlM_cons, addEntries]
    cases hk : keyName k with
    | error f =>
      simp only [mergeEntry, hk]
      rfl
    | ok name =>
      have htext := text?_of_keyName hk
      rw [mergeEntry_other hk fun hname hold _ _ =>
        hnew name hname hold (k, v) List.mem_cons_self htext]
      show (addValue root name v b >>= _) = (addValue root name v b >>= addEntries root rest)
      cases hv : addValue root name v b with
      | error f => rfl
      | ok b₁ =>
        have hx := extends_addValue v hv hb hb.next_pos
        refine ih hrest hx.grows.1 fun other hother hthere e he hsame => ?_
        rw [child?, hx.above, OrderedMap.get?_insert] at hthere
        by_cases hname : name = other
        · subst hname
          refine absurd ?_ (List.rel_of_pairwise_cons
            (hdistinct.pairwise_text? (underscore_mem_of_isNamespace hother)) he)
          exact ⟨htext, hsame⟩
        · rw [if_neg hname] at hthere
          exact hnew other hother hthere e (List.mem_cons_of_mem _ he) hsame

end Builder

theorem shows_start : Shows Builder.start.entity root [] := .empty

/-- **A document that is read by itself becomes what it is.** The reading fails exactly if some
mapping of the document, however deep, has a key that is no string, truth value or number, and
then it names the first such key. Otherwise the entities below the root are a tree that depicts
the document. -/
theorem parse_alone {text : String} {entries : List (Value × Value)}
    (h : Value.parse text = .ok (.mapping entries)) (origin : String) :
    ((∃ shown, parse false origin text =
        .error (.unreadableModel origin (.unsupportedKey shown))) ↔
      ∃ k ∈ (Value.mapping entries).keysIn, ¬ k.isName) ∧
    (∀ k, Value.firstUnnamed (Value.mapping entries).keysIn = some k →
      parse false origin text = .error (.unreadableModel origin (.unsupportedKey k.shown))) ∧
    ((∀ k ∈ (Value.mapping entries).keysIn, k.isName) →
      ∃ g, parse false origin text = .ok g ∧ IsTree g.entity ∧
        Depicts g.entity root (.mapping entries)) := by
  have hread : Builder.start.mergeDocument entries =
      Builder.addEntries root entries .start :=
    Builder.mergeDocument_eq_addEntries (Value.distinctKeys_of_parse h) .start
      fun _ _ hold => absurd rfl hold
  have hparse : parse false origin text = ((Builder.addEntries root entries .start).map
      Builder.build).mapError (.unreadableModel origin) := by
    rw [parse, h, ← hread]
    rfl
  have hrefused : Builder.Refused (Builder.addEntries root entries .start)
      (Value.mapping entries).keysIn := by
    rw [Value.keysIn]
    exact Builder.refused_addEntries entries root .start
  have hfails (k : Value) (hk : Value.firstUnnamed (Value.mapping entries).keysIn = some k) :
      parse false origin text = .error (.unreadableModel origin (.unsupportedKey k.shown)) := by
    rw [hparse, (hrefused _).mpr ⟨k, hk, rfl⟩]
    rfl
  have hreads (hkeys : ∀ k ∈ (Value.mapping entries).keysIn, k.isName) :
      ∃ g, parse false origin text = .ok g ∧ IsTree g.entity ∧
        Depicts g.entity root (.mapping entries) := by
    obtain ⟨b, hb⟩ := hrefused.exists_ok (Value.firstUnnamed_eq_none.mpr hkeys)
    obtain ⟨_, hx⟩ := Builder.extends_addEntries entries hb .start (Builder.Grown.start).next_pos
    have hshows := Builder.shows_addEntries entries hb .start (Builder.Grown.start).next_pos
      shows_start
    have hdepicts : Depicts b.entity root (.mapping entries) :=
      depicts_mapping_iff.mpr ⟨by rw [hx.above]; rfl, hshows⟩
    refine ⟨b.build, by rw [hparse, hb]; rfl, hx.grows.1.isTree_build, ?_⟩
    exact hdepicts.of_untouched b.untouched_build trivial
  refine ⟨⟨?_, ?_⟩, hfails, hreads⟩
  · rintro ⟨shown, hshown⟩
    by_contra hnone
    obtain ⟨g, hg, _⟩ := hreads fun k hk => by_contra fun hname => hnone ⟨k, hk, hname⟩
    rw [hg] at hshown
    cases hshown
  · rintro ⟨k, hk, hname⟩
    cases hfirst : Value.firstUnnamed (Value.mapping entries).keysIn with
    | none => exact absurd (Value.firstUnnamed_eq_none.mp hfirst k hk) hname
    | some k' => exact ⟨_, hfails k' hfirst⟩

/-- A sequence below a tag, and two keys of one text. -/
def taggedText : String := "1: a\nlist: !own [true, k]\n\"1\": b\n"

def taggedEntries : List (Value × Value) :=
  [(.integer 1, .string "a"),
    (.string "list", .tagged "own" (.sequence [.boolean true, .string "k"])),
    (.string "1", .string "b")]

theorem parse_taggedText : Value.parse taggedText = .ok (.mapping taggedEntries) :=
  Value.parse_eq_ok (by decide +kernel)

theorem parse_alone_tagged : ∃ g, parse false "tagged.yaml" taggedText = .ok g ∧
    IsTree g.entity ∧ Depicts g.entity root (.mapping taggedEntries) :=
  (parse_alone parse_taggedText "tagged.yaml").2.2 (by decide)

end EntityGraph
end Provision
