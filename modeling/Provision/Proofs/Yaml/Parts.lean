import Provision.Proofs.Entity.Types

/-! The parts of a document.

A part of a value is reached by names: the text of a key in a mapping, the index in a sequence.
If two keys of a mapping have one text, the name leads to two parts, the last of which counts.
What is known of a document that is read is known of all its parts: no mapping has a key twice,
and every integer fits a word. -/
namespace Provision.Yaml.Value

/-- A value without its tags. -/
def untagged : Value → Value
  | .tagged _ v => v.untagged
  | v => v

theorem untagged_ne_tagged : (v : Value) → ∀ tag w, v.untagged ≠ .tagged tag w
  | .tagged _ v => untagged_ne_tagged v
  | .null | .boolean _ | .integer _ | .float _ | .string _ | .sequence _ | .mapping _ =>
    fun _ _ h => by cases h

theorem fields_untagged : (v : Value) → v.untagged.fields = v.fields
  | .tagged _ v => fields_untagged v
  | .null | .boolean _ | .integer _ | .float _ | .string _ | .sequence _ | .mapping _ => rfl

/-- What some names lead to inside of a value. -/
inductive At : Value → List String → Value → Prop where
  | here {v : Value} : At v [] v
  | field {v u w : Value} {name : String} {path : List String} : (name, u) ∈ v.fields →
      At u path w → At v (name :: path) w

/-- The last part that some names lead to. -/
def under? : Value → List String → Option Value
  | v, [] => some v
  | v, name :: path => (OrderedMap.lookup name v.fields.reverse).bind fun u => u.under? path

theorem under?_append (v : Value) (path path' : List String) :
    v.under? (path ++ path') = (v.under? path).bind fun w => w.under? path' := by
  induction path generalizing v with
  | nil => rfl
  | cons name path ih =>
    rw [List.cons_append, under?, under?]
    cases OrderedMap.lookup name v.fields.reverse with
    | none => rfl
    | some u => exact ih u

/-- No two parts of a value have the same name. -/
def Unambiguous (v : Value) : Prop :=
  ∀ path w, v.At path w → (w.fields.map Prod.fst).Nodup

theorem Unambiguous.field {v u : Value} {name : String} (h : v.Unambiguous)
    (hu : (name, u) ∈ v.fields) : u.Unambiguous :=
  fun _ _ hw => h _ _ (.field hu hw)

/-- In a value without names that lead to several parts every part is the last one. -/
theorem Unambiguous.under?_eq {v w : Value} {path : List String} (h : v.Unambiguous)
    (hw : v.At path w) : v.under? path = some w := by
  induction hw with
  | here => rfl
  | @field v u w name path hu _ ih =>
    have hnodup : (v.fields.reverse.map Prod.fst).Nodup := by
      rw [List.map_reverse, List.nodup_reverse]
      exact h [] v .here
    have hlookup : OrderedMap.lookup name v.fields.reverse = some u :=
      (OrderedMap.lookup_eq_some hnodup).mpr (List.mem_reverse.mpr hu)
    rw [under?, hlookup]
    exact ih (h.field hu)

/-! ### Values that are read -/

/-- What reading makes sure of. -/
structure WellRead (v : Value) : Prop where
  keys : ∀ entries, v.untagged = .mapping entries → DistinctKeys entries
  integer : ∀ i, v.untagged = .integer i →
    -Numeral.halfWordCount ≤ i ∧ i < Numeral.wordCount

/-- All parts of a value are well-read. -/
def AllRead (v : Value) : Prop := ∀ path w, v.At path w → w.WellRead

theorem untagged_withTag (tag : Option Tag) (v : Value) :
    (withTag tag v).untagged = v.untagged := by
  unfold withTag
  split <;> rfl

theorem fields_withTag (tag : Option Tag) (v : Value) : (withTag tag v).fields = v.fields := by
  unfold withTag
  split <;> rfl

theorem allRead_of_fields {v : Value} (hv : v.WellRead)
    (hfields : ∀ field ∈ v.fields, field.2.AllRead) : v.AllRead := by
  intro path w hw
  cases hw with
  | here => exact hv
  | field hu hw => exact hfields _ hu _ _ hw

theorem AllRead.withTag {v : Value} (h : v.AllRead) (tag : Option Tag) :
    (withTag tag v).AllRead := by
  refine allRead_of_fields ⟨?_, ?_⟩ ?_
  · rw [untagged_withTag]
    exact (h [] v .here).keys
  · rw [untagged_withTag]
    exact (h [] v .here).integer
  · rw [fields_withTag]
    exact fun field hfield path w hw => h _ w (.field hfield hw)

theorem integer?_bounds {cs : List Char} {i : Int} (h : Plain.integer? cs = .ok (some i)) :
    -Numeral.halfWordCount ≤ i ∧ i < Numeral.wordCount := by
  unfold Plain.integer? at h
  split at h
  case h_1 => cases h
  case h_2 j _ =>
    split at h
    case isTrue hbounds =>
      cases h
      simpa using hbounds
    case isFalse =>
      split at h <;> cases h

theorem allRead_integer {cs : List Char} {i : Int} (h : Plain.integer? cs = .ok (some i)) :
    (Value.integer i).AllRead := by
  refine allRead_of_fields ⟨fun _ hmapping => (by cases hmapping), fun j hj => ?_⟩
    fun field hfield => (by cases hfield)
  cases hj
  exact integer?_bounds h

/-- Whether a value has nothing to make sure of: a scalar without tag that is no integer. -/
def isFree : Value → Bool
  | .null | .boolean _ | .float _ | .string _ => true
  | _ => false

theorem allRead_of_isFree {v : Value} (h : v.isFree) : v.AllRead := by
  refine allRead_of_fields ⟨fun entries hv => ?_, fun i hv => ?_⟩ fun field hfield => ?_
  all_goals
    cases v with
    | integer | sequence | mapping | tagged => cases h
    | _ => first | cases hv | cases hfield

theorem allRead_ofPlain {text : String} {v : Value} (h : ofPlain text = .ok v) : v.AllRead := by
  simp only [ofPlain, pure, Except.pure] at h
  split at h
  · cases h
    exact allRead_of_isFree rfl
  · split at h
    · cases h
      exact allRead_of_isFree rfl
    · obtain ⟨i?, hi, h⟩ := bind_eq_ok.mp h
      cases i? with
      | some i =>
        cases h
        exact allRead_integer hi
      | none =>
        simp only at h
        split at h
        · cases h
          exact allRead_of_isFree rfl
        · split at h
          · cases h
            exact allRead_of_isFree rfl
          · cases h
            exact allRead_of_isFree rfl

theorem allRead_ofScalar {tag : Option Tag} {text : String} {style : Style} {v : Value}
    (h : ofScalar tag text style = .ok v) : v.AllRead := by
  unfold ofScalar at h
  split at h
  case h_1 =>
    split at h
    · cases h
      exact allRead_of_isFree rfl
    · cases h
  case h_2 =>
    split at h
    · cases h
      exact allRead_of_isFree rfl
    · cases h
  case h_3 =>
    obtain ⟨i?, hi, h⟩ := bind_eq_ok.mp h
    cases i? with
    | some i =>
      cases h
      exact allRead_integer hi
    | none => cases h
  case h_4 =>
    split at h
    · cases h
      exact allRead_of_isFree rfl
    · cases h
  case h_5 =>
    cases h
    exact allRead_of_isFree rfl
  case h_6 =>
    split at h
    · obtain ⟨w, hw, h⟩ := bind_eq_ok.mp h
      cases h
      exact (allRead_ofPlain hw).withTag tag
    · cases h
      exact (allRead_of_isFree rfl).withTag tag

theorem named_append (before after : List (Value × Value)) :
    named (before ++ after) = named before ++ named after :=
  List.filterMap_append

theorem entry_of_mem_named {entries : List (Value × Value)} {name : String} {v : Value}
    (h : (name, v) ∈ named entries) : ∃ k, (k, v) ∈ entries ∧ k.text? = some name := by
  obtain ⟨⟨k, w⟩, hentry, h⟩ := List.mem_filterMap.mp h
  obtain ⟨text, htext, heq⟩ := Option.map_eq_some_iff.mp h
  cases heq
  exact ⟨k, hentry, htext⟩

theorem exists_item_of_mem_numbered {items : List Value} {name : String} {v : Value}
    (h : (name, v) ∈ numbered 0 items) : v ∈ items := by
  obtain ⟨⟨w, k⟩, hitem, heq⟩ := List.mem_map.mp h
  cases heq
  exact (List.mem_zipIdx' hitem).2 ▸ List.getElem_mem _

theorem entries_of_addEntry {entries entries' : List (Value × Value)} {k v : Value}
    (h : addEntry entries k v = .ok entries') : entries' = entries ++ [(k, v)] := by
  unfold addEntry at h
  split at h
  · cases h
  · exact (Except.ok.inj h).symm

mutual

/-- All parts of a document that is read are well-read. -/
theorem allRead_ofNode : (n : Node) → {v : Value} → ofNode n = .ok v → v.AllRead
  | .scalar tag text style, v, h => by
    rw [ofNode] at h
    exact allRead_ofScalar h
  | .sequence tag items, v, h => by
    rw [ofNode] at h
    obtain ⟨values, hvalues, h⟩ := bind_eq_ok.mp h
    cases h
    refine AllRead.withTag (allRead_of_fields ⟨fun _ hw => (by cases hw), fun _ hw => (by cases hw)⟩
      fun field hfield => ?_) tag
    exact allRead_ofItems items hvalues _ (exists_item_of_mem_numbered hfield)
  | .mapping tag nodes, v, h => by
    rw [ofNode] at h
    obtain ⟨entries, hentries, h⟩ := bind_eq_ok.mp h
    cases h
    refine AllRead.withTag (allRead_of_fields ⟨fun _ hmapping => ?_, fun _ hw => (by cases hw)⟩
      fun field hfield => ?_) tag
    · cases hmapping
      exact distinctKeys_ofEntries hentries .nil
    · obtain ⟨k, hentry, _⟩ := entry_of_mem_named hfield
      exact allRead_ofEntries nodes hentries (fun _ he => by cases he) _ hentry

theorem allRead_ofItems : (nodes : List Node) → {values : List Value} →
    ofItems nodes = .ok values → ∀ v ∈ values, v.AllRead
  | [], values, h => by
    cases h
    exact fun _ hv => by cases hv
  | n :: rest, values, h => by
    rw [ofItems] at h
    obtain ⟨v, hv, h⟩ := bind_eq_ok.mp h
    obtain ⟨values, hrest, h⟩ := bind_eq_ok.mp h
    cases h
    exact List.forall_mem_cons.mpr ⟨allRead_ofNode n hv, allRead_ofItems rest hrest⟩

theorem allRead_ofEntries : (nodes : List (Node × Node)) →
    {before entries : List (Value × Value)} → ofEntries before nodes = .ok entries →
    (∀ e ∈ before, e.2.AllRead) → ∀ e ∈ entries, e.2.AllRead
  | [], before, entries, h, hbefore => by
    cases h
    exact hbefore
  | (k, v) :: rest, before, entries, h, hbefore => by
    rw [ofEntries] at h
    obtain ⟨key, _, h⟩ := bind_eq_ok.mp h
    obtain ⟨value, hvalue, h⟩ := bind_eq_ok.mp h
    obtain ⟨entries₁, hadd, h⟩ := bind_eq_ok.mp h
    refine allRead_ofEntries rest h ?_
    rw [entries_of_addEntry hadd]
    intro e he
    rcases List.mem_append.mp he with he | he
    · exact hbefore e he
    · cases List.mem_singleton.mp he
      exact allRead_ofNode v hvalue

end

theorem allRead_of_parse {text : String} {v : Value} (h : Value.parse text = .ok v) :
    v.AllRead := by
  obtain ⟨node?, _, h⟩ := bind_eq_ok.mp h
  cases node? with
  | none =>
    cases h
    exact allRead_of_isFree rfl
  | some n => exact allRead_ofNode n h

end Provision.Yaml.Value
