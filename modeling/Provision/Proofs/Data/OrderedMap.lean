import Mathlib.Data.List.Forall2
import Mathlib.Data.List.Induction
import Provision.Data.OrderedMap

/-! Entries of ordered maps. -/
namespace Provision.OrderedMap

variable {α β : Type}

theorem mem_keys {m : OrderedMap α β} {k : α} : k ∈ m.keys ↔ ∃ v, (k, v) ∈ m.toList := by
  simp [keys, toList]

theorem mem_values {m : OrderedMap α β} {v : β} : v ∈ m.values ↔ ∃ k, (k, v) ∈ m.toList := by
  simp [values, toList]

theorem values_eq_map (m : OrderedMap α β) : m.values = m.toList.map Prod.snd := rfl

variable [DecidableEq α]

theorem mem_put {k a : α} {v b : β} {l : List (α × β)} (hl : (l.map Prod.fst).Nodup) :
    (a, b) ∈ put k v l ↔ a = k ∧ b = v ∨ a ≠ k ∧ (a, b) ∈ l := by
  induction l with
  | nil => simp [put]
  | cons p rest ih =>
    obtain ⟨c, w⟩ := p
    obtain ⟨hc, hrest⟩ := List.nodup_cons.mp hl
    have hnot : (c, b) ∉ rest := fun h => hc (List.mem_map.mpr ⟨_, h, rfl⟩)
    by_cases h : c = k
    · subst h
      simp only [put, if_pos, List.mem_cons, Prod.mk.injEq]
      grind
    · simp only [put, if_neg h, List.mem_cons, Prod.mk.injEq, ih hrest]
      grind

theorem mem_insert {m : OrderedMap α β} {k a : α} {v b : β} :
    (a, b) ∈ (m.insert k v).toList ↔ a = k ∧ b = v ∨ a ≠ k ∧ (a, b) ∈ m.toList :=
  mem_put m.nodup

theorem lookup_eq_some {k : α} {v : β} {l : List (α × β)} (hl : (l.map Prod.fst).Nodup) :
    lookup k l = some v ↔ (k, v) ∈ l := by
  induction l with
  | nil => simp [lookup]
  | cons p rest ih =>
    obtain ⟨a, b⟩ := p
    obtain ⟨ha, hrest⟩ := List.nodup_cons.mp hl
    have hnot : (a, v) ∉ rest := fun h => ha (List.mem_map.mpr ⟨_, h, rfl⟩)
    by_cases h : a = k
    · subst h
      simp [lookup, hnot, eq_comm]
    · simp [lookup, h, ih hrest, Ne.symm h]

theorem mem_of_lookup_eq_some {k : α} {v : β} {l : List (α × β)} (h : lookup k l = some v) :
    (k, v) ∈ l := by
  induction l with
  | nil => cases h
  | cons e rest ih =>
    obtain ⟨a, w⟩ := e
    rw [lookup] at h
    split at h
    case isTrue hk =>
      cases hk
      cases h
      exact List.mem_cons_self
    case isFalse => exact List.mem_cons_of_mem _ (ih h)

/-- The value at a key is the one that the entries list. -/
theorem get?_eq_some {m : OrderedMap α β} {k : α} {v : β} :
    m.get? k = some v ↔ (k, v) ∈ m.toList :=
  lookup_eq_some m.nodup

theorem exists_get?_eq_some {m : OrderedMap α β} {k : α} (h : k ∈ m.keys) :
    ∃ v, m.get? k = some v := by
  obtain ⟨v, hv⟩ := mem_keys.mp h
  exact ⟨v, get?_eq_some.mpr hv⟩

theorem lookup_eq_none {k : α} {l : List (α × β)} :
    lookup k l = none ↔ k ∉ l.map Prod.fst := by
  induction l with
  | nil => simp [lookup]
  | cons p rest ih =>
    obtain ⟨a, b⟩ := p
    by_cases h : a = k
    · simp [lookup, h]
    · simp [lookup, h, ih, Ne.symm h]

theorem lookup_append (k : α) (l l' : List (α × β)) :
    lookup k (l ++ l') = (lookup k l).or (lookup k l') := by
  induction l with
  | nil => rfl
  | cons e rest ih =>
    obtain ⟨a, v⟩ := e
    rw [List.cons_append, lookup, lookup, ih]
    split <;> rfl

theorem lookup_perm {l l' : List (α × β)} (h : l.Perm l') (hl : (l'.map Prod.fst).Nodup) (k : α) :
    lookup k l = lookup k l' := by
  have hl₁ : (l.map Prod.fst).Nodup := (h.map Prod.fst).nodup_iff.mpr hl
  apply Option.ext
  intro v
  rw [lookup_eq_some hl₁, lookup_eq_some hl, h.mem_iff]

theorem get?_eq_none {m : OrderedMap α β} {k : α} : m.get? k = none ↔ k ∉ m.keys :=
  lookup_eq_none

/-- A key stands in at most one entry. -/
theorem map_filter_toList (m : OrderedMap α β) (k : α) :
    (m.toList.filter fun e => e.1 = k).map Prod.snd = (m.get? k).toList := by
  obtain ⟨l, hl⟩ := m
  show (l.filter _).map Prod.snd = (lookup k l).toList
  induction l with
  | nil => rfl
  | cons p rest ih =>
    obtain ⟨a, b⟩ := p
    obtain ⟨ha, hrest⟩ := List.nodup_cons.mp hl
    by_cases h : a = k
    · subst h
      have hnone : lookup a rest = none := lookup_eq_none.mpr ha
      have hfilter := ih hrest
      rw [hnone] at hfilter
      simp [lookup, hfilter]
    · simp [lookup, h, ih hrest]

theorem get?_of_toList_eq_nil {m : OrderedMap α β} (h : m.toList = []) (k : α) :
    m.get? k = none := by
  rw [get?, show m.entries = [] from h, lookup]

theorem get?_of_toList_eq_singleton {m : OrderedMap α β} {a : α} {v : β}
    (h : m.toList = [(a, v)]) (k : α) : m.get? k = if a = k then some v else none := by
  rw [get?, show m.entries = [(a, v)] from h, lookup, lookup]

theorem put_of_notMem {k : α} {l : List (α × β)} (h : k ∉ l.map Prod.fst) (v : β) :
    put k v l = l ++ [(k, v)] := by
  induction l with
  | nil => rfl
  | cons p rest ih =>
    rw [List.map_cons, List.mem_cons, not_or] at h
    rw [put, if_neg (Ne.symm h.1), ih h.2]
    rfl

/-- A new key comes last. -/
theorem toList_insert_of_notMem {m : OrderedMap α β} {k : α} (h : k ∉ m.keys) (v : β) :
    (m.insert k v).toList = m.toList ++ [(k, v)] :=
  put_of_notMem h v

theorem toList_extend {l : List (α × β)} {m : OrderedMap α β}
    (h : (m.keys ++ l.map Prod.fst).Nodup) : (m.extend l).toList = m.toList ++ l := by
  induction l generalizing m with
  | nil => exact (List.append_nil _).symm
  | cons p rest ih =>
    obtain ⟨k, v⟩ := p
    rw [List.map_cons] at h
    have hnew : k ∉ m.keys := fun hk =>
      (List.nodup_append.mp h).2.2 k hk k List.mem_cons_self rfl
    have hkeys : (m.insert k v).keys = m.keys ++ [k] := by rw [keys_insert, if_neg hnew]
    show ((m.insert k v).extend rest).toList = _
    rw [ih, toList_insert_of_notMem hnew, List.append_assoc]
    · rfl
    · rw [hkeys, List.append_assoc]
      exact h

/-- Entries under different names are all listed. -/
theorem toList_ofList {l : List (α × β)} (h : (l.map Prod.fst).Nodup) : (ofList l).toList = l :=
  toList_extend (m := empty) h

/-- Only what is inserted is added. -/
theorem mem_of_mem_extend {l : List (α × β)} {m : OrderedMap α β} {p : α × β}
    (h : p ∈ (m.extend l).toList) : p ∈ m.toList ∨ p ∈ l := by
  induction l generalizing m with
  | nil => exact .inl h
  | cons e rest ih =>
    rcases ih (m := m.insert e.1 e.2) h with h | h
    · rcases mem_insert.mp h with ⟨hk, hv⟩ | ⟨_, h⟩
      · exact .inr (List.mem_cons.mpr (.inl (Prod.ext hk hv)))
      · exact .inl h
    · exact .inr (List.mem_cons_of_mem _ h)

theorem mem_of_mem_ofList {l : List (α × β)} {p : α × β} (h : p ∈ (ofList l).toList) : p ∈ l :=
  (mem_of_mem_extend h).resolve_left List.not_mem_nil

/-- Merging maps is inserting all of their entries. -/
theorem foldl_merge (maps : List (OrderedMap α β)) (m : OrderedMap α β) :
    maps.foldl merge m = m.extend (maps.flatMap toList) := by
  induction maps generalizing m with
  | nil => rfl
  | cons n rest ih =>
    rw [List.foldl_cons, ih, List.flatMap_cons, extend, extend, List.foldl_append]
    rfl

theorem mergeAll_eq_ofList (maps : List (OrderedMap α β)) :
    mergeAll maps = ofList (maps.flatMap toList) :=
  foldl_merge maps empty

/-- What a merge has comes from one of the maps. -/
theorem exists_of_mem_mergeAll {maps : List (OrderedMap α β)} {p : α × β}
    (h : p ∈ (mergeAll maps).toList) : ∃ m ∈ maps, p ∈ m.toList := by
  rw [mergeAll_eq_ofList] at h
  exact List.mem_flatMap.mp (mem_of_mem_ofList h)

theorem flatMap_put {γ : Type} {f : α × β → List γ} {k : α} {v : β} (hv : f (k, v) = [])
    {l : List (α × β)} (hold : ∀ b, (k, b) ∈ l → f (k, b) = []) :
    (put k v l).flatMap f = l.flatMap f := by
  induction l with
  | nil => simp [put, hv]
  | cons p rest ih =>
    obtain ⟨a, b⟩ := p
    by_cases h : a = k
    · subst h
      simp [put, hv, hold b List.mem_cons_self]
    · rw [put, if_neg h, List.flatMap_cons, List.flatMap_cons,
        ih fun b hb => hold b (List.mem_cons_of_mem _ hb)]

/-- Changing the value at a key leaves the others alone. -/
def adjustEntry (k : α) (f : β → β) (e : α × β) : α × β := if e.1 = k then (e.1, f e.2) else e

theorem map_adjustEntry_of_notMem {k : α} (f : β → β) {l : List (α × β)}
    (h : k ∉ l.map Prod.fst) : l.map (adjustEntry k f) = l := by
  refine (List.map_congr_left fun e he => ?_).trans l.map_id
  refine if_neg fun hk => h ?_
  rw [← hk]
  exact List.mem_map.mpr ⟨e, he, rfl⟩

theorem adjustEntry_fst (k : α) (f : β → β) (e : α × β) : (adjustEntry k f e).1 = e.1 := by
  unfold adjustEntry
  split <;> rfl

theorem adjustEntry_adjustEntry (k : α) (f g : β → β) (e : α × β) :
    adjustEntry k g (adjustEntry k f e) = adjustEntry k (g ∘ f) e := by
  by_cases h : e.1 = k <;> simp [adjustEntry, h]

theorem put_eq_map {k : α} (f : β → β) {v : β} {l : List (α × β)} (hl : (l.map Prod.fst).Nodup)
    (hv : lookup k l = some v) : put k (f v) l = l.map (adjustEntry k f) := by
  induction l with
  | nil => simp [lookup] at hv
  | cons p rest ih =>
    obtain ⟨a, b⟩ := p
    obtain ⟨ha, hrest⟩ := List.nodup_cons.mp hl
    by_cases h : a = k
    · subst h
      rw [lookup, if_pos rfl, Option.some.injEq] at hv
      rw [put, if_pos rfl, List.map_cons, map_adjustEntry_of_notMem f ha, adjustEntry,
        if_pos rfl, hv]
    · rw [lookup, if_neg h] at hv
      rw [put, if_neg h, ih hrest hv, List.map_cons, adjustEntry, if_neg h]

/-- Inserting where the key is new adds an entry if there is none. -/
theorem toList_insertNew (m : OrderedMap α β) (k : α) (v : β) :
    (m.insertNew k v).toList = if k ∈ m.keys then m.toList else m.toList ++ [(k, v)] := by
  unfold insertNew contains
  cases h : m.get? k with
  | none =>
    have hnew := get?_eq_none.mp h
    rw [if_neg hnew, ← toList_insert_of_notMem hnew]
    rfl
  | some w =>
    have hold : k ∈ m.keys := Decidable.byContradiction fun hnew => by
      rw [get?_eq_none.mpr hnew] at h
      cases h
    rw [if_pos hold]
    rfl

theorem keys_insertNew (m : OrderedMap α β) (k : α) (v : β) :
    (m.insertNew k v).keys = if k ∈ m.keys then m.keys else m.keys ++ [k] := by
  show (m.insertNew k v).toList.map Prod.fst = _
  rw [toList_insertNew]
  split
  · rfl
  · exact List.map_append

theorem mem_keys_insertNew {m : OrderedMap α β} {k a : α} {v : β} :
    a ∈ (m.insertNew k v).keys ↔ a = k ∨ a ∈ m.keys := by
  rw [keys_insertNew]
  split
  case isTrue h =>
    constructor
    · exact .inr
    · intro ha
      rcases ha with rfl | ha
      · exact h
      · exact ha
  case isFalse => rw [List.mem_append, List.mem_singleton, or_comm]

theorem get?_insertNew (m : OrderedMap α β) (k a : α) (v : β) :
    (m.insertNew k v).get? a = (m.get? a).or (if k = a then some v else none) := by
  unfold insertNew contains
  cases hk : m.get? k with
  | none =>
    rw [Option.isSome_none, if_neg Bool.false_ne_true, get?_insert]
    by_cases h : k = a
    · subst h
      simp [hk]
    · simp [h]
  | some w =>
    rw [Option.isSome_some, if_pos rfl]
    by_cases h : k = a
    · subst h
      simp [hk]
    · simp [h]

theorem eraseDups_of_nodup {l : List α} (h : l.Nodup) : l.eraseDups = l := by
  induction l with
  | nil => rfl
  | cons a rest ih =>
    obtain ⟨ha, hrest⟩ := List.nodup_cons.mp h
    have hfilter : (rest.filter fun b => !b == a) = rest := by
      refine List.filter_eq_self.mpr fun b hb => ?_
      have hne : b ≠ a := fun h => ha (h ▸ hb)
      simp [hne]
    rw [List.eraseDups_cons, hfilter, ih hrest]

/-- Steps that each add a key, unless it is there, give every key once, where it first occurs. -/
theorem keys_foldl {γ : Type} {step : OrderedMap α β → γ → OrderedMap α β} {key : γ → α}
    (hstep : ∀ m c, (step m c).keys = if key c ∈ m.keys then m.keys else m.keys ++ [key c])
    (l : List γ) : (l.foldl step .empty).keys = (l.map key).eraseDups := by
  suffices hfold : ∀ m, (l.foldl step m).keys = (m.keys ++ l.map key).eraseDups from hfold .empty
  induction l with
  | nil =>
    intro m
    rw [List.map_nil, List.append_nil]
    exact (eraseDups_of_nodup m.nodup).symm
  | cons c rest ih =>
    intro m
    rw [List.foldl_cons, ih, hstep, List.map_cons]
    by_cases hc : key c ∈ m.keys
    · rw [if_pos hc, List.eraseDups_append, List.eraseDups_append, List.cons_removeAll,
        List.contains_iff_mem.mpr hc]
      rfl
    · rw [if_neg hc, List.append_assoc]
      rfl

/-- Inserting entries one by one gives every key once, where it first occurs. -/
theorem keys_ofList (l : List (α × β)) : (ofList l).keys = (l.map Prod.fst).eraseDups :=
  keys_foldl (fun m e => keys_insert m e.1 e.2) l

theorem nodup_eraseDups {γ : Type} [BEq γ] [LawfulBEq γ] : (l : List γ) → l.eraseDups.Nodup
  | [] => .nil
  | c :: rest => by
    rw [List.eraseDups_cons, List.nodup_cons, List.mem_eraseDups, List.mem_filter]
    exact ⟨fun hc => by simp at hc, nodup_eraseDups _⟩
termination_by l => l.length
decreasing_by exact Nat.lt_succ_of_le (List.length_filter_le _ _)

theorem eraseDups_sublist : (l : List α) → l.eraseDups.Sublist l
  | [] => .refl []
  | a :: rest => by
    rw [List.eraseDups_cons]
    exact ((eraseDups_sublist _).trans List.filter_sublist).cons_cons a
termination_by l => l.length
decreasing_by exact Nat.lt_succ_of_le (List.length_filter_le _ _)

/-- None is left out exactly if none is there twice. -/
theorem length_eraseDups_eq_iff {l : List α} : l.eraseDups.length = l.length ↔ l.Nodup := by
  constructor
  · intro h
    rw [← (eraseDups_sublist l).eq_of_length h]
    exact nodup_eraseDups l
  · intro h
    rw [eraseDups_of_nodup h]

theorem ofList_concat (l : List (α × β)) (k : α) (v : β) :
    ofList (l ++ [(k, v)]) = (ofList l).insert k v :=
  List.foldl_concat _ _ _ _

/-- Of several entries under a key the last one counts. -/
theorem get?_ofList (l : List (α × β)) (k : α) : (ofList l).get? k = lookup k l.reverse := by
  induction l using List.reverseRecOn with
  | nil => rfl
  | append_singleton before e ih =>
    rw [ofList_concat, get?_insert, ih, List.reverse_concat]
    rfl

theorem toList_adjust (m : OrderedMap α β) (k : α) (f : β → β) :
    (m.adjust k f).toList = m.toList.map (adjustEntry k f) := by
  unfold adjust
  cases h : m.get? k with
  | none => exact (map_adjustEntry_of_notMem f (get?_eq_none.mp h)).symm
  | some v => exact put_eq_map f m.nodup h

theorem keys_adjust (m : OrderedMap α β) (k : α) (f : β → β) : (m.adjust k f).keys = m.keys := by
  show (m.adjust k f).toList.map Prod.fst = m.toList.map Prod.fst
  rw [toList_adjust, List.map_map]
  exact List.map_congr_left fun e _ => adjustEntry_fst k f e

/-! ### Two maps of the same keys -/

/-- Two maps have the same keys in the same order, and related values at each of them. -/
structure Rel {γ : Type} (r : α → β → γ → Prop) (m : OrderedMap α β) (n : OrderedMap α γ) :
    Prop where
  keys : m.keys = n.keys
  values : ∀ k a b, m.get? k = some a → n.get? k = some b → r k a b

namespace Rel

variable {γ : Type} {r s : α → β → γ → Prop} {m : OrderedMap α β} {n : OrderedMap α γ}

theorem imp (h : Rel r m n)
    (hrs : ∀ k a b, m.get? k = some a → n.get? k = some b → r k a b → s k a b) : Rel s m n :=
  ⟨h.keys, fun k a b ha hb => hrs k a b ha hb (h.values k a b ha hb)⟩

theorem empty : Rel r (empty : OrderedMap α β) (OrderedMap.empty : OrderedMap α γ) :=
  ⟨rfl, fun _ _ _ h => nomatch h⟩

theorem get? (h : Rel r m n) (k : α) : Option.Rel (r k) (m.get? k) (n.get? k) := by
  cases hm : m.get? k with
  | none =>
    rw [get?_eq_none, h.keys, ← get?_eq_none] at hm
    rw [hm]
    exact .none
  | some a =>
    cases hn : n.get? k with
    | none =>
      rw [get?_eq_none, ← h.keys, ← get?_eq_none, hm] at hn
      cases hn
    | some b => exact .some (h.values k a b hm hn)

theorem exists_of_get? (h : Rel r m n) {k : α} {a : β} (ha : m.get? k = some a) :
    ∃ b, n.get? k = some b ∧ r k a b := by
  have hget := h.get? k
  rw [ha] at hget
  cases hn : n.get? k with
  | none =>
    rw [hn] at hget
    cases hget
  | some b => exact ⟨b, rfl, h.values k a b ha hn⟩

theorem get?_eq_none_iff (h : Rel r m n) {k : α} : m.get? k = none ↔ n.get? k = none := by
  rw [get?_eq_none, get?_eq_none, h.keys]

theorem insert (h : Rel r m n) (k : α) {a : β} {b : γ} (hab : r k a b) :
    Rel r (m.insert k a) (n.insert k b) := by
  constructor
  · rw [keys_insert, keys_insert, h.keys]
  · intro j a' b' ha hb
    rw [get?_insert] at ha hb
    by_cases hk : k = j
    · subst hk
      rw [if_pos rfl] at ha hb
      cases ha
      cases hb
      exact hab
    · rw [if_neg hk] at ha hb
      exact h.values j a' b' ha hb

/-- The entries correspond one by one. -/
theorem forall₂_toList (h : Rel r m n) :
    List.Forall₂ (fun x y => x.1 = y.1 ∧ r x.1 x.2 y.2) m.toList n.toList := by
  have hkeys : List.Forall₂ (fun x y => x.1 = y.1) m.toList n.toList := by
    have heq : List.Forall₂ (· = ·) m.keys n.keys := by
      rw [List.forall₂_eq_eq_eq]
      exact h.keys
    rwa [OrderedMap.keys, OrderedMap.keys, List.forall₂_map_left_iff,
      List.forall₂_map_right_iff] at heq
  have hleft := (List.forall₂_and_left (p := fun x => x ∈ m.toList) _ _).mpr
    ⟨fun _ => id, hkeys⟩
  have hboth := (List.forall₂_and_left (p := fun y => y ∈ n.toList) _ _).mpr
    ⟨fun _ => id, hleft.flip⟩
  refine hboth.flip.imp fun x y hxy => ?_
  obtain ⟨hy, hx, heq⟩ := hxy
  obtain ⟨k, a⟩ := x
  obtain ⟨k', b⟩ := y
  cases heq
  exact ⟨rfl, h.values k a b (get?_eq_some.mpr hx) (get?_eq_some.mpr hy)⟩

/-- Values that are related whatever their key is correspond one by one. -/
theorem forall₂_values {q : β → γ → Prop} (h : Rel r m n) (hrq : ∀ k a b, r k a b → q a b) :
    List.Forall₂ q m.values n.values := by
  rw [values_eq_map, values_eq_map, List.forall₂_map_left_iff, List.forall₂_map_right_iff]
  exact h.forall₂_toList.imp fun _ _ hxy => hrq _ _ _ hxy.2

end Rel

/-- Maps are equal if they have the same keys in the same order, with the same values. -/
theorem ext_get? {m n : OrderedMap α β} (hkeys : m.keys = n.keys)
    (hget : ∀ k, m.get? k = n.get? k) : m = n := by
  have hrel : Rel (fun _ a b => a = b) m n := by
    refine ⟨hkeys, fun k a b ha hb => ?_⟩
    rw [hget, hb] at ha
    exact (Option.some.inj ha).symm
  have hentries : m.toList = n.toList := by
    rw [← List.forall₂_eq_eq_eq]
    exact hrel.forall₂_toList.imp fun _ _ h => Prod.ext h.1 h.2
  obtain ⟨entries, _⟩ := m
  obtain ⟨_, _⟩ := n
  cases hentries
  rfl

/-! ### Merging -/

theorem keys_extend {l : List (α × β)} {m : OrderedMap α β} (hl : (l.map Prod.fst).Nodup) :
    (m.extend l).keys = m.keys ++ (l.map Prod.fst).filter fun k => k ∉ m.keys := by
  induction l generalizing m with
  | nil => exact (List.append_nil _).symm
  | cons e rest ih =>
    obtain ⟨k, v⟩ := e
    obtain ⟨hk, hrest⟩ := List.nodup_cons.mp hl
    show ((m.insert k v).extend rest).keys = _
    rw [ih hrest, keys_insert, List.map_cons, List.filter_cons]
    by_cases hm : k ∈ m.keys
    · simp [hm]
    · have hnew : (rest.map Prod.fst).filter (fun a => a ∉ m.keys ++ [k]) =
          (rest.map Prod.fst).filter fun a => a ∉ m.keys := by
        refine List.filter_congr fun a ha => ?_
        have hne : a ≠ k := fun h => hk (h ▸ ha)
        simp [hne]
      rw [if_neg hm, hnew]
      simp [hm]

theorem get?_extend {l : List (α × β)} {m : OrderedMap α β} (hl : (l.map Prod.fst).Nodup)
    (k : α) : (m.extend l).get? k = (lookup k l).or (m.get? k) := by
  induction l generalizing m with
  | nil => rfl
  | cons e rest ih =>
    obtain ⟨a, v⟩ := e
    obtain ⟨ha, hrest⟩ := List.nodup_cons.mp hl
    show ((m.insert a v).extend rest).get? k = _
    rw [ih hrest, get?_insert, lookup]
    by_cases h : a = k
    · subst h
      rw [lookup_eq_none.mpr ha, if_pos rfl, if_pos rfl]
      rfl
    · rw [if_neg h, if_neg h]

/-- A merge has the keys of the first map, and then those that only the second one has. -/
theorem keys_merge (m n : OrderedMap α β) :
    (m.merge n).keys = m.keys ++ n.keys.filter fun k => k ∉ m.keys :=
  keys_extend n.nodup

/-- The second map counts where both have a value. -/
theorem get?_merge (m n : OrderedMap α β) (k : α) :
    (m.merge n).get? k = (n.get? k).or (m.get? k) :=
  get?_extend n.nodup k

theorem merge_assoc (l m n : OrderedMap α β) : (l.merge m).merge n = l.merge (m.merge n) := by
  apply ext_get?
  · simp only [keys_merge, List.filter_append, List.filter_filter, List.append_assoc]
    congr 2
    refine List.filter_congr fun k _ => ?_
    by_cases hl : k ∈ l.keys <;> by_cases hm : k ∈ m.keys <;> simp [hl, hm]
  · intro k
    rw [get?_merge, get?_merge, get?_merge, get?_merge, Option.or_assoc]

/-- Maps that are merged first are merged in one by one. -/
theorem merge_mergeAll (m : OrderedMap α β) (maps : List (OrderedMap α β)) :
    m.merge (mergeAll maps) = maps.foldl merge m := by
  induction maps using List.reverseRecOn with
  | nil => rfl
  | append_singleton before n ih =>
    rw [mergeAll, List.foldl_append, List.foldl_append, ← ih, List.foldl_cons, List.foldl_nil,
      List.foldl_cons, List.foldl_nil, merge_assoc]
    rfl

theorem mergeAll_pair (m : OrderedMap α β) (maps : List (OrderedMap α β)) :
    mergeAll [m, mergeAll maps] = mergeAll (m :: maps) :=
  merge_mergeAll (empty.merge m) maps

theorem mergeAll_concat (maps : List (OrderedMap α β)) (m : OrderedMap α β) :
    mergeAll (maps ++ [m]) = (mergeAll maps).merge m := by
  rw [mergeAll, List.foldl_append]
  rfl

/-- A merge has every key once, where it first occurs. -/
theorem keys_mergeAll (maps : List (OrderedMap α β)) :
    (mergeAll maps).keys = (maps.flatMap keys).eraseDups := by
  rw [mergeAll_eq_ofList, keys_ofList, List.map_flatMap]
  rfl

theorem findSome?_cons_eq_or {γ : Type} (f : γ → Option β) (a : γ) (rest : List γ) :
    (a :: rest).findSome? f = (f a).or (rest.findSome? f) := by
  rw [List.findSome?_cons]
  cases f a <;> rfl

/-- A merge has under a key what the last of the maps with the key has. -/
theorem get?_mergeAll (maps : List (OrderedMap α β)) (k : α) :
    (mergeAll maps).get? k = maps.reverse.findSome? fun m => m.get? k := by
  induction maps using List.reverseRecOn with
  | nil => rfl
  | append_singleton before n ih =>
    rw [mergeAll_concat, get?_merge, ih, List.reverse_concat, findSome?_cons_eq_or]

end Provision.OrderedMap
