import Mathlib.Data.List.Induction
import Provision.Proofs.Data.OrderedMap

/-! Constructions by calls.

Graphs are built call by call. A call can give out a number, and the numbers that a caller can
refer to are those that were given out before: calls that keep to this are admissible. What holds
after all admissible calls is shown by one more call at the end, as callers see the calls that
were made already and not those to come. Where names are unique, what is kept under a name is the
first that was declared with it. -/
namespace Provision

/-- Something that is built by calls. -/
structure Construction (σ κ : Type) where
  start : σ
  /-- The numbers that are there before the first call. -/
  known : List Nat
  /-- The number that a call gives out, if it does, and what the call leads to. -/
  call : σ → κ → Option Nat × σ
  /-- The numbers that a call refers to. -/
  refersTo : κ → List Nat

namespace Construction

variable {σ κ : Type} (C : Construction σ κ)

/-- What is built so far, with the numbers that were given out. -/
def advance (s : σ × List Nat) (c : κ) : σ × List Nat :=
  ((C.call s.1 c).2, s.2 ++ (C.call s.1 c).1.toList)

def session (calls : List κ) : σ × List Nat := calls.foldl C.advance (C.start, C.known)

/-- What calls lead to. -/
def run (calls : List κ) : σ := (C.session calls).1

/-- The numbers that a caller has after calls. -/
def given (calls : List κ) : List Nat := (C.session calls).2

/-- Every call refers only to numbers that the caller has by then. -/
def AdmissibleFrom (s : σ × List Nat) : List κ → Prop
  | [] => True
  | c :: rest => (∀ n ∈ C.refersTo c, n ∈ s.2) ∧ AdmissibleFrom (C.advance s c) rest

def Admissible (calls : List κ) : Prop := C.AdmissibleFrom (C.start, C.known) calls

instance (s : σ × List Nat) : (calls : List κ) → Decidable (C.AdmissibleFrom s calls)
  | [] => inferInstanceAs (Decidable True)
  | c :: rest =>
    have := instDecidableAdmissibleFrom (C.advance s c) rest
    inferInstanceAs (Decidable ((∀ n ∈ C.refersTo c, n ∈ s.2) ∧ _))

instance (calls : List κ) : Decidable (C.Admissible calls) :=
  inferInstanceAs (Decidable (C.AdmissibleFrom (C.start, C.known) calls))

variable {C}

theorem run_concat (calls : List κ) (c : κ) :
    C.run (calls ++ [c]) = (C.call (C.run calls) c).2 := by
  rw [run, session, List.foldl_concat]
  rfl

theorem given_concat (calls : List κ) (c : κ) :
    C.given (calls ++ [c]) = C.given calls ++ (C.call (C.run calls) c).1.toList := by
  rw [given, session, List.foldl_concat]
  rfl

theorem admissibleFrom_append {s : σ × List Nat} {before after : List κ} :
    C.AdmissibleFrom s (before ++ after) ↔
      C.AdmissibleFrom s before ∧ C.AdmissibleFrom (before.foldl C.advance s) after := by
  induction before generalizing s with
  | nil => exact (and_iff_right trivial).symm
  | cons c rest ih =>
    rw [List.cons_append, AdmissibleFrom, AdmissibleFrom, ih, and_assoc]
    rfl

theorem admissible_append {before after : List κ} : C.Admissible (before ++ after) ↔
    C.Admissible before ∧ C.AdmissibleFrom (C.session before) after :=
  admissibleFrom_append

theorem Admissible.concat {before : List κ} {c : κ} (h : C.Admissible before)
    (hc : ∀ n ∈ C.refersTo c, n ∈ C.given before) : C.Admissible (before ++ [c]) :=
  admissible_append.mpr ⟨h, hc, trivial⟩

/-- What holds at the start and after one more admissible call holds after all of them. -/
theorem Admissible.induction {motive : (calls : List κ) → C.Admissible calls → Prop}
    (nil : motive [] trivial)
    (concat : ∀ before c (h : C.Admissible before)
      (hc : ∀ n ∈ C.refersTo c, n ∈ C.given before), motive before h →
        motive (before ++ [c]) (h.concat hc))
    {calls : List κ} (h : C.Admissible calls) : motive calls h := by
  induction calls using List.reverseRecOn with
  | nil => exact nil
  | append_singleton before c ih =>
    obtain ⟨hbefore, hc, _⟩ := admissible_append.mp h
    exact concat before c hbefore hc (ih hbefore)

/-- Two constructions stay in step if every call keeps them in step and gives out one number. -/
theorem Admissible.inStep {σ' : Type} {C' : Construction σ' κ} (r : σ' → σ → Prop)
    (hstart : r C'.start C.start) (hknown : C'.known = C.known)
    (hcall : ∀ before c s', C.Admissible before → r s' (C.run before) →
      (C'.call s' c).1 = (C.call (C.run before) c).1 ∧
        r (C'.call s' c).2 (C.call (C.run before) c).2)
    {calls : List κ} (h : C.Admissible calls) :
    r (C'.run calls) (C.run calls) ∧ C'.given calls = C.given calls := by
  induction h using Admissible.induction with
  | nil => exact ⟨hstart, hknown⟩
  | concat before c hbefore _ ih =>
    obtain ⟨hid, hstep⟩ := hcall before c _ hbefore ih.1
    rw [run_concat, run_concat, given_concat, given_concat, ih.2, hid]
    exact ⟨hstep, rfl⟩

/-- The numbers that are given out are those below a count. -/
structure Counts (C : Construction σ κ) (count : σ → Nat) : Prop where
  start : ∀ n, n ∈ C.known ↔ n < count C.start
  call : ∀ s c n, n < count s ∨ n ∈ (C.call s c).1.toList ↔ n < count (C.call s c).2

namespace Counts

variable {count : σ → Nat} (h : C.Counts count)
include h

theorem mem_given {calls : List κ} {n : Nat} :
    n ∈ C.given calls ↔ n < count (C.run calls) := by
  induction calls using List.reverseRecOn with
  | nil => exact h.start n
  | append_singleton before c ih =>
    rw [given_concat, run_concat, List.mem_append, ih]
    exact h.call _ c n

/-- What every call keeps up that refers only to numbers below the count is so after all
admissible calls. -/
theorem holds_run {holds : σ → List κ → Prop} (nil : holds C.start [])
    (concat : ∀ s before c, holds s before → (∀ n ∈ C.refersTo c, n < count s) →
      holds (C.call s c).2 (before ++ [c]))
    {calls : List κ} (hcalls : C.Admissible calls) : holds (C.run calls) calls := by
  induction hcalls using Admissible.induction with
  | nil => exact nil
  | concat before c _ hc ih =>
    rw [run_concat]
    exact concat _ before c ih fun n hn => h.mem_given.mp (hc n hn)

end Counts

/-- A relation between what is built and what every call leads to from it holds between what some
calls lead to and what more calls lead to. -/
theorem rel_run_append {r : σ → σ → Prop} (hrefl : ∀ s, r s s)
    (htrans : ∀ s₁ s₂ s₃, r s₁ s₂ → r s₂ s₃ → r s₁ s₃) (hcall : ∀ s c, r s (C.call s c).2)
    (before after : List κ) : r (C.run before) (C.run (before ++ after)) := by
  induction after using List.reverseRecOn with
  | nil =>
    rw [List.append_nil]
    exact hrefl _
  | append_singleton between c ih =>
    rw [← List.append_assoc, run_concat]
    exact htrans _ _ _ ih (hcall _ c)

end Construction

/-! ### First occurrences -/

section
variable {α β : Type} [DecidableEq α] [DecidableEq β]

theorem eraseDups_concat {γ : Type} [BEq γ] [LawfulBEq γ] (l : List γ) (a : γ) :
    (l ++ [a]).eraseDups = if a ∈ l then l.eraseDups else l.eraseDups ++ [a] := by
  rw [List.eraseDups_append, List.cons_removeAll]
  by_cases h : a ∈ l
  · simp [h, List.removeAll]
  · simp [h, List.removeAll, List.eraseDups_cons]

theorem filter_eraseDups (p : α → Bool) (l : List α) :
    l.eraseDups.filter p = (l.filter p).eraseDups := by
  induction l using List.reverseRecOn with
  | nil => rfl
  | append_singleton before a ih =>
    rw [eraseDups_concat, List.filter_append, List.filter_singleton]
    by_cases hp : p a
    · rw [hp, cond_true, eraseDups_concat, ← ih]
      by_cases ha : a ∈ before <;> simp [ha, hp]
    · rw [Bool.not_eq_true] at hp
      rw [hp, cond_false, List.append_nil, ← ih]
      by_cases ha : a ∈ before <;> simp [ha, hp]

/-- Elements that a function tells apart repeat where their images do. -/
theorem map_eraseDups {f : α → β} {l : List α} (hf : ∀ a ∈ l, ∀ b ∈ l, f a = f b → a = b) :
    l.eraseDups.map f = (l.map f).eraseDups := by
  induction l using List.reverseRecOn with
  | nil => rfl
  | append_singleton before a ih =>
    have hmem : f a ∈ before.map f ↔ a ∈ before := by
      refine ⟨fun h => ?_, List.mem_map_of_mem⟩
      obtain ⟨b, hb, heq⟩ := List.mem_map.mp h
      rwa [← hf b (List.mem_append_left _ hb) a (List.mem_append_right _ List.mem_cons_self) heq]
    rw [eraseDups_concat, List.map_append, List.map_singleton, eraseDups_concat,
      ← ih fun b hb c hc => hf b (List.mem_append_left _ hb) c (List.mem_append_left _ hc)]
    by_cases ha : a ∈ before
    · rw [if_pos ha, if_pos (hmem.mpr ha)]
    · rw [if_neg ha, if_neg (mt hmem.mp ha)]
      exact List.map_append

end

/-! ### Names -/

/-- An index of names stays in step when something is added under a new name. -/
theorem get?_insert_eq_findIdx? {β : Type} {name : β → String} {kept : Array β}
    {index : OrderedMap String Nat}
    (h : ∀ n, index.get? n = kept.findIdx? fun b => name b == n) {b : β}
    (hb : index.get? (name b) = none) (n : String) :
    (index.insert (name b) kept.size).get? n = (kept.push b).findIdx? fun b => name b == n := by
  rw [OrderedMap.get?_insert, Array.findIdx?_push, ← h]
  by_cases hn : name b = n
  · subst hn
    rw [hb, if_pos rfl, if_pos (beq_self_eq_true _)]
    rfl
  · rw [if_neg hn, if_neg (by simpa using hn), Option.or_none]

/-- Of what is declared the first of each name is kept. -/
structure KeepsFirst {β : Type} (name : β → String) (declared : List β) (kept : Array β) :
    Prop where
  names : kept.toList.map name = (declared.map name).eraseDups
  first : ∀ b ∈ kept, declared.find? (fun d => name d == name b) = some b

namespace KeepsFirst

variable {β : Type} {name : β → String} {declared : List β} {kept : Array β}

theorem empty : KeepsFirst name [] #[] := ⟨rfl, fun b hb => absurd hb (Array.not_mem_empty b)⟩

/-- No two have one name. -/
theorem nodup (h : KeepsFirst name declared kept) : (kept.toList.map name).Nodup := by
  rw [h.names]
  exact OrderedMap.nodup_eraseDups _

theorem find?_concat (h : KeepsFirst name declared kept) (b : β) :
    ∀ k ∈ kept, (declared ++ [b]).find? (fun d => name d == name k) = some k := by
  intro k hk
  rw [List.find?_append, h.first k hk]
  rfl

/-- What is declared under a name that is taken is not kept. -/
theorem again (h : KeepsFirst name declared kept) {b : β} (hb : name b ∈ kept.toList.map name) :
    KeepsFirst name (declared ++ [b]) kept where
  names := by
    rw [h.names, List.mem_eraseDups] at hb
    rw [List.map_append, List.map_singleton, eraseDups_concat, if_pos hb, h.names]
  first := h.find?_concat b

theorem push (h : KeepsFirst name declared kept) {b : β} (hb : name b ∉ kept.toList.map name) :
    KeepsFirst name (declared ++ [b]) (kept.push b) where
  names := by
    have hnew := hb
    rw [h.names, List.mem_eraseDups] at hnew
    rw [List.map_append, List.map_singleton, eraseDups_concat, if_neg hnew, Array.toList_push,
      List.map_append, h.names]
    rfl
  first k hk := by
    rcases Array.mem_push.mp hk with hk | rfl
    · exact h.find?_concat b k hk
    · have hnone : declared.find? (fun d => name d == name k) = none := by
        refine List.find?_eq_none.mpr fun d hd heq => hb ?_
        rw [h.names, List.mem_eraseDups, ← eq_of_beq heq]
        exact List.mem_map_of_mem hd
      rw [List.find?_append, hnone, List.find?_singleton, beq_self_eq_true]
      rfl

/-- Looking for a name is the inverse of looking at the name. -/
theorem findIdx?_eq_some (h : KeepsFirst name declared kept) {n : String} {i : Nat} :
    kept.findIdx? (fun b => name b == n) = some i ↔ ∃ b, kept[i]? = some b ∧ name b = n := by
  rw [Array.findIdx?_eq_some_iff_getElem]
  constructor
  · rintro ⟨hi, hname, _⟩
    exact ⟨kept[i], Array.getElem?_eq_getElem hi, eq_of_beq hname⟩
  · rintro ⟨b, hb, hname⟩
    obtain ⟨hi, rfl⟩ := Array.getElem?_eq_some_iff.mp hb
    refine ⟨hi, beq_iff_eq.mpr hname, fun j hj heq => Nat.ne_of_lt hj ?_⟩
    -- Two places with one name are the same place.
    have hsame : (kept.toList.map name)[j]? = (kept.toList.map name)[i]? := by
      rw [List.getElem?_map, List.getElem?_map, Array.getElem?_toList, Array.getElem?_toList, hb,
        Array.getElem?_eq_getElem (Nat.lt_trans hj hi), Option.map_some, Option.map_some, hname,
        eq_of_beq heq]
    exact (List.getElem?_inj (by simpa using Nat.lt_trans hj hi) h.nodup).mp hsame

theorem findIdx?_eq_none {n : String} :
    kept.findIdx? (fun b => name b == n) = none ↔ n ∉ kept.toList.map name := by
  simp [Array.findIdx?_eq_none_iff]

end KeepsFirst
end Provision
