/-! Sorting by insertion.

`sort` arranges a list by an order and keeps the sequence of elements that the order
does not tell apart. `ascending` arranges natural numbers and drops repetitions. -/
namespace Provision

variable {α : Type}

/-- Puts an element in front of the first one that it does not come after. -/
def insertSorted (le : α → α → Bool) (a : α) : List α → List α
  | [] => [a]
  | b :: rest => if le a b then a :: b :: rest else b :: insertSorted le a rest

def sort (le : α → α → Bool) (l : List α) : List α := l.foldr (insertSorted le) []

theorem insertSorted_perm (le : α → α → Bool) (a : α) (l : List α) :
    (insertSorted le a l).Perm (a :: l) := by
  induction l with
  | nil => exact .refl _
  | cons b rest ih =>
    unfold insertSorted
    split
    · exact .refl _
    · exact (ih.cons b).trans (.swap a b rest)

theorem sort_perm (le : α → α → Bool) (l : List α) : (sort le l).Perm l := by
  induction l with
  | nil => exact .refl _
  | cons a rest ih => exact (insertSorted_perm le a _).trans (ih.cons a)

theorem insertSorted_pairwise {le : α → α → Bool} (htotal : ∀ a b, le a b || le b a)
    (htrans : ∀ a b c, le a b → le b c → le a c) (a : α) {l : List α}
    (h : l.Pairwise fun x y => le x y) : (insertSorted le a l).Pairwise fun x y => le x y := by
  induction l with
  | nil => exact List.pairwise_singleton _ a
  | cons b rest ih =>
    obtain ⟨hb, hrest⟩ := List.pairwise_cons.mp h
    unfold insertSorted
    split
    case isTrue hab =>
      refine List.pairwise_cons.mpr ⟨fun c hc => ?_, h⟩
      rcases List.mem_cons.mp hc with rfl | hc
      · exact hab
      · exact htrans a b c hab (hb c hc)
    case isFalse hab =>
      refine List.pairwise_cons.mpr ⟨fun c hc => ?_, ih hrest⟩
      rcases List.mem_cons.mp ((insertSorted_perm le a rest).mem_iff.mp hc) with rfl | hc
      · have := htotal c b
        simp_all
      · exact hb c hc

theorem sort_pairwise {le : α → α → Bool} (htotal : ∀ a b, le a b || le b a)
    (htrans : ∀ a b c, le a b → le b c → le a c) (l : List α) :
    (sort le l).Pairwise fun x y => le x y := by
  induction l with
  | nil => exact .nil
  | cons a rest ih => exact insertSorted_pairwise htotal htrans a ih

/-! ### Sets of numbers -/

/-- Adds a number to an ascending list that does not have it yet. -/
def insertAscending (n : Nat) : List Nat → List Nat
  | [] => [n]
  | m :: rest =>
    if n < m then n :: m :: rest
    else if n = m then m :: rest
    else m :: insertAscending n rest

/-- The numbers of a list, each once, in ascending order. -/
def ascending (l : List Nat) : List Nat := l.foldr insertAscending []

theorem mem_insertAscending {n a : Nat} {l : List Nat} :
    a ∈ insertAscending n l ↔ a = n ∨ a ∈ l := by
  induction l with
  | nil => simp [insertAscending]
  | cons m rest ih =>
    unfold insertAscending
    split
    · simp
    · split
      case isTrue h => simp [h]
      case isFalse =>
        rw [List.mem_cons, ih, List.mem_cons]
        exact or_left_comm

theorem mem_ascending {a : Nat} {l : List Nat} : a ∈ ascending l ↔ a ∈ l := by
  induction l with
  | nil => simp [ascending]
  | cons n rest ih =>
    show a ∈ insertAscending n (ascending rest) ↔ _
    rw [mem_insertAscending, ih, List.mem_cons]

theorem insertAscending_pairwise (n : Nat) {l : List Nat} (h : l.Pairwise (· < ·)) :
    (insertAscending n l).Pairwise (· < ·) := by
  induction l with
  | nil => exact List.pairwise_singleton _ n
  | cons m rest ih =>
    obtain ⟨hm, hrest⟩ := List.pairwise_cons.mp h
    unfold insertAscending
    split
    case isTrue hnm =>
      refine List.pairwise_cons.mpr ⟨fun c hc => ?_, h⟩
      rcases List.mem_cons.mp hc with rfl | hc
      · exact hnm
      · exact Nat.lt_trans hnm (hm c hc)
    case isFalse hnm =>
      split
      · exact h
      · refine List.pairwise_cons.mpr ⟨fun c hc => ?_, ih hrest⟩
        rcases mem_insertAscending.mp hc with rfl | hc
        · omega
        · exact hm c hc

theorem ascending_pairwise (l : List Nat) : (ascending l).Pairwise (· < ·) := by
  induction l with
  | nil => exact .nil
  | cons n rest ih => exact insertAscending_pairwise n ih

end Provision
