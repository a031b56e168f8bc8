import Mathlib.Algebra.BigOperators.Group.List.Basic
import Mathlib.Algebra.Ring.Nat

/-! Scanners.

A scanner takes a text apart character by character: after each one it has some tokens that are
complete and is in some state. If a character adds at most one to the weight of what was read,
then a text weighs at most as much as it has characters, and less if one of them adds nothing. -/
namespace Provision

variable {σ τ : Type} {step : σ → Char → Option (List τ × σ)}

/-- The tokens that are complete after some characters, and the state behind them. -/
def scanBy (step : σ → Char → Option (List τ × σ)) (s : σ) : List Char → Option (List τ × σ)
  | [] => some ([], s)
  | c :: cs => do
    let (before, s) ← step s c
    let (after, s) ← scanBy step s cs
    return (before ++ after, s)

theorem scanBy_append (s : σ) (a b : List Char) :
    scanBy step s (a ++ b) = (scanBy step s a).bind fun first =>
      (scanBy step first.2 b).map fun second => (first.1 ++ second.1, second.2) := by
  induction a generalizing s with
  | nil => simp [scanBy]
  | cons c a ih =>
    simp only [List.cons_append, scanBy, ih]
    rcases step s c with _ | ⟨before, s₁⟩
    · rfl
    · rcases hscan : scanBy step s₁ a with _ | ⟨after, s₂⟩
      · simp [hscan]
      · cases hrest : scanBy step s₂ b <;> simp [hscan, hrest]

theorem scanBy_append_of_scanBy {s s₁ : σ} {a : List Char} {tokens : List τ}
    (h : scanBy step s a = some (tokens, s₁)) (b : List Char) :
    scanBy step s (a ++ b) =
      (scanBy step s₁ b).map fun rest => (tokens ++ rest.1, rest.2) := by
  rw [scanBy_append, h, Option.bind_some]

/-! ### Weights -/

/-- What complete tokens and a state weigh. -/
def weigh (token : τ → Nat) (state : σ → Nat) (r : List τ × σ) : Nat :=
  (r.1.map token).sum + state r.2

section Weights
variable {token : τ → Nat} {state : σ → Nat}

theorem weigh_append (tokens : List τ) (r : List τ × σ) :
    weigh token state (tokens ++ r.1, r.2) = (tokens.map token).sum + weigh token state r := by
  simp [weigh, Nat.add_assoc]

theorem weigh_scanBy
    (hstep : ∀ s c r, step s c = some r → weigh token state r ≤ state s + 1)
    {s : σ} {cs : List Char} {r : List τ × σ} (h : scanBy step s cs = some r) :
    weigh token state r ≤ state s + cs.length := by
  induction cs generalizing s r with
  | nil =>
    cases h
    simp [weigh]
  | cons c cs ih =>
    obtain ⟨first, hfirst, h⟩ := Option.bind_eq_some_iff.mp h
    obtain ⟨rest, hrest, h⟩ := Option.bind_eq_some_iff.mp h
    cases h
    have hone := hstep s c first hfirst
    have hall := ih hrest
    rw [weigh_append, List.length_cons]
    unfold weigh at hone
    omega

/-- A character that adds nothing is lost. Such characters are those that do not keep the scanner
in some states. -/
theorem weigh_scanBy_lt {p : σ → Prop} {q : Char → Prop}
    (hstep : ∀ s c r, step s c = some r → weigh token state r ≤ state s + 1)
    (hkept : ∀ s c r, p s → q c → step s c = some r → p r.2)
    (hlost : ∀ s c r, p s → ¬ q c → step s c = some r → weigh token state r ≤ state s)
    {s : σ} {cs : List Char} {r : List τ × σ} (hs : p s) (h : scanBy step s cs = some r)
    (hcs : ¬ ∀ c ∈ cs, q c) : weigh token state r < state s + cs.length := by
  induction cs generalizing s r with
  | nil => exact absurd (fun _ hc => absurd hc List.not_mem_nil) hcs
  | cons c cs ih =>
    obtain ⟨first, hfirst, h⟩ := Option.bind_eq_some_iff.mp h
    obtain ⟨rest, hrest, h⟩ := Option.bind_eq_some_iff.mp h
    cases h
    rw [weigh_append, List.length_cons]
    by_cases hc : q c
    · have hone := hstep s c first hfirst
      have hless := ih (hkept s c first hs hc hfirst) hrest fun hall =>
        hcs (List.forall_mem_cons.mpr ⟨hc, hall⟩)
      unfold weigh at hone
      omega
    · have hnone := hlost s c first hs hc hfirst
      have hall := weigh_scanBy hstep hrest
      unfold weigh at hnone
      omega

end Weights

end Provision
