import Mathlib.Order.Defs.Unbundled

/-! Programs on a state.

What a program does to a state is told by a relation between the state before and the state
after, whatever the program comes to. If the relation holds of no step and of steps one after the
other, it holds of a program if it holds of its parts. What holds once a program has succeeded
need only hold where it ends. -/
namespace Provision

variable {σ α β ε ε' : Type} {r : σ → σ → Prop}

/-! ### Programs that can fail -/

section Run
variable {x : ExceptT ε (StateM σ) α} {w w' : σ}

theorem run_bind_of_ok {a : α} (h : x.run.run w = (.ok a, w')) (f : α → ExceptT ε (StateM σ) β) :
    (x >>= f).run.run w = (f a).run.run w' := by
  rw [ExceptT.run_bind, StateT.run_bind, h]
  rfl

theorem run_bind_of_error {e : ε} (h : x.run.run w = (.error e, w'))
    (f : α → ExceptT ε (StateM σ) β) : (x >>= f).run.run w = (.error e, w') := by
  rw [ExceptT.run_bind, StateT.run_bind, h]
  rfl

theorem run_liftM (x : StateM σ α) (w : σ) :
    (liftM x : ExceptT ε (StateM σ) α).run.run w = (.ok (x.run w).1, (x.run w).2) :=
  rfl

theorem run_adapt (x : ExceptT ε (StateM σ) α) (f : ε → ε') (w : σ) :
    (ExceptT.adapt f x).run.run w = ((x.run.run w).1.mapError f, (x.run.run w).2) :=
  rfl

end Run

/-! ### What every state is taken to -/

/-- A program takes every state to a related one, whatever it comes to. -/
def Relates (r : σ → σ → Prop) (x : StateM σ α) : Prop :=
  ∀ w, r w (x.run w).2

namespace Relates

theorem pure [Std.Refl r] (a : α) : Relates r (Pure.pure a : StateM σ α) :=
  fun w => refl_of r w

theorem bind [IsTrans σ r] {x : StateM σ α} {f : α → StateM σ β} (hx : Relates r x)
    (hf : ∀ a, Relates r (f a)) : Relates r (x >>= f) :=
  fun w => trans_of r (hx w) (hf (x.run w).1 (x.run w).2)

section Except
variable [Std.Refl r] [IsTrans σ r] {x : ExceptT ε (StateM σ) α}

/-- What can fail does not go on when it has. -/
theorem bindExcept {f : α → ExceptT ε (StateM σ) β} (hx : Relates r x.run)
    (hf : ∀ a, Relates r (f a).run) : Relates r (x >>= f).run := by
  refine bind (f := ExceptT.bindCont f) hx fun result => ?_
  cases result with
  | ok a => exact hf a
  | error e => exact .pure _

theorem tryCatch {handle : ε → ExceptT ε (StateM σ) α} (hx : Relates r x.run)
    (hhandle : ∀ e, Relates r (handle e).run) :
    Relates r (MonadExcept.tryCatch x handle).run := by
  rw [ExceptT.run_tryCatch]
  refine bind hx fun result => ?_
  cases result with
  | ok a => exact .pure _
  | error e => exact hhandle e

omit [Std.Refl r] [IsTrans σ r] in
theorem adapt (f : ε → ε') (hx : Relates r x.run) : Relates r (ExceptT.adapt f x).run :=
  hx

omit [IsTrans σ r] in
theorem ofExcept (result : Except ε α) :
    Relates r (MonadExcept.ofExcept result : ExceptT ε (StateM σ) α).run := by
  cases result <;> exact .pure _

theorem forM {f : α → ExceptT ε (StateM σ) Unit} {l : List α} (hf : ∀ a, Relates r (f a).run) :
    Relates r (l.forM f).run := by
  induction l with
  | nil => exact .pure _
  | cons a rest ih => exact .bindExcept (hf a) fun _ => ih

end Except
end Relates

/-! ### What a success attains -/

/-- Where a program succeeds, something holds of the state. -/
def Attains (p : σ → Prop) (x : ExceptT ε (StateM σ) α) : Prop :=
  ∀ w a w', x.run.run w = (.ok a, w') → p w'

namespace Attains

variable {p : σ → Prop}

theorem of_result {x : ExceptT ε (StateM σ) α} {w : σ} {a : α} (hx : Attains p x)
    (h : (x.run.run w).1 = .ok a) : p (x.run.run w).2 :=
  hx w a _ (Prod.ext h rfl)

theorem bind {x : ExceptT ε (StateM σ) α} {f : α → ExceptT ε (StateM σ) β}
    (hf : ∀ a, Attains p (f a)) : Attains p (x >>= f) := by
  intro w b w' h
  rcases hx : x.run.run w with ⟨e | a, w₁⟩
  · rw [run_bind_of_error hx] at h
    cases h
  · rw [run_bind_of_ok hx] at h
    exact hf a w₁ b w' h

theorem adapt {x : ExceptT ε (StateM σ) α} (f : ε → ε') (hx : Attains p x) :
    Attains p (ExceptT.adapt f x) := by
  intro w a w' h
  rw [run_adapt] at h
  rcases hrun : x.run.run w with ⟨e | a', w₁⟩
  all_goals rw [hrun] at h
  · cases h
  · cases h
    exact hx w _ _ hrun

theorem tryCatch {x : ExceptT ε (StateM σ) α} {handle : ε → ExceptT ε (StateM σ) α}
    (hx : Attains p x) (hhandle : ∀ e, Attains p (handle e)) :
    Attains p (MonadExcept.tryCatch x handle) := by
  intro w a w₂ h
  rw [ExceptT.run_tryCatch, StateT.run_bind] at h
  rcases hrun : x.run.run w with ⟨e | a', w₁⟩
  all_goals rw [hrun] at h
  · exact hhandle e w₁ a w₂ h
  · cases h
    exact hx w _ _ hrun

end Attains
end Provision
