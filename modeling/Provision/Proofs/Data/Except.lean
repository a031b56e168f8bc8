import Mathlib.Data.List.Forall2

/-! Steps that can fail.

A sequence of steps succeeds if each of them does, from what the ones before it gave. -/
namespace Provision

variable {ε α β : Type}

theorem ofExcept_ok {m : Type → Type} [Monad m] (a : α) :
    (ofExcept (.ok a) : ExceptT ε m α) = pure a :=
  rfl

theorem bind_eq_ok {x : Except ε α} {f : α → Except ε β} {b : β} :
    (x >>= f) = .ok b ↔ ∃ a, x = .ok a ∧ f a = .ok b := by
  cases x with
  | ok a =>
    show f a = .ok b ↔ _
    simp
  | error e =>
    show Except.error e = .ok b ↔ _
    simp

theorem bind_eq_error {x : Except ε α} {f : α → Except ε β} {e : ε} :
    (x >>= f) = .error e ↔ x = .error e ∨ ∃ a, x = .ok a ∧ f a = .error e := by
  cases x with
  | ok a =>
    show f a = .error e ↔ _
    simp
  | error e' =>
    show Except.error e' = .error e ↔ _
    simp

theorem map_eq_ok {x : Except ε α} {f : α → β} {b : β} :
    (f <$> x) = .ok b ↔ ∃ a, x = .ok a ∧ f a = b := by
  cases x with
  | ok a =>
    show Except.ok (f a) = .ok b ↔ _
    simp
  | error e =>
    show Except.error e = .ok b ↔ _
    simp

theorem mapError_eq_ok {ε' : Type} {f : ε → ε'} {x : Except ε α} {a : α} :
    x.mapError f = .ok a ↔ x = .ok a := by
  cases x with
  | ok b => simp [Except.mapError]
  | error e => simp [Except.mapError]

theorem toOption_eq_some {x : Except ε α} {a : α} : x.toOption = some a ↔ x = .ok a := by
  cases x with
  | ok b => simp [Except.toOption]
  | error e => simp [Except.toOption]

theorem mapM_eq_ok {f : α → Except ε β} {l : List α} {bs : List β} :
    l.mapM f = .ok bs ↔ List.Forall₂ (fun a b => f a = .ok b) l bs := by
  induction l generalizing bs with
  | nil =>
    show Except.ok [] = .ok bs ↔ _
    simp [eq_comm]
  | cons a rest ih =>
    rw [List.mapM_cons, bind_eq_ok]
    constructor
    · rintro ⟨b, hb, h⟩
      obtain ⟨bs', hbs, h⟩ := bind_eq_ok.mp h
      cases h
      exact .cons hb (ih.mp hbs)
    · intro h
      cases h with
      | cons hb hbs => exact ⟨_, hb, bind_eq_ok.mpr ⟨_, ih.mpr hbs, rfl⟩⟩

theorem forM_eq_ok {f : α → Except ε Unit} {l : List α} :
    l.forM f = .ok () ↔ ∀ a ∈ l, f a = .ok () := by
  induction l with
  | nil => exact ⟨fun _ a ha => absurd ha List.not_mem_nil, fun _ => rfl⟩
  | cons a rest ih =>
    show (f a >>= fun _ => rest.forM f) = _ ↔ _
    rw [bind_eq_ok, List.forall_mem_cons, ← ih]
    exact ⟨fun ⟨_, ha, h⟩ => ⟨ha, h⟩, fun ⟨ha, h⟩ => ⟨_, ha, h⟩⟩

/-- Some element fails, and those before it do not. -/
theorem exists_of_forM_eq_error {f : α → Except ε Unit} {l : List α} {e : ε}
    (h : l.forM f = .error e) : ∃ before a after, l = before ++ a :: after ∧
      (∀ b ∈ before, f b = .ok ()) ∧ f a = .error e := by
  induction l with
  | nil => cases h
  | cons a rest ih =>
    rcases bind_eq_error.mp h with h | ⟨_, ha, h⟩
    · exact ⟨[], a, rest, rfl, fun _ hb => absurd hb List.not_mem_nil, h⟩
    · obtain ⟨before, b, after, rfl, hbefore, hb⟩ := ih h
      exact ⟨a :: before, b, after, rfl, List.forall_mem_cons.mpr ⟨ha, hbefore⟩, hb⟩

/-- What every step keeps is kept by all of them. -/
theorem foldlM_invariant {f : β → α → Except ε β} {p : β → Prop} {l : List α} {b b' : β}
    (hstep : ∀ b, ∀ a ∈ l, ∀ b', p b → f b a = .ok b' → p b') (h : l.foldlM f b = .ok b')
    (hb : p b) : p b' := by
  induction l generalizing b with
  | nil =>
    cases h
    exact hb
  | cons a rest ih =>
    rw [List.foldlM_cons] at h
    obtain ⟨b₁, ha, h⟩ := bind_eq_ok.mp h
    exact ih (fun b a ha => hstep b a (List.mem_cons_of_mem _ ha)) h
      (hstep b a List.mem_cons_self b₁ hb ha)

/-- Some results exist for all elements exactly if each element has one. -/
theorem exists_forall₂ {r : α → β → Prop} {l : List α} :
    (∃ bs, List.Forall₂ r l bs) ↔ ∀ a ∈ l, ∃ b, r a b := by
  induction l with
  | nil => exact ⟨fun _ a ha => absurd ha List.not_mem_nil, fun _ => ⟨[], .nil⟩⟩
  | cons a rest ih =>
    rw [List.forall_mem_cons, ← ih]
    constructor
    · rintro ⟨_, _ | ⟨hb, hbs⟩⟩
      exact ⟨⟨_, hb⟩, ⟨_, hbs⟩⟩
    · rintro ⟨⟨b, hb⟩, ⟨bs, hbs⟩⟩
      exact ⟨b :: bs, .cons hb hbs⟩

theorem exists_mem_of_forall₂ {r : α → β → Prop} {l : List α} {bs : List β}
    (h : List.Forall₂ r l bs) {a : α} (ha : a ∈ l) : ∃ b ∈ bs, r a b := by
  induction h with
  | nil => exact absurd ha List.not_mem_nil
  | cons hr _ ih =>
    rcases List.mem_cons.mp ha with rfl | ha
    · exact ⟨_, List.mem_cons_self, hr⟩
    · obtain ⟨b, hb, hr⟩ := ih ha
      exact ⟨b, List.mem_cons_of_mem _ hb, hr⟩

theorem getElem?_of_forall₂ {r : α → β → Prop} {l : List α} {bs : List β}
    (h : List.Forall₂ r l bs) {k : Nat} {a : α} (ha : l[k]? = some a) :
    ∃ b, bs[k]? = some b ∧ r a b := by
  induction h generalizing k with
  | nil => simp at ha
  | cons hr _ ih =>
    cases k with
    | zero =>
      cases ha
      exact ⟨_, rfl, hr⟩
    | succ k => exact ih ha

/-- Changing the result for one element keeps a relation if that element and all others do. -/
theorem forall₂_modify {r r' : α → β → Prop} {f : β → β} {l : List α} {bs : List β} {i : Nat}
    {c : α} (h : List.Forall₂ r l bs) (hl : l.Nodup) (hi : l[i]? = some c)
    (hat : ∀ b, r c b → r' c (f b)) (hrest : ∀ a b, a ≠ c → r a b → r' a b) :
    List.Forall₂ r' l (bs.modify i f) := by
  induction h generalizing i with
  | nil => simp at hi
  | @cons a b l bs hr hall ih =>
    obtain ⟨ha, hl⟩ := List.nodup_cons.mp hl
    cases i with
    | zero =>
      have hac : a = c := Option.some.inj hi
      subst hac
      have hne : ∀ x ∈ l, x ≠ a := fun x hx h => ha (h ▸ hx)
      rw [List.modify_zero_cons]
      exact .cons (hat b hr) (((List.forall₂_and_left _ _).mpr ⟨hne, hall⟩).imp fun x y hxy =>
        hrest x y hxy.1 hxy.2)
    | succ i =>
      have hne : a ≠ c := fun h => ha (h ▸ List.mem_of_getElem? hi)
      rw [List.modify_succ_cons]
      exact .cons (hrest a b hne hr) (ih hl hi)

/-- Results for the elements of several lists are those of one list after the other. -/
theorem forall₂_flatMap {γ : Type} {r : β → γ → Prop} {f : α → List β} {l : List α}
    {cs : List γ} :
    List.Forall₂ r (l.flatMap f) cs ↔
      ∃ css, List.Forall₂ (fun a cs => List.Forall₂ r (f a) cs) l css ∧ css.flatten = cs := by
  induction l generalizing cs with
  | nil => simp [eq_comm]
  | cons a rest ih =>
    rw [List.flatMap_cons]
    constructor
    · intro h
      have htake := List.forall₂_take (f a).length h
      have hdrop := List.forall₂_drop (f a).length h
      rw [List.take_left] at htake
      rw [List.drop_left] at hdrop
      obtain ⟨css, hrest, hcss⟩ := ih.mp hdrop
      refine ⟨cs.take (f a).length :: css, .cons htake hrest, ?_⟩
      rw [List.flatten_cons, hcss, List.take_append_drop]
    · rintro ⟨_, _ | ⟨ha, hrest⟩, rfl⟩
      exact List.rel_append ha (ih.mpr ⟨_, hrest, rfl⟩)

/-! ### Two runs of the same steps -/

/-- Two steps that can fail agree: both succeed with related results, or both fail with the
same fault. -/
inductive Agree (r : α → β → Prop) : Except ε α → Except ε β → Prop where
  | ok {a : α} {b : β} : r a b → Agree r (.ok a) (.ok b)
  | error (e : ε) : Agree r (.error e) (.error e)

namespace Agree

variable {γ δ : Type} {r : α → β → Prop} {s : γ → δ → Prop} {x : Except ε α} {y : Except ε β}

theorem of_eq {x y : Except ε α} (h : x = y) : Agree Eq x y := by
  subst h
  cases x with
  | ok a => exact .ok rfl
  | error e => exact .error e

theorem imp {q : α → β → Prop} (h : Agree r x y)
    (hrq : ∀ a b, x = .ok a → y = .ok b → r a b → q a b) : Agree q x y := by
  cases h with
  | ok hr => exact .ok (hrq _ _ rfl rfl hr)
  | error e => exact .error e

/-- What two agreeing steps are followed by has to agree on what they can give. -/
theorem bind {f : α → Except ε γ} {g : β → Except ε δ} (h : Agree r x y)
    (hnext : ∀ a b, x = .ok a → y = .ok b → r a b → Agree s (f a) (g b)) :
    Agree s (x >>= f) (y >>= g) := by
  cases h with
  | ok hr => exact hnext _ _ rfl rfl hr
  | error e => exact .error e

theorem bind_eq {f : α → Except ε γ} {g : β → Except ε γ} (h : Agree r x y)
    (hnext : ∀ a b, r a b → f a = g b) : (x >>= f) = (y >>= g) := by
  cases h with
  | ok hr => exact hnext _ _ hr
  | error e => rfl

theorem mapError {ε' : Type} (f : ε → ε') (h : Agree r x y) :
    Agree r (x.mapError f) (y.mapError f) := by
  cases h with
  | ok hr => exact .ok hr
  | error e => exact .error (f e)

end Agree

section Lists
variable {γ : Type} {r : α → β → Prop} {l : List α} {l' : List β}

theorem mapM_eq_of_forall₂ {f : α → Except ε γ} {g : β → Except ε γ} (h : List.Forall₂ r l l')
    (hfg : ∀ a b, r a b → f a = g b) : l.mapM f = l'.mapM g := by
  induction h with
  | nil => rfl
  | cons hr _ ih => rw [List.mapM_cons, List.mapM_cons, hfg _ _ hr, ih]

theorem foldlM_eq_of_forall₂ {f : γ → α → Except ε γ} {g : γ → β → Except ε γ}
    (h : List.Forall₂ r l l') (hfg : ∀ c a b, r a b → f c a = g c b) (c : γ) :
    l.foldlM f c = l'.foldlM g c := by
  induction h generalizing c with
  | nil => rfl
  | cons hr _ ih =>
    rw [List.foldlM_cons, List.foldlM_cons, hfg _ _ _ hr]
    exact bind_congr fun c => ih c

theorem map_eq_of_forall₂ {f : α → γ} {g : β → γ} (h : List.Forall₂ r l l')
    (hfg : ∀ a b, r a b → f a = g b) : l.map f = l'.map g :=
  List.forall₂_eq_eq_eq ▸ List.rel_map (fun _ _ hr => hfg _ _ hr) h

theorem flatMap_eq_of_forall₂ {f : α → List γ} {g : β → List γ} (h : List.Forall₂ r l l')
    (hfg : ∀ a b, r a b → f a = g b) : l.flatMap f = l'.flatMap g := by
  rw [List.flatMap_def, List.flatMap_def, map_eq_of_forall₂ h hfg]

theorem filterMap_eq_of_forall₂ {f : α → Option γ} {g : β → Option γ} (h : List.Forall₂ r l l')
    (hfg : ∀ a b, r a b → f a = g b) : l.filterMap f = l'.filterMap g := by
  induction h with
  | nil => rfl
  | cons hr _ ih => rw [List.filterMap_cons, List.filterMap_cons, hfg _ _ hr, ih]

/-- What holds of related elements alike holds of all of one list exactly if of all of the other. -/
theorem forall_mem_iff_of_forall₂ {p : α → Prop} {q : β → Prop} (h : List.Forall₂ r l l')
    (hpq : ∀ a b, r a b → (q b ↔ p a)) : (∀ b ∈ l', q b) ↔ ∀ a ∈ l, p a := by
  induction h with
  | nil => simp
  | cons hr _ ih => rw [List.forall_mem_cons, List.forall_mem_cons, hpq _ _ hr, ih]

end Lists

end Provision
