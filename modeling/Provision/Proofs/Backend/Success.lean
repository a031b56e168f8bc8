import Provision.Backend.Context
import Provision.Proofs.Data.Except
import Provision.Proofs.Data.State
import Provision.Proofs.Topology.Placement

/-! Steps that succeed.

A step on a world, or on a world and an assembly, succeeds from a state with a result and
leaves a state. It succeeds exactly if the steps that it is made of succeed one after the
other, so a success can be read off step by step. Along a list, an invariant of the part
that is done is carried to the whole list. -/
namespace Provision

variable {σ α β γ : Type}

/-! ### On a world -/

/-- What a step comes to. -/
def outcome (x : ExceptT Fault (StateM σ) α) (w : σ) : Except Fault α × σ := x.run.run w

/-- A step succeeds from a world with a result and leaves a world. -/
def Ends (x : ExceptT Fault (StateM σ) α) (w : σ) (r : α) (w' : σ) : Prop :=
  outcome x w = (.ok r, w')

theorem ends_pure {a r : α} {w w' : σ} :
    Ends (pure a : ExceptT Fault (StateM σ) α) w r w' ↔ a = r ∧ w = w' := by
  show (Except.ok a, w) = (Except.ok r, w') ↔ _
  simp

theorem ends_bind {x : ExceptT Fault (StateM σ) α} {f : α → ExceptT Fault (StateM σ) γ} {w : σ}
    {r : γ} {w' : σ} : Ends (x >>= f) w r w' ↔ ∃ a w₁, Ends x w a w₁ ∧ Ends (f a) w₁ r w' := by
  unfold Ends outcome
  rcases hx : x.run.run w with ⟨e | a, w₁⟩
  · rw [run_bind_of_error hx]
    simp
  · rw [run_bind_of_ok hx]
    simp

theorem ends_ofExcept {x : Except Fault α} {r : α} {w w' : σ} :
    Ends (ofExcept x : ExceptT Fault (StateM σ) α) w r w' ↔ x = .ok r ∧ w = w' := by
  cases x with
  | ok a =>
    show Ends (pure a) w r w' ↔ _
    rw [ends_pure, Except.ok.injEq]
  | error e =>
    show (Except.error e, w) = (Except.ok r, w') ↔ _
    simp

theorem ends_liftM {x : StateM σ α} {a : α} {w w' : σ} :
    Ends (liftM x) w a w' ↔ x.run w = (a, w') := by
  rw [Ends, outcome, run_liftM, Prod.ext_iff, Prod.ext_iff, Except.ok.injEq]

theorem ends_adapt {ε : Type} {f : ε → Fault} {x : ExceptT ε (StateM σ) α} {a : α} {w w' : σ} :
    Ends (ExceptT.adapt f x) w a w' ↔ x.run.run w = (.ok a, w') := by
  rw [Ends, outcome, run_adapt, Prod.ext_iff, Prod.ext_iff, mapError_eq_ok]

/-- If the result for an element does not depend on the world, those along a list do not. -/
theorem eq_map_of_ends_mapM {f : α → ExceptT Fault (StateM σ) γ} {g : α → γ}
    (hf : ∀ a w r w', Ends (f a) w r w' → r = g a) {l : List α} {w w' : σ} {rs : List γ}
    (h : Ends (l.mapM f) w rs w') : rs = l.map g := by
  induction l generalizing w rs with
  | nil =>
    rw [List.mapM_nil] at h
    exact (ends_pure.mp h).1.symm
  | cons a rest ih =>
    rw [List.mapM_cons] at h
    obtain ⟨r, w₁, ha, h⟩ := ends_bind.mp h
    obtain ⟨rs, w₂, hrest, h⟩ := ends_bind.mp h
    obtain ⟨rfl, rfl⟩ := ends_pure.mp h
    rw [hf a w r w₁ ha, ih hrest, List.map_cons]

namespace Build

/-! ### On an assembly -/

/-- What a step on an assembly comes to. -/
def outcome (x : Build β (StateM σ) α) (s : Assembly β × σ) :
    (Except Fault α × Assembly β) × σ :=
  (x.runFrom s.1).run s.2

/-- A step succeeds from a state with a result and leaves a state. -/
def Yields (x : Build β (StateM σ) α) (s : Assembly β × σ) (r : α) (s' : Assembly β × σ) : Prop :=
  outcome x s = ((.ok r, s'.1), s'.2)

section
variable {s s' : Assembly β × σ}

theorem yields_pure {a r : α} :
    Yields (pure a : Build β (StateM σ) α) s r s' ↔ a = r ∧ s = s' := by
  show ((Except.ok a, s.1), s.2) = ((Except.ok r, s'.1), s'.2) ↔ _
  simp [Prod.ext_iff, and_assoc]

theorem yields_bind {x : Build β (StateM σ) α} {f : α → Build β (StateM σ) γ} {r : γ} :
    Yields (x >>= f) s r s' ↔ ∃ a s₁, Yields x s a s₁ ∧ Yields (f a) s₁ r s' := by
  have hrun : outcome (x >>= f) s =
      outcome (ExceptT.mk (ExceptT.bindCont f (outcome x s).1.1))
        ((outcome x s).1.2, (outcome x s).2) := rfl
  unfold Yields
  rw [hrun]
  rcases outcome x s with ⟨⟨e | a, b⟩, w⟩
  · show ((Except.error e, b), w) = ((Except.ok r, s'.1), s'.2) ↔ _
    simp
  · show outcome (f a) (b, w) = ((Except.ok r, s'.1), s'.2) ↔ _
    simp [Prod.exists]

theorem yields_throw {e : Fault} {r : α} : ¬ Yields (throw e : Build β (StateM σ) α) s r s' := by
  show ¬ ((Except.error e, s.1), s.2) = ((Except.ok r, s'.1), s'.2)
  simp

theorem yields_ofExcept {x : Except Fault α} {r : α} :
    Yields (ofExcept x : Build β (StateM σ) α) s r s' ↔ x = .ok r ∧ s = s' := by
  cases x with
  | ok a =>
    show Yields (pure a) s r s' ↔ _
    rw [yields_pure, Except.ok.injEq]
  | error e =>
    show Yields (throw e) s r s' ↔ _
    simp [yields_throw]

theorem yields_change {f : β → β} {r : Unit} :
    Yields (change f : Build β (StateM σ) Unit) s r s' ↔
      s' = ({ s.1 with built := f s.1.built }, s.2) := by
  show ((Except.ok (), { s.1 with built := f s.1.built }), s.2) = ((Except.ok (), s'.1), s'.2) ↔ _
  simp [Prod.ext_iff, eq_comm]

theorem yields_built {b : β} :
    Yields (built : Build β (StateM σ) β) s b s' ↔ b = s.1.built ∧ s = s' := by
  show ((Except.ok s.1.built, s.1), s.2) = ((Except.ok b, s'.1), s'.2) ↔ _
  simp [Prod.ext_iff, eq_comm, and_assoc]

theorem yields_lift {x : ExceptT Fault (StateM σ) α} {r : α} :
    Yields (lift x) s r s' ↔ Ends x s.2 r s'.2 ∧ s.1 = s'.1 := by
  have hrun : outcome (lift x : Build β (StateM σ) α) s =
      (((Provision.outcome x s.2).1, s.1), (Provision.outcome x s.2).2) := rfl
  unfold Yields Ends
  rw [hrun]
  simp only [Prod.ext_iff]
  tauto

theorem yields_get {a : Assembly β} :
    Yields (get : Build β (StateM σ) (Assembly β)) s a s' ↔ a = s.1 ∧ s = s' := by
  show ((Except.ok s.1, s.1), s.2) = ((Except.ok a, s'.1), s'.2) ↔ _
  simp [Prod.ext_iff, eq_comm, and_assoc]

theorem yields_modify {f : Assembly β → Assembly β} {r : Unit} :
    Yields (modify f : Build β (StateM σ) Unit) s r s' ↔ s' = (f s.1, s.2) := by
  show ((Except.ok (), f s.1), s.2) = ((Except.ok (), s'.1), s'.2) ↔ _
  simp [Prod.ext_iff, eq_comm]

/-- What was handled before is left alone. -/
theorem yields_once {id : ComponentId} {x : Build β (StateM σ) Unit} :
    Yields (once id x) s () s' ↔
      if id ∈ s.1.visited.done then s = s'
      else Yields x ({ s.1 with visited := ⟨id :: s.1.visited.done⟩ }, s.2) () s' := by
  simp only [once, Visited.mark, yields_bind, yields_get]
  split
  case isTrue h =>
    simp [h, yields_modify, yields_pure]
  case isFalse h =>
    simp [h, yields_modify]

/-! ### Sequences of steps -/

section
variable {r : α}

theorem yields_ofExcept_bind {x : Except Fault γ} {f : γ → Build β (StateM σ) α} :
    Yields (ofExcept x >>= f) s r s' ↔ ∃ a, x = .ok a ∧ Yields (f a) s r s' := by
  simp [yields_bind, yields_ofExcept, and_assoc, -Prod.exists]

theorem yields_built_bind {f : β → Build β (StateM σ) α} :
    Yields (built >>= f) s r s' ↔ Yields (f s.1.built) s r s' := by
  simp [yields_bind, yields_built, and_assoc, -Prod.exists]

theorem yields_change_bind {g : β → β} {f : Unit → Build β (StateM σ) α} :
    Yields (change g >>= f) s r s' ↔
      Yields (f ()) ({ s.1 with built := g s.1.built }, s.2) r s' := by
  simp only [yields_bind, yields_change, exists_eq_left]
  exact ⟨fun ⟨_, h⟩ => h, fun h => ⟨_, h⟩⟩

theorem yields_lift_bind {x : ExceptT Fault (StateM σ) γ} {f : γ → Build β (StateM σ) α} :
    Yields (lift x >>= f) s r s' ↔ ∃ a w, Ends x s.2 a w ∧ Yields (f a) (s.1, w) r s' := by
  simp [yields_bind, yields_lift]

end

/-- An invariant of what is done, carried from the start of a list to its end. -/
theorem yields_forM_invariant {f : α → Build β (StateM σ) Unit} {l : List α}
    {p : List α → Assembly β × σ → Prop}
    (hstep : ∀ done a rest s s', l = done ++ a :: rest → p done s → Yields (f a) s () s' →
      p (done ++ [a]) s')
    (h : Yields (l.forM f) s () s') (hs : p [] s) : p l s' := by
  suffices hrest : ∀ rest done s, l = done ++ rest → p done s → Yields (rest.forM f) s () s' →
      p l s' from hrest l [] s rfl hs h
  intro rest
  induction rest with
  | nil =>
    intro done s hl hdone h
    obtain ⟨_, rfl⟩ := yields_pure.mp h
    rwa [hl, List.append_nil]
  | cons a rest ih =>
    intro done s hl hdone h
    obtain ⟨_, s₁, ha, hrest⟩ := yields_bind.mp h
    refine ih (done ++ [a]) s₁ ?_ (hstep done a rest s s₁ hl hdone ha) hrest
    rw [hl, List.append_assoc]
    rfl

theorem ends_runFrom {x : Build β (StateM σ) α} {a : Assembly β} {w w' : σ}
    {r : Except Fault α × Assembly β} :
    Ends (liftM (x.runFrom a)) w r w' ↔ outcome x (a, w) = (r, w') := by
  have hlift : Provision.outcome (liftM (x.runFrom a)) w =
      (.ok (outcome x (a, w)).1, (outcome x (a, w)).2) := rfl
  rw [Ends, hlift]
  simp [Prod.ext_iff]

theorem ends_finish {x : Build β (StateM σ) Unit} {start b : β} {w w' : σ} :
    Ends (x.finish start) w b w' ↔
      ∃ visited, Yields x ({ built := start }, w) () ({ built := b, visited }, w') := by
  unfold finish
  rw [ends_bind]
  constructor
  · intro h
    obtain ⟨⟨_ | ⟨⟩, b', visited⟩, w₁, hr, h⟩ := h
    · cases h
    · obtain ⟨rfl, rfl⟩ := ends_pure.mp h
      exact ⟨visited, ends_runFrom.mp hr⟩
  · intro h
    obtain ⟨visited, h⟩ := h
    exact ⟨_, w', ends_runFrom.mpr h, ends_pure.mpr ⟨rfl, rfl⟩⟩

end

/-! ### Handlers -/

/-- A handler takes a component that is new to it from one state and world to the next, and then
knows it. -/
def Carries (x : Build β (StateM σ) Unit) (id : ComponentId) (r : β × σ → β × σ → Prop) : Prop :=
  ∀ s s', id ∉ s.1.visited.done → Yields x s () s' →
    r (s.1.built, s.2) (s'.1.built, s'.2) ∧ s'.1.visited.done = id :: s.1.visited.done

/-- What a handler does to a state, whatever it does to the world. -/
def Handles (x : Build β (StateM σ) Unit) (id : ComponentId) (r : β → β → Prop) : Prop :=
  Carries x id fun s s' => r s.1 s'.1

theorem handles_once {x : Build β (StateM σ) Unit} {id : ComponentId} {r : β → β → Prop}
    (h : ∀ s s', Yields x s () s' → r s.1.built s'.1.built ∧ s'.1.visited = s.1.visited) :
    Handles (once id x) id r := by
  intro s s' hnew hx
  rw [yields_once, if_neg hnew] at hx
  obtain ⟨hr, hvisited⟩ := h _ _ hx
  exact ⟨hr, by rw [hvisited]⟩

theorem Handles.imp {x : Build β (StateM σ) Unit} {id : ComponentId} {r r' : β → β → Prop}
    (h : Handles x id r) (hr : ∀ s s', r s s' → r' s s') : Handles x id r' := fun s s' hnew hx =>
  ⟨hr _ _ (h s s' hnew hx).1, (h s s' hnew hx).2⟩

/-- What else is known of a handler. -/
theorem Handles.carries_once {x : Build β (StateM σ) Unit} {id : ComponentId} {r : β → β → Prop}
    {r' : β × σ → β × σ → Prop} (h : Handles (once id x) id r)
    (h' : ∀ s s', Yields x s () s' → r' (s.1.built, s.2) (s'.1.built, s'.2)) :
    Carries (once id x) id r' := by
  intro s s' hnew hx
  have hvisited := (h s s' hnew hx).2
  rw [yields_once, if_neg hnew] at hx
  have hr' := h' _ _ hx
  exact ⟨hr', hvisited⟩

theorem Handles.and {x : Build β (StateM σ) Unit} {id : ComponentId} {r : β → β → Prop}
    {r' : β × σ → β × σ → Prop} (h : Handles x id r) (h' : Carries x id r') :
    Carries x id fun s s' => r s.1 s'.1 ∧ r' s s' := fun s s' hnew hx =>
  ⟨⟨(h s s' hnew hx).1, (h' s s' hnew hx).1⟩, (h s s' hnew hx).2⟩

end Build

namespace Visitor
open Build

/-- A visitor of hosts hands a compute to one handler and anything else to the other. -/
theorem carries_onHosts {v : Visitor (Build β (StateM σ))}
    {compute software : ComponentId → Component → Build β (StateM σ) Unit} {target : String}
    (hv : v.component? = (onHosts target compute software).component?) {id : ComponentId}
    {c : Component} {r : β × σ → β × σ → Prop}
    (hcompute : c.isA .compute = true → Carries (compute id c) id r)
    (hsoftware : c.isA .compute = false → Carries (software id c) id r) :
    Carries (v.acceptComponent id c) id r := by
  intro s s' hnew h
  unfold acceptComponent at h
  rw [hv] at h
  cases hkind : c.kind
  case compute =>
    rw [hkind] at h
    exact hcompute (by rw [Component.isA, hkind]; rfl) s s' hnew h
  case generic =>
    rw [hkind] at h
    exact absurd h yields_throw
  all_goals
    rw [hkind] at h
    exact hsoftware (by rw [Component.isA, hkind]; rfl) s s' hnew h

/-- A visit follows the hosting order. -/
theorem exists_order_of_yields {v : Visitor (Build β (StateM σ))} {t : Topology}
    {s s' : Assembly β × σ} (h : Yields (v.visitComponents t) s () s') :
    ∃ order, t.hostingOrder = .ok order ∧
      Yields (order.forM fun id => v.acceptComponent id (t.component id)) s () s' := by
  obtain ⟨order, _, hfound, h⟩ := yields_bind.mp h
  obtain ⟨horder, rfl⟩ := yields_ofExcept.mp hfound
  exact ⟨order, horder, h⟩

/-- What each component keeps holds once some components are done, in hosting order. -/
theorem kept_of_yields {v : Visitor (Build β (StateM σ))} {t : Topology}
    {r : ComponentId → β × σ → β × σ → Prop} {p : List ComponentId → β × σ → Prop}
    {start : β} {w : σ} {done rest : List ComponentId} {s' : Assembly β × σ} (ht : t.Built)
    (hcarries : ∀ id, Carries (v.acceptComponent id (t.component id)) id (r id))
    (hstart : p [] (start, w))
    (hstep : ∀ done id rest b b', t.hostingOrder = .ok (done ++ id :: rest) → p done b →
      r id b b' → p (done ++ [id]) b')
    (horder : t.hostingOrder = .ok (done ++ rest))
    (h : Yields (done.forM fun id => v.acceptComponent id (t.component id))
      ({ built := start }, w) () s') : p done (s'.1.built, s'.2) := by
  refine (yields_forM_invariant
    (p := fun done s => p done (s.1.built, s.2) ∧ s.1.visited.done = done.reverse) ?_ h
    ⟨hstart, rfl⟩).1
  intro before id after s s' hdone hs hid
  rw [hdone, List.append_assoc, List.cons_append] at horder
  have hnew : id ∉ s.1.visited.done := by
    rw [hs.2, List.mem_reverse]
    exact Topology.next_not_mem ht horder
  obtain ⟨hr, hvisited⟩ := hcarries id s s' hnew hid
  refine ⟨hstep before id _ _ _ horder hs.1 hr, ?_⟩
  rw [hvisited, hs.2, List.reverse_append]
  rfl

/-- A visitor of hosts carries what it keeps over computes and over what runs on them. -/
theorem kept_of_carries {v : Visitor (Build β (StateM σ))}
    {compute software : ComponentId → Component → Build β (StateM σ) Unit} {target : String}
    {t : Topology} {opens joins : ComponentId → β × σ → β × σ → Prop}
    {p : List ComponentId → β × σ → Prop} {start : β} {w : σ} {done rest : List ComponentId}
    {s' : Assembly β × σ}
    (hv : v.component? = (onHosts target compute software).component?) (ht : t.Built)
    (hopens : ∀ id, Carries (compute id (t.component id)) id (opens id))
    (hjoins : ∀ id, (t.component id).isA .compute = false →
      Carries (software id (t.component id)) id (joins id))
    (hstart : p [] (start, w))
    (hcompute : ∀ done id rest b b', t.hostingOrder = .ok (done ++ id :: rest) →
      (t.component id).isA .compute = true → p done b → opens id b b' → p (done ++ [id]) b')
    (hsoftware : ∀ done id rest b b', t.hostingOrder = .ok (done ++ id :: rest) →
      (t.component id).isA .compute = false → p done b → joins id b b' → p (done ++ [id]) b')
    (horder : t.hostingOrder = .ok (done ++ rest))
    (h : Yields (done.forM fun id => v.acceptComponent id (t.component id))
      ({ built := start }, w) () s') : p done (s'.1.built, s'.2) := by
  refine kept_of_yields ht
    (r := fun id => if (t.component id).isA .compute then opens id else joins id)
    (fun id => carries_onHosts hv (fun hid => ?_) fun hid => ?_) hstart ?_ horder h
  · rw [if_pos hid]
    exact hopens id
  · rw [if_neg (by simp [hid])]
    exact hjoins id hid
  · intro done id rest b b' horder hb hr
    cases hid : (t.component id).isA .compute with
    | true =>
      rw [if_pos hid] at hr
      exact hcompute done id rest b b' horder hid hb hr
    | false =>
      rw [if_neg (by simp [hid])] at hr
      exact hsoftware done id rest b b' horder hid hb hr

/-- What is kept holds of all components in the end. -/
theorem exists_order_of_carries {v : Visitor (Build β (StateM σ))}
    {compute software : ComponentId → Component → Build β (StateM σ) Unit} {target : String}
    {t : Topology} {opens joins : ComponentId → β × σ → β × σ → Prop}
    {p : List ComponentId → β × σ → Prop} {start : β} {w : σ} {s' : Assembly β × σ}
    (hv : v.component? = (onHosts target compute software).component?) (ht : t.Built)
    (hopens : ∀ id, Carries (compute id (t.component id)) id (opens id))
    (hjoins : ∀ id, (t.component id).isA .compute = false →
      Carries (software id (t.component id)) id (joins id))
    (hstart : p [] (start, w))
    (hcompute : ∀ done id rest b b', t.hostingOrder = .ok (done ++ id :: rest) →
      (t.component id).isA .compute = true → p done b → opens id b b' → p (done ++ [id]) b')
    (hsoftware : ∀ done id rest b b', t.hostingOrder = .ok (done ++ id :: rest) →
      (t.component id).isA .compute = false → p done b → joins id b b' → p (done ++ [id]) b')
    (h : Yields (v.visitComponents t) ({ built := start }, w) () s') :
    ∃ order, t.hostingOrder = .ok order ∧ p order (s'.1.built, s'.2) := by
  obtain ⟨order, horder, h⟩ := exists_order_of_yields h
  have hall : t.hostingOrder = .ok (order ++ []) := by rw [List.append_nil, horder]
  exact ⟨order, horder,
    kept_of_carries hv ht hopens hjoins hstart hcompute hsoftware hall h⟩

/-- What is kept may leave out the world. -/
theorem exists_order_of_hosts {v : Visitor (Build β (StateM σ))}
    {compute software : ComponentId → Component → Build β (StateM σ) Unit} {target : String}
    {t : Topology} {opens joins : ComponentId → β → β → Prop} {p : List ComponentId → β → Prop}
    {start : β} {w : σ} {s' : Assembly β × σ}
    (hv : v.component? = (onHosts target compute software).component?) (ht : t.Built)
    (hopens : ∀ id, Handles (compute id (t.component id)) id (opens id))
    (hjoins : ∀ id, (t.component id).isA .compute = false →
      Handles (software id (t.component id)) id (joins id))
    (hstart : p [] start)
    (hcompute : ∀ done id rest b b', t.hostingOrder = .ok (done ++ id :: rest) →
      (t.component id).isA .compute = true → p done b → opens id b b' → p (done ++ [id]) b')
    (hsoftware : ∀ done id rest b b', t.hostingOrder = .ok (done ++ id :: rest) →
      (t.component id).isA .compute = false → p done b → joins id b b' → p (done ++ [id]) b')
    (h : Yields (v.visitComponents t) ({ built := start }, w) () s') :
    ∃ order, t.hostingOrder = .ok order ∧ p order s'.1.built :=
  exists_order_of_carries (p := fun done s => p done s.1) hv ht hopens hjoins hstart
    (fun done id rest b b' => hcompute done id rest b.1 b'.1)
    (fun done id rest b b' => hsoftware done id rest b.1 b'.1) h

/-- If each compute adds its number to those that are there, and what runs on computes leaves them
alone, the numbers are those of the computes that are done. -/
theorem keys_of_hosts {v : Visitor (Build β (StateM σ))}
    {compute software : ComponentId → Component → Build β (StateM σ) Unit} {target : String}
    {t : Topology} {start : β} {w : σ} {done rest : List ComponentId} {s' : Assembly β × σ}
    (keys : β → List ComponentId)
    (hv : v.component? = (onHosts target compute software).component?) (ht : t.Built)
    (hopens : ∀ id, Handles (compute id (t.component id)) id fun s s' =>
      keys s' = if id ∈ keys s then keys s else keys s ++ [id])
    (hjoins : ∀ id, (t.component id).isA .compute = false →
      Handles (software id (t.component id)) id fun s s' => keys s' = keys s)
    (hstart : keys start = []) (horder : t.hostingOrder = .ok (done ++ rest))
    (h : Yields (done.forM fun id => v.acceptComponent id (t.component id))
      ({ built := start }, w) () s') : keys s'.1.built = t.computesOf done := by
  refine kept_of_carries (p := fun done s => keys s.1 = t.computesOf done) hv ht hopens hjoins
    hstart (fun done id rest b b' horder hid hb hr => ?_)
    (fun done id rest b b' horder hid hb hr => ?_) horder h
  · have hnew : id ∉ keys b.1 := by
      rw [hb]
      exact fun hmem => Topology.next_not_mem ht horder (List.mem_filter.mp hmem).1
    rw [hr, if_neg hnew, hb, t.computesOf_append_compute done hid]
  · rw [hr, hb, t.computesOf_append_software done hid]

end Visitor

/-! ### Runs -/

namespace Lifecycle

/-- A step that succeeds performed its phase. -/
theorem ends_of_step {l : Lifecycle (StateM σ)} {phase : Phase} {p q : Progress} {w w' : σ}
    (hp : p.next? = some phase) (h : (l.step phase p).run w = ((.ok (), q), w')) :
    q = .after phase ∧ Ends (l.perform phase) w () w' := by
  rw [step, if_pos hp, StateT.run_bind] at h
  rcases hr : outcome (l.perform phase) w with ⟨f | ⟨⟩, w₁⟩
  · have hr : (l.perform phase).run.run w = (.error f, w₁) := hr
    rw [hr] at h
    cases h
  · have hrun : (l.perform phase).run.run w = (.ok (), w₁) := hr
    rw [hrun] at h
    cases h
    exact ⟨rfl, hr⟩

/-- If nothing succeeds after a fault, what succeeds began without one. -/
theorem succeeds_of_bind {x : StateM σ (Except Error Unit × Progress)}
    {f : Except Error Unit × Progress → StateM σ (Except Error Unit × Progress)} {p : Progress}
    {w w' : σ} (hfault : ∀ e q w₁, (f (.error e, q)).run w₁ ≠ ((.ok (), p), w'))
    (h : (x >>= f).run w = ((.ok (), p), w')) :
    ∃ q w₁, x.run w = ((.ok (), q), w₁) ∧ (f (.ok (), q)).run w₁ = ((.ok (), p), w') := by
  have hrun : (x >>= f).run w = (f (x.run w).1).run (x.run w).2 := rfl
  rw [hrun] at h
  rcases hx : x.run w with ⟨⟨e | a, q⟩, w₁⟩
  · rw [hx] at h
    exact absurd h (hfault e q w₁)
  · rw [hx] at h
    exact ⟨q, w₁, rfl, h⟩

/-- A run that succeeds performed all phases, each with success. -/
theorem ends_of_run {l : Lifecycle (StateM σ)} {p : Progress} {w w' : σ}
    (h : (l.run .idle).run w = ((.ok (), p), w')) :
    ∃ w₁ w₂ w₃ w₄, Ends (l.perform .checkEnvironment) w () w₁ ∧
      Ends (l.perform .checkModel) w₁ () w₂ ∧ Ends (l.perform .prepare) w₂ () w₃ ∧
      Ends (l.perform .transform) w₃ () w₄ ∧ Ends (l.perform .cleanup) w₄ () w' := by
  obtain ⟨_, w₁, h₁, h⟩ := succeeds_of_bind (fun e q w₁ h => by cases h) h
  obtain ⟨rfl, hEnvironment⟩ := ends_of_step rfl h₁
  obtain ⟨_, w₂, h₂, h⟩ := succeeds_of_bind (fun e q w₁ h => by cases h) h
  obtain ⟨rfl, hModel⟩ := ends_of_step rfl h₂
  obtain ⟨_, w₄, hproduce, h⟩ := succeeds_of_bind (fun e q w₁ h => by cases h) h
  obtain ⟨_, w₃, h₃, h₄⟩ := succeeds_of_bind (fun e q w₁ h => by cases h) hproduce
  obtain ⟨rfl, hPrepare⟩ := ends_of_step rfl h₃
  obtain ⟨rfl, hTransform⟩ := ends_of_step rfl h₄
  obtain ⟨_, w₅, h₅, h⟩ := succeeds_of_bind (fun e q w₁ h => by cases h) h
  obtain ⟨rfl, hCleanup⟩ := ends_of_step rfl h₅
  cases h
  exact ⟨w₁, w₂, w₃, w₄, hEnvironment, hModel, hPrepare, hTransform, hCleanup⟩

end Lifecycle

namespace Job

variable {job : Job (StateM σ)}

/-- A run ends by writing these files, one after the other, and giving up its workspace. -/
def Delivers (job : Job (StateM σ)) (files : List (String × String)) (w' : σ) : Prop :=
  ∃ w₁ w₂, Ends (files.forM fun file => job.workspace.write file.1 file.2) w₁ () w₂ ∧
    Ends job.workspace.release w₂ () w'

theorem delivers_of_write {file text : String} {w₁ w₂ w₃ : σ}
    (hwrite : Ends (job.workspace.write file text) w₁ () w₂)
    (hrelease : Ends job.workspace.release w₂ () w₃) : job.Delivers [(file, text)] w₃ :=
  ⟨w₁, w₂, ends_bind.mpr ⟨(), w₂, hwrite, rfl⟩, hrelease⟩

/-- A run that succeeds fills its workspace from what a visit has built, and gives it up. -/
theorem exists_visit_of_run {checkEnvironment checkModel : ExceptT Fault (StateM σ) Unit}
    {visit : Build β (StateM σ) Unit} {start : β} {fill : β → ExceptT Fault (StateM σ) Unit}
    {p : Progress} {w w' : σ}
    (h : ((job.lifecycle checkEnvironment checkModel
      (visit.finish start >>= fill)).run .idle).run w = ((.ok (), p), w')) :
    ∃ b visited w₁ w₂ w₃,
      Build.Yields visit ({ built := start }, w₁) () ({ built := b, visited }, w₂) ∧
        Ends (fill b) w₂ () w₃ ∧ Ends job.workspace.release w₃ () w' := by
  obtain ⟨_, _, w₁, w₃, _, _, _, htransform, hrelease⟩ := Lifecycle.ends_of_run h
  obtain ⟨b, w₂, hfinish, hfill⟩ := ends_bind.mp htransform
  obtain ⟨visited, hvisit⟩ := Build.ends_finish.mp hfinish
  exact ⟨b, visited, w₁, w₂, w₃, hvisit, hfill, hrelease⟩

end Job
end Provision
