import Provision.Lifecycle.Run

/-! What a target sees of a run.

A target is called phase by phase or for a whole run, in any order and as often as one
likes. `recorded` notes what it performs and how that ended. Whatever the target does,
and whatever it makes that depend on, the phases that it performs ascend, nothing is
transformed before all that comes earlier has succeeded, and what was prepared is
cleaned up last. A call out of order is refused and changes nothing. A whole run performs
the phases up to the first that fails, cleans up once preparing was tried, and reports the
first fault there was. -/
namespace Provision

/-- The place of a phase in the order of phases. -/
def Phase.place (p : Phase) : Nat := all.idxOf p

/-- Where a run stands when a phase has ended. -/
def Progress.outcome (phase : Phase) : Except Fault Unit → Progress
  | .ok () => .after phase
  | .error _ => .failed phase

/-- A phase that was performed, and how it ended. -/
structure Performed where
  phase : Phase
  result : Except Fault Unit

/-- Where a run stands that has performed a history. -/
def Progress.ofHistory (h : List Performed) : Progress :=
  (h.getLast?.map fun e => outcome e.phase e.result).getD .idle

/-- The first fault of a history, and its phase. -/
def firstFault? (h : List Performed) : Option (Phase × Fault) :=
  h.findSome? fun e =>
    match e.result with
    | .ok () => none
    | .error f => some (e.phase, f)

/-- What may be asked of a target. -/
inductive Call where
  | phase (p : Phase)
  | run

/-- The phase that a call starts with. -/
def Call.first : Call → Phase
  | .phase p => p
  | .run => .checkEnvironment

namespace Lifecycle

section Calls
variable {m : Type → Type} [Monad m]

/-- The target with a note of each phase that it has performed. -/
def recorded (l : Lifecycle m) : Lifecycle (StateT (List Performed) m) where
  target := l.target
  perform phase := ExceptT.mk do
    let result ← StateT.lift (l.perform phase).run
    modify fun h => h ++ [⟨phase, result⟩]
    return result

def call (l : Lifecycle m) : Call → Progress → m (Except Error Unit × Progress)
  | .phase phase, p => l.step phase p
  | .run, p => l.run p

/-- What a phase answers when it has ended. -/
def answer (l : Lifecycle m) (phase : Phase) : Except Fault Unit → Except Error Unit
  | .ok () => .ok ()
  | .error f => .error (l.failure phase f)

/-- What a run answers that has performed `h`. -/
def verdict (l : Lifecycle m) (h : List Performed) : Except Error Unit :=
  match firstFault? h with
  | none => .ok ()
  | some (phase, f) => .error (l.failure phase f)

/-- Performs phases in turn, up to the first that fails. -/
def performInTurn (l : Lifecycle m) : List Phase → m (List Performed)
  | [] => return []
  | phase :: rest => do
    match ← (l.perform phase).run with
    | .ok () => return ⟨phase, .ok ()⟩ :: (← l.performInTurn rest)
    | .error f => return [⟨phase, .error f⟩]

/-- Cleans up, if preparing was tried before. -/
def performCleanup (l : Lifecycle m) (h : List Performed) : m (List Performed) :=
  if h.any fun e => e.phase = .prepare then do
    let r ← (l.perform .cleanup).run
    return h ++ [⟨.cleanup, r⟩]
  else return h

/-- What a whole run performs. -/
def performThrough (l : Lifecycle m) : m (List Performed) := do
  l.performCleanup (← l.performInTurn [.checkEnvironment, .checkModel, .prepare, .transform])

theorem performCleanup_of_prepared (l : Lifecycle m) {h : List Performed}
    (hprepared : (h.any fun e => e.phase = .prepare) = true) :
    l.performCleanup h = do
      let r ← (l.perform .cleanup).run
      return h ++ [⟨.cleanup, r⟩] :=
  if_pos hprepared

theorem performCleanup_of_unprepared (l : Lifecycle m) {h : List Performed}
    (hprepared : (h.any fun e => e.phase = .prepare) = false) :
    l.performCleanup h = pure h :=
  if_neg (Bool.eq_false_iff.mp hprepared)

end Calls

/-! ### One call at a time -/

section Lawful
variable {m : Type → Type} [Monad m] [LawfulMonad m]

omit [LawfulMonad m] in
theorem step_of_next (l : Lifecycle m) {phase : Phase} {p : Progress} (hp : p.next? = some phase) :
    l.step phase p = do
      let r ← (l.perform phase).run
      return (l.answer phase r, .outcome phase r) := by
  simp only [step, if_pos hp]
  refine bind_congr fun r => ?_
  cases r <;> rfl

/-- A call out of order is refused. The target does not see it. -/
theorem call_of_next_ne (l : Lifecycle m) {c : Call} {p : Progress} (hp : p.next? ≠ some c.first) :
    l.call c p = pure (.error (outOfOrder p c.first), p) := by
  have hstep : l.step c.first p = pure (.error (outOfOrder p c.first), p) := by
    simp only [step, if_neg hp]
  cases c with
  | phase => exact hstep
  | run =>
    show l.run p = _
    simp only [run]
    rw [show l.step .checkEnvironment p = _ from hstep]
    simp

theorem recorded_perform (l : Lifecycle m) (phase : Phase) (h : List Performed) :
    (l.recorded.perform phase).run.run h = do
      let r ← (l.perform phase).run
      return (r, h ++ [⟨phase, r⟩]) := by
  simp [recorded]

theorem recorded_step_of_next (l : Lifecycle m) {phase : Phase} {p : Progress}
    (hp : p.next? = some phase) (h : List Performed) :
    (l.recorded.step phase p).run h = do
      let r ← (l.perform phase).run
      return ((l.answer phase r, .outcome phase r), h ++ [⟨phase, r⟩]) := by
  rw [step_of_next _ hp]
  simp [recorded_perform]
  rfl

theorem recorded_step_bind {β : Type} (l : Lifecycle m) {phase : Phase} {p : Progress}
    (hp : p.next? = some phase)
    (f : Except Error Unit × Progress → StateT (List Performed) m β) (h : List Performed) :
    (l.recorded.step phase p >>= f).run h = (l.perform phase).run >>= fun r =>
      (f (l.answer phase r, .outcome phase r)).run (h ++ [⟨phase, r⟩]) := by
  rw [StateT.run_bind, recorded_step_of_next l hp, bind_assoc]
  simp only [pure_bind]

/-- A whole run performs the phases up to the first fault and cleans up once it has tried to
prepare. It answers the first fault. -/
theorem recorded_run (l : Lifecycle m) : (l.recorded.run .idle).run [] = do
    let h ← l.performThrough
    return ((l.verdict h, .ofHistory h), h) := by
  simp only [performThrough, performInTurn, bind_assoc]
  unfold run
  rw [recorded_step_bind l rfl]
  refine bind_congr fun checked => ?_
  cases checked with
  | error f =>
    rw [pure_bind, performCleanup_of_unprepared l rfl, pure_bind]
    rfl
  | ok =>
    simp only [answer, bind_assoc]
    rw [recorded_step_bind l rfl]
    refine bind_congr fun checked => ?_
    cases checked with
    | error f =>
      simp only [pure_bind]
      rw [performCleanup_of_unprepared l rfl, pure_bind]
      rfl
    | ok =>
      simp only [answer, bind_assoc, produce]
      rw [recorded_step_bind l rfl]
      refine bind_congr fun prepared => ?_
      cases prepared with
      | error f =>
        simp only [answer, pure_bind]
        rw [recorded_step_bind l rfl, performCleanup_of_prepared l rfl, bind_assoc]
        refine bind_congr fun cleaned => ?_
        rw [pure_bind]
        rfl
      | ok =>
        simp only [answer, bind_assoc]
        rw [recorded_step_bind l rfl]
        refine bind_congr fun transformed => ?_
        cases transformed with
        | error f =>
          simp only [answer, pure_bind]
          rw [recorded_step_bind l rfl, performCleanup_of_prepared l rfl, bind_assoc]
          refine bind_congr fun cleaned => ?_
          rw [pure_bind]
          rfl
        | ok =>
          simp only [answer, pure_bind]
          rw [recorded_step_bind l rfl, performCleanup_of_prepared l rfl, bind_assoc]
          refine bind_congr fun cleaned => ?_
          rw [pure_bind]
          -- Only here does the answer depend on how cleaning up has ended.
          cases cleaned <;> rfl

/-! ### Without the notes -/

/-- A program is another one with notes that do not influence it. -/
def Notes {α : Type} (x : StateT (List Performed) m α) (y : m α) : Prop :=
  ∀ h, Prod.fst <$> x.run h = y

theorem Notes.pure {α : Type} (a : α) :
    Notes (pure a : StateT (List Performed) m α) (Pure.pure a) := by
  intro h
  simp

theorem Notes.bind {α β : Type} {x : StateT (List Performed) m α} {y : m α}
    {f : α → StateT (List Performed) m β} {g : α → m β} (hx : Notes x y)
    (hf : ∀ a, Notes (f a) (g a)) : Notes (x >>= f) (y >>= g) := by
  intro h
  rw [StateT.run_bind, map_bind, ← hx h, bind_map_left]
  exact bind_congr fun r => hf r.1 r.2

theorem notes_step (l : Lifecycle m) (phase : Phase) (p : Progress) :
    Notes (l.recorded.step phase p) (l.step phase p) := by
  intro h
  by_cases hp : p.next? = some phase
  · rw [recorded_step_of_next l hp, step_of_next l hp]
    simp
  · simp only [step, if_neg hp, StateT.run_pure, map_pure]

theorem notes_run (l : Lifecycle m) (p : Progress) : Notes (l.recorded.run p) (l.run p) := by
  refine .bind (notes_step l _ p) fun r => ?_
  match r with
  | (.error _, _) => exact .pure _
  | (.ok (), p) =>
    refine .bind (notes_step l _ p) fun r => ?_
    match r with
    | (.error _, _) => exact .pure _
    | (.ok (), p) =>
      refine .bind (.bind (notes_step l _ p) fun r => ?_) fun produced =>
        .bind (notes_step l _ produced.2) fun cleaned => ?_
      · match r with
        | (.error _, _) => exact .pure _
        | (.ok (), p) => exact notes_step l _ p
      · match produced with
        | (.error _, _) => exact .pure _
        | (.ok (), _) => exact .pure _

theorem notes_call (l : Lifecycle m) (c : Call) (p : Progress) :
    Notes (l.recorded.call c p) (l.call c p) := by
  cases c with
  | phase q => exact notes_step l q p
  | run => exact notes_run l p

end Lawful
end Lifecycle

/-! ### Histories -/

/-- From where a phase comes next. -/
theorem Progress.eq_of_next? {p : Progress} {phase : Phase} (hp : p.next? = some phase) :
    (phase = .checkEnvironment ∧ p = .idle) ∨ (phase = .checkModel ∧ p = .environmentChecked) ∨
      (phase = .prepare ∧ p = .modelChecked) ∨ (phase = .transform ∧ p = .prepared) ∨
      (phase = .cleanup ∧ (p = .transformed ∨ p = .failed .prepare ∨ p = .failed .transform)) := by
  cases p with
  | failed q => cases q <;> simp_all [next?]
  | _ => simp_all [next?]

/-- The phase after the one that has ended comes later. -/
theorem Progress.place_lt_of_outcome {phase q : Phase} {r : Except Fault Unit}
    (hq : (outcome phase r).next? = some q) : phase.place < q.place := by
  cases phase <;> cases r <;> cases q <;> first | decide | cases hq

/-- A run that has performed a history may stand at a progress: each phase was performed
when it came next. -/
inductive Reaches : Progress → List Performed → Prop where
  | start : Reaches .idle []
  | perform {p : Progress} {h : List Performed} {phase : Phase} (r : Except Fault Unit) :
      Reaches p h → p.next? = some phase → Reaches (.outcome phase r) (h ++ [⟨phase, r⟩])

namespace Reaches

variable {p : Progress} {h : List Performed}

/-- Where a phase succeeded, it came next and was performed last. -/
theorem of_after {phase : Phase} (hr : Reaches (.after phase) h) :
    ∃ p h₀, Reaches p h₀ ∧ p.next? = some phase ∧ h = h₀ ++ [⟨phase, .ok ()⟩] := by
  generalize hq : Progress.after phase = q at hr
  cases hr with
  | start => cases phase <;> contradiction
  | @perform p h₀ phase' r hr hp =>
    cases r with
    | error => cases phase <;> contradiction
    | ok =>
      have : phase = phase' := by cases phase <;> cases phase' <;> first | rfl | contradiction
      subst this
      exact ⟨p, h₀, hr, hp, rfl⟩

/-- Where a phase failed, it came next and was performed last. -/
theorem of_failed {phase : Phase} (hr : Reaches (.failed phase) h) :
    ∃ p h₀ f, Reaches p h₀ ∧ p.next? = some phase ∧ h = h₀ ++ [⟨phase, .error f⟩] := by
  generalize hq : Progress.failed phase = q at hr
  cases hr with
  | start => contradiction
  | @perform p h₀ phase' r hr hp =>
    cases r with
    | ok => cases phase' <;> contradiction
    | error f =>
      obtain rfl : phase = phase' := Progress.failed.inj hq
      exact ⟨p, h₀, f, hr, hp, rfl⟩

theorem of_idle (hr : Reaches .idle h) : h = [] := by
  generalize hq : Progress.idle = q at hr
  cases hr with
  | start => rfl
  | @perform p h₀ phase r hr hp => cases phase <;> cases r <;> contradiction

/-- The only history at which preparing has just succeeded. -/
theorem of_prepared (hr : Reaches .prepared h) :
    h = [⟨.checkEnvironment, .ok ()⟩, ⟨.checkModel, .ok ()⟩, ⟨.prepare, .ok ()⟩] := by
  obtain ⟨p, h, hr, hp, rfl⟩ := (show Reaches (.after .prepare) h from hr).of_after
  obtain rfl : p = .modelChecked := by simpa using Progress.eq_of_next? hp
  obtain ⟨p, h, hr, hp, rfl⟩ := (show Reaches (.after .checkModel) h from hr).of_after
  obtain rfl : p = .environmentChecked := by simpa using Progress.eq_of_next? hp
  obtain ⟨p, h, hr, hp, rfl⟩ := (show Reaches (.after .checkEnvironment) h from hr).of_after
  obtain rfl : p = .idle := by simpa using Progress.eq_of_next? hp
  rw [hr.of_idle]
  rfl

/-- What comes next is later than all that was performed. -/
theorem place_lt_next {q : Phase} (hr : Reaches p h) (hq : p.next? = some q) :
    ∀ e ∈ h, e.phase.place < q.place := by
  induction hr generalizing q with
  | start => simp
  | @perform p h phase r hr hp ih =>
    have hlt := Progress.place_lt_of_outcome hq
    intro e he
    rcases List.mem_append.mp he with he | he
    · exact Nat.lt_trans (ih hp e he) hlt
    · rw [List.mem_singleton.mp he]
      exact hlt

/-- The history up to a phase is one at which that phase came next. -/
theorem of_prefix {before : List Performed} {e : Performed} (hr : Reaches p h)
    (he : before ++ [e] <+: h) : ∃ q, Reaches q before ∧ q.next? = some e.phase := by
  induction hr with
  | start => simp at he
  | @perform p h phase r hr hp ih =>
    rcases List.prefix_concat_iff.mp he with he | he
    · obtain ⟨rfl, rfl⟩ : before = h ∧ e = ⟨phase, r⟩ := by simpa using he
      exact ⟨p, hr, hp⟩
    · exact ih he

theorem ascending (hr : Reaches p h) : h.Pairwise fun a b => a.phase.place < b.phase.place := by
  induction hr with
  | start => exact .nil
  | @perform p h phase r hr hp ih =>
    refine List.pairwise_append.mpr ⟨ih, List.pairwise_singleton _ _, fun a ha b hb => ?_⟩
    rw [List.mem_singleton.mp hb]
    exact hr.place_lt_next hp a ha

end Reaches

/-- The order that a history keeps. -/
structure Disciplined (h : List Performed) : Prop where
  /-- The phases ascend, so that each is performed at most once. -/
  ascending : h.Pairwise fun a b => a.phase.place < b.phase.place
  /-- Before transforming, everything earlier has succeeded. -/
  transforming : ∀ before e, before ++ [e] <+: h → e.phase = .transform →
    ∀ q, q.place < Phase.transform.place → ⟨q, .ok ()⟩ ∈ before
  /-- Before cleaning up, preparing was tried and, if that worked, transforming too. -/
  cleaning : ∀ before e, before ++ [e] <+: h → e.phase = .cleanup →
    ∃ r, ⟨.prepare, r⟩ ∈ before ∧ (r = .ok () → ∃ r', ⟨.transform, r'⟩ ∈ before)

theorem Reaches.disciplined {p : Progress} {h : List Performed} (hr : Reaches p h) :
    Disciplined h where
  ascending := hr.ascending
  transforming before e he hphase := by
    obtain ⟨q, hbefore, hq⟩ := hr.of_prefix he
    obtain rfl : q = .prepared := by simpa [hphase] using Progress.eq_of_next? hq
    rw [hbefore.of_prepared]
    intro q hq
    cases q with
    | checkEnvironment | checkModel | prepare => simp
    | transform | cleanup => exact absurd hq (by decide)
  cleaning before e he hphase := by
    obtain ⟨q, hbefore, hq⟩ := hr.of_prefix he
    have hq : q = .transformed ∨ q = .failed .prepare ∨ q = .failed .transform := by
      simpa [hphase] using Progress.eq_of_next? hq
    rcases hq with rfl | rfl | rfl
    case inl =>
      have hbefore : Reaches (.after .transform) before := hbefore
      obtain ⟨q, h₀, hr₀, hq, rfl⟩ := hbefore.of_after
      obtain rfl : q = .prepared := by simpa using Progress.eq_of_next? hq
      exact ⟨.ok (), by simp [hr₀.of_prepared], fun _ => ⟨.ok (), by simp⟩⟩
    case inr.inl =>
      obtain ⟨q, h₀, f, _, _, rfl⟩ := hbefore.of_failed
      exact ⟨.error f, by simp, fun h => by contradiction⟩
    case inr.inr =>
      obtain ⟨q, h₀, f, hr₀, hq, rfl⟩ := hbefore.of_failed
      obtain rfl : q = .prepared := by simpa using Progress.eq_of_next? hq
      exact ⟨.ok (), by simp [hr₀.of_prepared], fun _ => ⟨.error f, by simp⟩⟩

/-! ### Runs -/

/-- A run under way: where it stands, what it has performed, and the world that the
target acts on. -/
structure Driven (σ : Type) where
  progress : Progress := .idle
  history : List Performed := []
  world : σ

namespace Lifecycle

variable {σ : Type}

/-- One call, with its answer. -/
def drive (l : Lifecycle (StateM σ)) (c : Call) (d : Driven σ) : Except Error Unit × Driven σ :=
  let (((answer, progress), history), world) :=
    ((l.recorded.call c d.progress).run d.history).run d.world
  (answer, { progress, history, world })

/-- A run after some calls. -/
def driven (l : Lifecycle (StateM σ)) (cs : List Call) (w : σ) : Driven σ :=
  cs.foldl (fun d c => (l.drive c d).2) { world := w }

/-- A program that has performed `h` at its start performs phases only when they come next. -/
def Advances {α : Type} (h : List Performed)
    (x : StateT (List Performed) (StateM σ) (α × Progress)) : Prop :=
  ∀ w, Reaches ((x.run h).run w).1.1.2 ((x.run h).run w).1.2

theorem Advances.pure {α : Type} {h : List Performed} {p : Progress} (a : α) (hr : Reaches p h) :
    Advances (σ := σ) h (Pure.pure (a, p)) :=
  fun _ => hr

theorem Advances.bind {α β : Type} {h : List Performed}
    {x : StateT (List Performed) (StateM σ) (α × Progress)}
    {f : α × Progress → StateT (List Performed) (StateM σ) (β × Progress)} (hx : Advances h x)
    (hf : ∀ a p h, Reaches p h → Advances h (f (a, p))) : Advances h (x >>= f) :=
  fun w => hf _ _ _ (hx w) ((x.run h).run w).2

theorem advances_step (l : Lifecycle (StateM σ)) (phase : Phase) {p : Progress}
    {h : List Performed} (hr : Reaches p h) : Advances h (l.recorded.step phase p) := by
  by_cases hp : p.next? = some phase
  · intro w
    rw [recorded_step_of_next l hp]
    exact hr.perform _ hp
  · simp only [step, if_neg hp]
    exact .pure _ hr

theorem advances_run (l : Lifecycle (StateM σ)) {p : Progress} {h : List Performed}
    (hr : Reaches p h) : Advances h (l.recorded.run p) := by
  refine .bind (advances_step l _ hr) fun answer p h hr => ?_
  match answer with
  | .error _ => exact .pure _ hr
  | .ok () =>
    refine .bind (advances_step l _ hr) fun answer p h hr => ?_
    match answer with
    | .error _ => exact .pure _ hr
    | .ok () =>
      refine .bind (.bind (advances_step l _ hr) fun answer p h hr => ?_) fun produced p h hr =>
        .bind (advances_step l _ hr) fun cleaned p h hr => ?_
      · match answer with
        | .error _ => exact .pure _ hr
        | .ok () => exact advances_step l _ hr
      · match produced with
        | .error _ => exact .pure _ hr
        | .ok () => exact .pure _ hr

theorem reaches_drive (l : Lifecycle (StateM σ)) (c : Call) {d : Driven σ}
    (hr : Reaches d.progress d.history) :
    Reaches (l.drive c d).2.progress (l.drive c d).2.history := by
  cases c with
  | phase q => exact advances_step l q hr d.world
  | run => exact advances_run l hr d.world

theorem reaches_driven (l : Lifecycle (StateM σ)) (cs : List Call) (w : σ) :
    Reaches (l.driven cs w).progress (l.driven cs w).history :=
  List.foldlRecOn (motive := fun d : Driven σ => Reaches d.progress d.history) cs _ .start
    fun _ hr c _ => reaches_drive l c hr

/-- Without the notes, a call does the same. -/
theorem call_eq_drive (l : Lifecycle (StateM σ)) (c : Call) (d : Driven σ) :
    (l.call c d.progress).run d.world =
      (((l.drive c d).1, (l.drive c d).2.progress), (l.drive c d).2.world) := by
  rw [← notes_call l c d.progress d.history]
  rfl

theorem drive_of_next_ne (l : Lifecycle (StateM σ)) {c : Call} {d : Driven σ}
    (hd : d.progress.next? ≠ some c.first) :
    l.drive c d = (.error (outOfOrder d.progress c.first), d) := by
  simp only [drive, call_of_next_ne _ hd]
  rfl

theorem drive_of_next (l : Lifecycle (StateM σ)) {phase : Phase} {d : Driven σ}
    (hd : d.progress.next? = some phase) :
    ∃ r w, (l.perform phase).run.run d.world = (r, w) ∧
      l.drive (.phase phase) d =
        (l.answer phase r, ⟨.outcome phase r, d.history ++ [⟨phase, r⟩], w⟩) := by
  refine ⟨_, _, rfl, ?_⟩
  simp only [drive, call, recorded_step_of_next l hd]
  rfl

theorem prefix_performInTurn (l : Lifecycle (StateM σ)) (phases : List Phase) (w : σ) :
    ((l.performInTurn phases).run w).1.map Performed.phase <+: phases := by
  induction phases generalizing w with
  | nil => exact List.prefix_rfl
  | cons phase rest ih =>
    rw [performInTurn, StateT.run_bind]
    rcases (l.perform phase).run.run w with ⟨f | ⟨⟩, w₁⟩
    · exact List.prefix_append [phase] rest
    · exact List.cons_prefix_cons.mpr ⟨rfl, ih w₁⟩

/-- Cleaning up is performed once if preparing was tried, and otherwise not at all. -/
theorem countP_performThrough (l : Lifecycle (StateM σ)) {w w' : σ} {h : List Performed}
    (hrun : l.performThrough.run w = (h, w')) : h.countP (fun e => e.phase = .cleanup) =
      if h.any fun e => e.phase = .prepare then 1 else 0 := by
  have hphases := l.prefix_performInTurn [.checkEnvironment, .checkModel, .prepare, .transform] w
  rcases hturn : (l.performInTurn [.checkEnvironment, .checkModel, .prepare, .transform]).run w
    with ⟨h₀, w₁⟩
  rw [hturn] at hphases
  rw [performThrough, StateT.run_bind, hturn] at hrun
  change (l.performCleanup h₀).run w₁ = (h, w') at hrun
  have hnone : h₀.countP (fun e => e.phase = .cleanup) = 0 := by
    refine List.countP_eq_zero.mpr fun e he hcleanup => ?_
    have hmem := hphases.subset (List.mem_map_of_mem he)
    rw [of_decide_eq_true hcleanup] at hmem
    simp at hmem
  cases hprepared : h₀.any fun e => e.phase = .prepare with
  | true =>
    rcases hcleanup : (l.perform .cleanup).run.run w₁ with ⟨r, w₂⟩
    rw [performCleanup_of_prepared l hprepared, StateT.run_bind, hcleanup] at hrun
    obtain ⟨rfl, _⟩ := Prod.mk.inj hrun
    simp [hnone, hprepared]
  | false =>
    rw [performCleanup_of_unprepared l hprepared] at hrun
    obtain ⟨rfl, _⟩ := Prod.mk.inj hrun
    simp [hnone, hprepared]

end Lifecycle
end Provision
