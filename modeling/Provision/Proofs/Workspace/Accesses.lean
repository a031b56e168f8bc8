import Provision.Proofs.Backend.Failure
import Provision.Proofs.Workspace.Containment
import Provision.Proofs.Workspace.Paths

/-! What a workspace asks a file system for.

A path that escapes is refused, and the file system is not asked for anything. Of any other path
what is left is joined to a directory, and an operation is done on the file at the joined path.
Before that only this path is looked at and, for writing, the directories around it are made. So
no operation gets to anything that its path does not name. -/
namespace Provision
open Files

/-! ### Notes -/

/-- What a file system is asked for. -/
inductive Files.Access where
  | look (path : String)
  | createDirectory (path : String)
  | read (path : String)
  | write (path text : String)
  | append (path text : String)

variable {σ α : Type}

/-- A step with a note of what is asked for. -/
def noting (a : Access) (x : ExceptT SystemFault (StateM σ) α) :
    ExceptT SystemFault (StateM (σ × List Access)) α :=
  ExceptT.mk fun (w, asked) => ((x.run.run w).1, ((x.run.run w).2, asked ++ [a]))

/-- The file system with a note of each thing that it is asked for. -/
def FileSystem.noted (fs : FileSystem (StateM σ)) : FileSystem (StateM (σ × List Access)) where
  kind path := noting (.look path) (fs.kind path)
  destination path := noting (.look path) (fs.destination path)
  read path := noting (.read path) (fs.read path)
  write path text := noting (.write path text) (fs.write path text)
  append path text := noting (.append path text) (fs.append path text)
  createDirectory path := noting (.createDirectory path) (fs.createDirectory path)

/-- Only what is allowed is asked for. -/
def Asks (allowed : Access → Prop) (s s' : σ × List Access) : Prop :=
  ∃ asked, s'.2 = s.2 ++ asked ∧ ∀ a ∈ asked, allowed a

section Asks
variable {allowed : Access → Prop} {fs : FileSystem (StateM σ)} {full : String}

instance : Std.Refl (Asks (σ := σ) allowed) :=
  ⟨fun s => ⟨[], (List.append_nil s.2).symm, fun _ ha => absurd ha List.not_mem_nil⟩⟩

instance : IsTrans (σ × List Access) (Asks allowed) := by
  refine ⟨fun s₁ s₂ s₃ ⟨asked, hasked, hallowed⟩ ⟨asked', hasked', hallowed'⟩ => ?_⟩
  refine ⟨asked ++ asked', ?_, List.forall_mem_append.mpr ⟨hallowed, hallowed'⟩⟩
  rw [hasked', hasked, List.append_assoc]

theorem asks_noting {a : Access} (ha : allowed a) (x : ExceptT SystemFault (StateM σ) α) :
    Relates (Asks allowed) (noting a x).run :=
  fun _ => ⟨[a], rfl, List.forall_mem_singleton.mpr ha⟩

/-- All that is asked for is allowed, if nothing was asked for before. -/
theorem allowed_of_relates {x : StateM (σ × List Access) α} (h : Relates (Asks allowed) x) (w : σ) :
    ∀ a ∈ (x.run (w, [])).2.2, allowed a := by
  obtain ⟨asked, hasked, hallowed⟩ := h (w, [])
  rw [hasked]
  exact hallowed

/-- What is asked for last, where it succeeds. -/
theorem attains_noting (a : Access) (x : ExceptT SystemFault (StateM σ) α) :
    Attains (fun s => s.2.getLast? = some a) (noting a x) := by
  intro s r s' h
  obtain ⟨_, hs⟩ := Prod.mk.inj h
  rw [← hs]
  exact List.getLast?_concat

theorem attains_readText :
    Attains (fun s => s.2.getLast? = some (.read full)) (fs.noted.readText full) := by
  intro s text s' h
  unfold FileSystem.readText at h
  rcases hread : (fs.noted.read full).run.run s with ⟨e | contents, s₁⟩
  · rw [run_bind_of_error hread] at h
    cases h
  · rw [run_bind_of_ok hread] at h
    split at h
    · cases h
      exact attains_noting _ _ s _ _ hread
    · cases h

/-- What may be asked for on the way to a path: what is there, and the directories around it. -/
def Files.Access.Towards (full : String) : Access → Prop
  | .look path | .createDirectory path =>
    Path.isAbsolute path = Path.isAbsolute full ∧ Disk.namesOf path <+: Disk.namesOf full
  | _ => False

theorem asks_approach (hallowed : ∀ a, a.Towards full → allowed a) :
    Relates (Asks allowed) (Directories.approach fs.noted full).run := by
  refine relates_approach (asks_noting (hallowed (.look full) ⟨rfl, List.prefix_rfl⟩) _)
    fun around haround => ?_
  have hpath (path : String) (h : path ∈ Path.ancestors around) :
      Path.isAbsolute path = Path.isAbsolute full ∧
        Disk.namesOf path <+: Disk.namesOf full := by
    obtain ⟨hstart, hnames⟩ := of_mem_ancestors h
    obtain ⟨hstart', hnames'⟩ := parent?_eq_some haround
    exact ⟨hstart.trans hstart', hnames.trans hnames'⟩
  exact relates_createInside
    (fun path h => asks_noting (hallowed (.createDirectory path) (hpath path h)) _)
    fun path h => asks_noting (hallowed (.look path) (hpath path h)) _

section Attempt
variable {operation : String → String → ExceptT SystemFault (StateM (σ × List Access)) Unit}
  {step : String → String → ExceptT SystemFault (StateM σ) Unit}
  {access : String → String → Access}
  (hnoted : ∀ path text, operation path text = noting (access path text) (step path text))
include hnoted

theorem asks_attempt (full text : String) :
    Relates (Asks fun a => a = access full text ∨ a.Towards full)
      (Directories.attempt fs.noted operation full text).run := by
  refine .bindExcept (asks_approach fun _ => .inr) fun _ => .adapt _ ?_
  rw [hnoted]
  exact asks_noting (.inl rfl) _

theorem attains_attempt (full text : String) :
    Attains (fun s => s.2.getLast? = some (access full text))
      (Directories.attempt fs.noted operation full text) := by
  refine .bind fun _ => .adapt _ ?_
  rw [hnoted]
  exact attains_noting _ _

end Attempt
end Asks

namespace Directories

/-! ### Faults of other paths -/

section Faults
variable {fs : FileSystem (StateM σ)} {dirs : Directories} {path q q' full text : String}
  {w w' : σ} {f : Fault}

theorem ne_violation_of_examine {asked : String} (h : Halts (examine fs path asked) w f w') :
    f ≠ violation q := by
  obtain ⟨e, rfl⟩ := halts_adapt h
  nofun

/-- A link is refused with another message. -/
theorem ne_violation_of_requireNoLink (h : Halts (requireNoLink fs path "write") w f w') :
    f ≠ violation q := by
  rcases halts_bind.mp h with h | ⟨kind, _, _, h⟩
  · exact ne_violation_of_examine h
  · split at h
    · obtain ⟨rfl, _⟩ := halts_throw.mp h
      intro heq
      exact absurd (Fault.pathViolation.inj heq).2 (by decide +kernel)
    · exact absurd h halts_pure

theorem ne_violation_of_seen {p : Except SystemFault Files.Kind → Prop} [DecidablePred p]
    (h : Halts (do
      if p (← (fs.kind path).run) then requireNoLink fs path "write" :
        ExceptT Fault (StateM σ) Unit) w f w') : f ≠ violation q := by
  rcases halts_bind.mp h with h | ⟨_, _, _, h⟩
  · exact absurd h halts_liftM
  · split at h
    · exact ne_violation_of_requireNoLink h
    · exact absurd h halts_pure

theorem ne_violation_of_approach (h : Halts (approach fs path) w f w') : f ≠ violation q := by
  unfold approach at h
  split at h
  · rcases halts_bind.mp h with h | ⟨_, _, _, h⟩
    · obtain ⟨e, rfl⟩ := halts_adapt h
      nofun
    · exact ne_violation_of_seen h
  · exact ne_violation_of_seen h

theorem ne_violation_of_read (hrelative : relative path = .ok q')
    (h : Halts (dirs.read fs path) w f w') : f ≠ violation q := by
  rw [read_of_ok fs dirs hrelative] at h
  rcases halts_bind.mp h with h | ⟨_, _, _, h⟩ <;>
    · obtain ⟨e, rfl⟩ := halts_adapt h
      nofun

theorem ne_violation_of_attempt
    {operation : String → String → ExceptT SystemFault (StateM σ) Unit}
    (h : Halts (attempt fs operation full text) w f w') : f ≠ violation q := by
  rcases halts_bind.mp h with h | ⟨_, _, _, h⟩
  · exact ne_violation_of_approach h
  · obtain ⟨e, rfl⟩ := halts_adapt h
    nofun

end Faults

/-! ### Operations -/

/-- An operation checks a path of which `q` is left: it refuses the path exactly if `q` escapes,
and does so before it asks for anything. Otherwise it asks for nothing but what is allowed on the
way to the `last` access, and succeeds with that. -/
structure Checks {α : Type} (q : String) (allowed : Access → Prop) (last : Access)
    (operation : (σ : Type) → FileSystem (StateM σ) → ExceptT Fault (M (StateM σ)) α) : Prop where
  refused_iff {σ : Type} (fs : FileSystem (StateM σ)) (written : List String) (w : σ) :
    (((operation σ fs).run.run written).run w).1.1 = .error (violation q) ↔ Files.Escapes q
  untouched {σ : Type} (fs : FileSystem (StateM σ)) (h : Files.Escapes q) :
    operation σ fs = throw (violation q)
  asked {σ : Type} (fs : FileSystem (StateM σ)) (h : ¬ Files.Escapes q) (written : List String)
    (w : σ) : ∀ a ∈ (((operation _ fs.noted).run.run written).run (w, [])).2.2, a = last ∨ allowed a
  done {σ : Type} (fs : FileSystem (StateM σ)) (written : List String) (w : σ) (r : α)
    (h : (((operation _ fs.noted).run.run written).run (w, [])).1.1 = .ok r) :
    (((operation _ fs.noted).run.run written).run (w, [])).2.2.getLast? = some last

section Lift
variable (x : ExceptT Fault (StateM σ) α) (written : List String) (w : σ)

theorem lift_result : (((lift x).run.run written).run w).1.1 = (x.run.run w).1 :=
  rfl

theorem lift_snd : (((lift x).run.run written).run w).2 = (x.run.run w).2 :=
  rfl

end Lift

section Read
variable {fs : FileSystem (StateM σ)} (dirs : Directories) {path q : String}

theorem asks_read (h : relative path = .ok q) :
    Relates (Asks fun a => a = .read (Path.join dirs.source q) ∨ a = .look (Path.join dirs.source q))
      (dirs.read fs.noted path).run := by
  rw [read_of_ok fs.noted dirs h]
  exact .bindExcept (.adapt _ (relates_requireRegular (asks_noting (.inr rfl) _) _))
    fun _ => .adapt _ (relates_readText (asks_noting (.inl rfl) _))

theorem attains_read (h : relative path = .ok q) :
    Attains (fun s => s.2.getLast? = some (.read (Path.join dirs.source q)))
      (dirs.read fs.noted path) := by
  rw [read_of_ok fs.noted dirs h]
  exact .bind fun _ => .adapt _ attains_readText

end Read

/-- Reading looks at the joined path, and reads there. -/
theorem checks_read (dirs : Directories) (path : String) :
    Checks (stripped path) (· = .look (Path.join dirs.source (stripped path)))
      (.read (Path.join dirs.source (stripped path))) fun _ fs => lift (dirs.read fs path) where
  refused_iff fs written w := by
    rw [lift_result]
    constructor
    · intro hrefused
      by_contra hok
      exact ne_violation_of_read (relative_of_not_escapes hok) (halts_of_result hrefused) rfl
    · intro hescapes
      rw [read_of_error fs dirs (relative_of_escapes hescapes)]
      rfl
  untouched fs h := by
    rw [read_of_error fs dirs (relative_of_escapes h)]
    rfl
  asked fs h written w := by
    rw [lift_snd]
    exact allowed_of_relates (asks_read dirs (relative_of_not_escapes h)) w
  done fs written w r h := by
    rw [lift_result] at h
    rw [lift_snd]
    by_cases hescapes : Files.Escapes (stripped path)
    · rw [read_of_error _ dirs (relative_of_escapes hescapes)] at h
      cases h
    · exact (attains_read dirs (relative_of_not_escapes hescapes)).of_result h

/-- Writing to the joined path comes after the directories around it. -/
theorem checks_writeBy
    (operation : (σ : Type) → FileSystem (StateM σ) → String → String →
      ExceptT SystemFault (StateM σ) Unit) {access : String → String → Access}
    (hnoted : ∀ {σ : Type} (fs : FileSystem (StateM σ)) (path text : String),
      operation _ fs.noted path text = noting (access path text) (operation _ fs path text))
    (dirs : Directories) (path text : String) :
    Checks (stripped path) (Access.Towards (Path.join dirs.output (stripped path)))
      (access (Path.join dirs.output (stripped path)) text)
      fun σ fs => dirs.writeBy (operation σ fs) fs path text where
  refused_iff fs written w := by
    constructor
    · intro hrefused
      by_contra hok
      rw [run_writeBy (relative_of_not_escapes hok), remembering_result] at hrefused
      exact ne_violation_of_attempt (halts_of_result hrefused) rfl
    · intro hescapes
      rw [writeBy_of_error fs dirs _ text (relative_of_escapes hescapes)]
      rfl
  untouched fs h := writeBy_of_error fs dirs _ text (relative_of_escapes h)
  asked fs h written w := by
    rw [run_writeBy (relative_of_not_escapes h), remembering_snd]
    exact allowed_of_relates (asks_attempt (hnoted fs) _ _) w
  done fs written w r h := by
    by_cases hescapes : Files.Escapes (stripped path)
    · rw [writeBy_of_error _ dirs _ text (relative_of_escapes hescapes)] at h
      cases h
    · rw [run_writeBy (relative_of_not_escapes hescapes), remembering_result] at h
      rw [run_writeBy (relative_of_not_escapes hescapes), remembering_snd]
      exact (attains_attempt (hnoted fs) _ _).of_result h

/-! ### All paths -/

example : ["././a/./b", ".../x", ".//etc/x", "././../x", "a/../../b"].map relative =
    [.ok "a/./b", .ok ".../x", .error (violation "/etc/x"), .error (violation "../x"),
      .error (violation "a/../../b")] := by
  decide +kernel

end Directories
end Provision
