import Provision.Workspace.Directories
import Provision.Proofs.Backend.Success
import Provision.Proofs.Files.Changes

/-! Files stay in their directories.

The names of a path are looked up from the directory that files are written to, or read from.
None of them is a step up, and a link at the end is refused, so a file is below the directory
unless a link on the way to it leads out. -/
namespace Provision
open Files Disk

variable {d d' : Disk} {dirs : Directories} {root place : Place} {names : List String}
  {path output : String}

/-! ### Paths -/

namespace Directories

/-- The names of a path below one of the directories. -/
def namesBelow (path : String) : List String :=
  namesOf (String.ofList (dropCurrent path.toList))

theorem below_of_relative {relativePath : String} (h : relative path = .ok relativePath)
    (base : String) : Below (Path.join base relativePath) base (namesBelow path) ∧
      ".." ∉ namesBelow path := by
  obtain ⟨_, hrelative, hpath⟩ := bind_eq_ok.mp h
  cases hpath
  obtain ⟨habsolute, hne, hup⟩ := of_requireRelative hrelative
  exact ⟨⟨isAbsolute_join habsolute, hne, namesOf_join habsolute⟩, hup⟩

end Directories

theorem Files.Disk.Below.around {around : String} (h : Below path output names)
    (haround : Path.parent? path = some around) : Around around output names := by
  obtain ⟨hstart, hnames⟩ := parent?_eq_some haround
  exact ⟨hstart.trans h.start, h.names ▸ hnames⟩

/-! ### Steps on a disk -/

theorem run_kind (path : String) (d : Disk) :
    (system.kind path).run.run d = (d.kind path, d) :=
  run_asking ..

theorem ends_examine {asked : String} {kind : Files.Kind}
    (h : Ends (examine system path asked) d kind d') : d' = d ∧ d.kind path = .ok kind := by
  have hkind := ends_adapt.mp h
  rw [run_kind] at hkind
  obtain ⟨hkind, hd⟩ := Prod.mk.inj hkind
  exact ⟨hd.symm, hkind⟩

theorem relates_kind {r : Disk → Disk → Prop} [Std.Refl r] (path : String) :
    Relates r (system.kind path).run :=
  relates_asking _

section Relates
variable {σ : Type} {fs : FileSystem (StateM σ)} {r : σ → σ → Prop} [Std.Refl r] [IsTrans σ r]

theorem relates_requireNoLink (hkind : Relates r (fs.kind path).run) (operation : String) :
    Relates r (requireNoLink fs path operation).run := by
  refine .bindExcept (.adapt _ hkind) fun kind => ?_
  split
  · exact .pure _
  · exact .pure _

theorem relates_requireRegular (hkind : Relates r (fs.kind path).run) (description : String) :
    Relates r (requireRegular fs path description).run := by
  refine .bindExcept (.adapt _ hkind) fun kind => ?_
  cases kind with
  | file size => exact .ofExcept _
  | directory | link | special => exact .pure _

theorem relates_readText (hread : Relates r (fs.read path).run) :
    Relates r (fs.readText path).run := by
  refine .bindExcept hread fun contents => ?_
  split
  · exact .pure _
  · exact .pure _

theorem relates_prepare (hkind : Relates r (fs.kind dirs.output).run)
    (h : Relates r (fs.createDirectories dirs.output).run) :
    Relates r (dirs.prepare fs).run := by
  refine .bindExcept (.bind hkind fun _ => .pure _) fun kind => ?_
  split
  · exact .bindExcept (relates_requireNoLink hkind _) fun _ => .adapt _ h
  · exact .adapt _ h

theorem relates_seen (hkind : Relates r (fs.kind path).run) (operation : String)
    (p : Except SystemFault Files.Kind → Prop) [DecidablePred p] : Relates r (do
      if p (← (fs.kind path).run) then requireNoLink fs path operation :
        ExceptT Fault (StateM σ) Unit).run := by
  refine .bindExcept (.bind hkind fun _ => .pure _) fun kind => ?_
  split
  · exact relates_requireNoLink hkind _
  · exact .pure _

theorem relates_approach (hkind : Relates r (fs.kind path).run)
    (h : ∀ around, Path.parent? path = some around →
      Relates r (fs.createDirectories around).run) :
    Relates r (Directories.approach fs path).run := by
  unfold Directories.approach
  split
  next around haround =>
    exact .bindExcept (.adapt _ (h around haround)) fun _ => relates_seen hkind "write" _
  next => exact relates_seen hkind "write" _

end Relates

namespace FileSystem.Fallible

variable {σ : Type} {fs : FileSystem (StateM σ)} {disk : σ → Disk}
  {left : String → Disk → Disk → Prop} (hfs : fs.Fallible disk left)
include hfs

/-- A path is approached by making directories on the way of its names. -/
theorem relates_approach (h : Below path output names) :
    Relates (Order.Preimage disk (FurnishesFrom output root names))
      (Directories.approach fs path).run :=
  Provision.relates_approach ((hfs.kind path).relates (relates_kind path)) fun _ haround =>
    relates_createDirectories hfs (h.around haround)

theorem attains_prepare (dirs : Directories) :
    Attains (fun s => ∃ root, (disk s).LeadsTo dirs.output root) (dirs.prepare fs) := by
  have hmade (explain : SystemFault → Fault) : Attains
      (fun s => ∃ root, (disk s).LeadsTo dirs.output root)
      (ExceptT.adapt explain (fs.createDirectories dirs.output)) :=
    .adapt explain (attains_createDirectories hfs dirs.output)
  refine .bind fun kind => ?_
  split
  · exact .bind fun _ => hmade _
  · exact hmade _

end FileSystem.Fallible

theorem attains_prepare (dirs : Directories) :
    Attains (fun d => ∃ root, d.LeadsTo dirs.output root) (dirs.prepare system) :=
  fallible_system.attains_prepare dirs

/-- There is no link where one was looked for. -/
theorem attains_seen (path operation : String) {p : Except SystemFault Files.Kind → Prop}
    [DecidablePred p] (hp : ∀ kind, p (.ok kind)) :
    Attains (fun d => d.kind path ≠ .ok .link) (do
      if p (← (system.kind path).run) then requireNoLink system path operation :
        ExceptT Fault M Unit) := by
  intro d _ d' h
  rw [run_bind_of_ok (run_liftM _ d), run_kind] at h
  split at h
  next =>
    obtain ⟨kind, d₁, hexamine, hpasses⟩ := ends_bind.mp h
    obtain ⟨rfl, hkind⟩ := ends_examine hexamine
    split at hpasses
    next => cases hpasses
    next hnot =>
      obtain ⟨_, rfl⟩ := ends_pure.mp hpasses
      rw [hkind]
      exact fun hlink => hnot (Except.ok.inj hlink)
  next hnone =>
    cases h
    intro hlink
    rw [hlink] at hnone
    exact hnone (hp .link)

/-- Nothing is written through a link. -/
theorem attains_approach (path : String) :
    Attains (fun d => d.kind path ≠ .ok .link) (Directories.approach system path) := by
  unfold Directories.approach
  split
  · exact .bind fun _ => attains_seen path "write" fun _ => rfl
  · exact attains_seen path "write" fun _ => rfl

/-! ### Reading -/

theorem ends_requireRegular {description : String}
    (h : Ends (requireRegular system path description) d () d') :
    d' = d ∧ ∃ size, d.kind path = .ok (.file size) := by
  obtain ⟨kind, d₁, hexamine, h⟩ := ends_bind.mp h
  obtain ⟨rfl, hkind⟩ := ends_examine hexamine
  cases kind with
  | file size =>
    obtain ⟨_, rfl⟩ := ends_ofExcept.mp h
    exact ⟨rfl, size, hkind⟩
  | directory => cases h
  | link => cases h
  | special => cases h

theorem of_readText {text : String} (h : (system.readText path).run.run d = (.ok text, d')) :
    d' = d ∧ ∃ contents, d.read path = .ok contents ∧ String.fromUTF8? contents = some text := by
  have hasked : (system.read path).run.run d = (d.read path, d) := run_asking ..
  unfold FileSystem.readText at h
  cases hread : d.read path with
  | error e =>
    rw [hread] at hasked
    rw [run_bind_of_error hasked] at h
    cases h
  | ok contents =>
    rw [hread] at hasked
    rw [run_bind_of_ok hasked] at h
    cases hdecoded : String.fromUTF8? contents with
    | none =>
      rw [hdecoded] at h
      cases h
    | some text' =>
      rw [hdecoded] at h
      cases h
      exact ⟨rfl, contents, rfl, hdecoded⟩

theorem relates_read (path : String) : Relates Eq (dirs.read system path).run :=
  .bindExcept (.ofExcept _) fun _ => .bindExcept
    (.adapt _ (relates_requireRegular (relates_kind _) _)) fun _ =>
      .adapt _ (relates_readText (relates_asking _))

/-- What is read is the text of the file that the names of a path reach. -/
theorem ends_read {text : String} (h : Ends (dirs.read system path) d text d') :
    d' = d ∧ ".." ∉ Directories.namesBelow path ∧ ∃ source place contents,
      d.LeadsTo dirs.source source ∧ d.Reaches source (Directories.namesBelow path) place ∧
      d.item? place = some (.file contents) ∧ String.fromUTF8? contents = some text := by
  obtain ⟨relativePath, d₁, hfirst, h⟩ := ends_bind.mp h
  obtain ⟨hrelative, rfl⟩ := ends_ofExcept.mp hfirst
  obtain ⟨hbelow, hup⟩ := Directories.below_of_relative hrelative dirs.source
  obtain ⟨_, d₂, hregular, hlast⟩ := ends_bind.mp h
  obtain ⟨rfl, size, hkind⟩ := ends_requireRegular (ends_adapt.mp hregular)
  obtain ⟨rfl, contents, hread, htext⟩ := of_readText (ends_adapt.mp hlast)
  obtain ⟨source, place, contents', hsource, hreaches, hitem, hread'⟩ := hbelow.of_kind hkind
  rw [hread] at hread'
  obtain rfl := Except.ok.inj hread'
  exact ⟨rfl, hup, source, place, contents, hsource, hreaches, hitem, htext⟩

/-! ### Writing -/

/-- An operation gives a file new contents, which may depend on what is in it. -/
def Rewrites (operation : String → String → ExceptT SystemFault M Unit)
    (made : String → ByteArray → ByteArray) : Prop :=
  ∀ path text d, (operation path text).run.run d =
    match d.writable path with
    | .ok (place, before) => (.ok (), d.put place (.file (made text before)))
    | .error e => (.error e, d)

theorem rewrites_write : Rewrites system.write fun text _ => text.toUTF8 := by
  intro path text d
  have hrun : (system.write path text).run.run d = _ := run_changing ..
  rw [hrun, Disk.write]
  cases d.writable path <;> rfl

theorem rewrites_append : Rewrites system.append fun text before => before ++ text.toUTF8 := by
  intro path text d
  have hrun : (system.append path text).run.run d = _ := run_changing ..
  rw [hrun, Disk.append]
  cases d.writable path <;> rfl

/-- A file is written where some names reach, and otherwise there may be new directories on the
way of the names. -/
structure Written (root : Place) (names : List String) (made : ByteArray → ByteArray)
    (d d' : Disk) (place : Place) : Prop where
  grows : Grows d d'
  reaches : d'.Reaches root names place
  file : ∃ before, (d.item? place = some (.file before) ∨
    d.item? place = none ∧ before = .empty) ∧ d'.item? place = some (.file (made before))
  elsewhere (p : Place) (h : p ≠ place) : d'.item? p = d.item? p ∨
    d.item? p = none ∧ d'.item? p = some .directory ∧ d'.OnTheWay root names p

/-- A file is put on a disk that was furnished for it. -/
theorem Files.Disk.Furnishes.written {d₁ : Disk} {made : ByteArray → ByteArray} {before : ByteArray}
    (h : Furnishes root names d d₁) (hreaches : d₁.Reaches root names place)
    (hfile : d₁.item? place = some (.file before) ∨ d₁.item? place = none ∧ before = .empty) :
    Written root names made d (d₁.put place (.file (made before))) place := by
  have hgrows : Grows d₁ (d₁.put place (.file (made before))) :=
    grows_put nofun (hfile.symm.imp And.left fun hfile => ⟨⟨_, hfile⟩, _, rfl⟩)
  refine ⟨h.grows.trans hgrows, hreaches.grows hgrows, ⟨before, ?_, ?_⟩, fun p hp => ?_⟩
  · refine hfile.imp (fun hfile => ?_) fun ⟨hnone, hbefore⟩ => ⟨?_, hbefore⟩
    · exact (h.item?_iff place (by simp)).mp hfile
    · cases hitem : d.item? place with
      | none => rfl
      | some item =>
        rw [h.stays place item hitem] at hnone
        cases hnone
  · exact item?_put_self hreaches.ne_nil _
  · rw [item?_put_of_ne hp]
    cases hitem : d.item? p with
    | some item => exact .inl (h.stays p item hitem)
    | none =>
      cases hitem' : d₁.item? p with
      | none => exact .inl rfl
      | some item =>
        obtain ⟨rfl, hplace⟩ := h.new p item hitem hitem'
        exact .inr ⟨rfl, rfl, hplace.grows hgrows⟩

/-- A disk grows, and nothing is different out of a directory if no link on the way of some names
leads out of it. -/
structure Contained (root : Place) (names : List String) (d d' : Disk) : Prop where
  grows : Grows d d'
  outside (h : d'.Enclosed root names) (p : Place) (hp : ¬ root <+: p) : d'.item? p = d.item? p

theorem Contained.refl (d : Disk) : Contained root names d d :=
  ⟨.refl d, fun _ _ _ => rfl⟩

theorem Files.Disk.Furnishes.contained (h : Furnishes root names d d') (hup : ".." ∉ names) :
    Contained root names d d' := by
  refine ⟨h.grows, fun henclosed p hp => ?_⟩
  cases hitem : d.item? p with
  | some item => exact h.stays p item hitem
  | none =>
    cases hitem' : d'.item? p with
    | none => rfl
    | some item =>
      exact absurd (henclosed.prefix_of_onTheWay hup (h.new p item hitem hitem').2) hp

theorem Written.contained {made : ByteArray → ByteArray} (h : Written root names made d d' place)
    (hup : ".." ∉ names) : Contained root names d d' := by
  refine ⟨h.grows, fun henclosed p hp => ?_⟩
  have hne : p ≠ place := by
    rintro rfl
    exact hp (henclosed.prefix_of_onTheWay hup h.reaches.onTheWay)
  rcases h.elsewhere p hne with hsame | ⟨_, _, hplace⟩
  · exact hsame
  · exact absurd (henclosed.prefix_of_onTheWay hup hplace) hp

/-- Writing to a path once it is approached. -/
def Directories.attempt {m : Type → Type} [Monad m] (fs : FileSystem m)
    (operation : String → String → ExceptT SystemFault m Unit) (path text : String) :
    ExceptT Fault m Unit := do
  approach fs path
  ExceptT.adapt (fun e => .unwritableFile path e.message) (operation path text)

/-- Writing to a path below a directory puts a file where the path can be written to, or fails
after it has made directories. -/
theorem FileSystem.Fallible.attempt_cases {σ : Type} {fs : FileSystem (StateM σ)} {disk : σ → Disk}
    {left : String → Disk → Disk → Prop} (hfs : fs.Fallible disk left)
    {operation : String → String → ExceptT SystemFault (StateM σ) Unit}
    {operation' : String → String → ExceptT SystemFault M Unit}
    {made : String → ByteArray → ByteArray} (hop : Rewrites operation' made)
    (hattempts : ∀ path text, Attempts disk (left path) (operation path text) (operation' path text))
    {s s' : σ} (hbelow : Below path output names) (hroot : (disk s).LeadsTo output root)
    (text : String) {result : Except Fault Unit}
    (h : (Directories.attempt fs operation path text).run.run s = (result, s')) :
    (∃ e d, result = .error e ∧ Furnishes root names (disk s) d ∧
      (disk s' = d ∨ left path d (disk s'))) ∨
      result = .ok () ∧ ∃ s₁ place before,
        (Directories.approach fs path).run.run s = (.ok (), s₁) ∧
        Furnishes root names (disk s) (disk s₁) ∧ (disk s₁).writable path = .ok (place, before) ∧
        disk s' = (disk s₁).put place (.file (made text before)) := by
  have hfurnishes : Furnishes root names (disk s)
      (disk ((Directories.approach fs path).run.run s).2) :=
    hfs.relates_approach hbelow s hroot
  unfold Directories.attempt at h
  rcases happroach : (Directories.approach fs path).run.run s with ⟨e | ⟨⟩, s₁⟩
  all_goals rw [happroach] at hfurnishes
  · rw [run_bind_of_error happroach] at h
    cases h
    exact .inl ⟨e, _, rfl, hfurnishes, .inl rfl⟩
  · rw [run_bind_of_ok happroach, run_adapt] at h
    cases h
    rcases hattempts path text s₁ with ⟨e, hfailed, hleft⟩ | hsame
    · exact .inl ⟨_, _, by rw [hfailed]; rfl, hfurnishes, .inr hleft⟩
    · rw [hop] at hsame
      split at hsame
      next place before hwritable =>
        obtain ⟨hok, hput⟩ := Prod.mk.inj hsame
        exact .inr ⟨by rw [hok]; rfl, s₁, place, before, rfl, hfurnishes, hwritable, hput⟩
      next e _ =>
        obtain ⟨hfailed, hsame⟩ := Prod.mk.inj hsame
        exact .inl ⟨_, _, by rw [hfailed]; rfl, hfurnishes, .inl hsame⟩

/-- On a disk, the file is then where the names of the path reach. -/
theorem attempt_cases {operation : String → String → ExceptT SystemFault M Unit}
    {made : String → ByteArray → ByteArray} (hop : Rewrites operation made)
    (hbelow : Below path output names) (hroot : d.LeadsTo output root) (text : String)
    {result : Except Fault Unit}
    (h : (Directories.attempt system operation path text).run.run d = (result, d')) :
    (∃ e, result = .error e ∧ Furnishes root names d d') ∨
      result = .ok () ∧ ∃ place, Written root names (made text) d d' place := by
  rcases fallible_system.attempt_cases hop (fun _ _ _ => .inr rfl) hbelow hroot text h with
    ⟨e, d₁, he, hfurnishes, hleft⟩ | ⟨hok, d₁, place, before, happroach, hfurnishes, hwritable, hput⟩
  · obtain rfl : d₁ = d' := hleft.elim Eq.symm id
    exact .inl ⟨e, he, hfurnishes⟩
  · obtain rfl : d' = d₁.put place (.file (made text before)) := hput
    -- Making directories has not moved the root.
    obtain ⟨root', hroot', hreaches, hfile⟩ :=
      hbelow.of_writable (attains_approach path d () d₁ happroach) hwritable
    obtain rfl := (hfurnishes.grows.leadsTo hroot).eq hroot'
    exact .inr ⟨hok, place, hfurnishes.written hreaches hfile⟩

/-- What is remembered changes if an attempt succeeds. -/
def Directories.remembering {σ : Type} (remember : List String → List String)
    (written : List String) : Except Fault Unit × σ → (Except Fault Unit × List String) × σ
  | (.ok (), s) => ((.ok (), remember written), s)
  | (.error e, s) => ((.error e, written), s)

theorem Directories.remembering_result {σ : Type} (remember : List String → List String)
    (written : List String) (r : Except Fault Unit × σ) :
    (remembering remember written r).1.1 = r.1 := by
  rcases r with ⟨_ | _, _⟩ <;> rfl

theorem Directories.remembering_snd {σ : Type} (remember : List String → List String)
    (written : List String) (r : Except Fault Unit × σ) :
    (remembering remember written r).2 = r.2 := by
  rcases r with ⟨_ | _, _⟩ <;> rfl

theorem Directories.run_attempt {σ : Type} (attempt : ExceptT Fault (StateM σ) Unit)
    (remember : List String → List String) (written : List String) (s : σ) :
    ((do
      ofExcept (← (attempt.run : StateM σ (Except Fault Unit)))
      modify remember : ExceptT Fault (Directories.M (StateM σ)) Unit).run.run written).run s =
      remembering remember written (attempt.run.run s) := by
  have hrun : (liftM (attempt.run : StateM σ _) :
      ExceptT Fault (Directories.M (StateM σ)) _).run.run written =
        do return (.ok (← attempt.run), written) := rfl
  rw [ExceptT.run_bind, StateT.run_bind, hrun, StateT.run_bind, StateT.run_bind]
  rcases attempt.run.run s with ⟨_ | _, s'⟩
  · rfl
  · rfl

/-- A path that may be used is remembered if it could be written to. -/
theorem Directories.run_writeBy {σ : Type} {fs : FileSystem (StateM σ)}
    {operation : String → String → ExceptT SystemFault (StateM σ) Unit} {relativePath : String}
    (h : relative path = .ok relativePath) (dirs : Directories) (text : String)
    (written : List String) (s : σ) :
    ((dirs.writeBy operation fs path text).run.run written).run s =
      remembering (record relativePath) written
        ((attempt fs operation (Path.join dirs.output relativePath) text).run.run s) := by
  unfold writeBy
  rw [h, ofExcept_ok, pure_bind]
  exact run_attempt _ _ _ _

/-! ### Calls -/

/-- How far a workspace has come: the paths that it wrote to, and the disk. -/
structure Session where
  written : List String
  disk : Disk

/-- What is asked of a workspace. -/
inductive FileCall where
  | prepare
  | release
  | read (path : String)
  | write (path text : String)
  | append (path text : String)

namespace Session

/-- What a call comes to and leaves. -/
def call {α : Type} (s : Session) (x : ExceptT Fault (Directories.M M) α) :
    Except Fault α × Session :=
  match (x.run.run s.written).run s.disk with
  | ((result, written), disk) => (result, { written, disk })

end Session

namespace FileCall

/-- The names of the file that is written, if one is. -/
def target : FileCall → List String
  | .write path _ | .append path _ => Directories.namesBelow path
  | _ => []

end FileCall

namespace Session

variable {s s' : Session}

def step (dirs : Directories) (s : Session) : FileCall → Session
  | .prepare => (s.call (Directories.lift (dirs.prepare system))).2
  | .release => (s.call (return ())).2
  | .read path => (s.call (Directories.lift (dirs.read system path))).2
  | .write path text => (s.call (dirs.write system path text)).2
  | .append path text => (s.call (dirs.append system path text)).2

/-- How far a workspace comes with some calls, also if some of them fail. -/
def after (dirs : Directories) (calls : List FileCall) (s : Session) : Session :=
  calls.foldl (step dirs) s

theorem call_lift {α : Type} (s : Session) (x : ExceptT Fault M α) :
    s.call (Directories.lift x) =
      ((x.run.run s.disk).1, { s with disk := (x.run.run s.disk).2 }) :=
  rfl

theorem step_prepare (dirs : Directories) (s : Session) : s.step dirs .prepare =
    { s with disk := ((dirs.prepare system).run.run s.disk).2 } := by
  rw [step, call_lift]

theorem step_read (dirs : Directories) (s : Session) (path : String) :
    s.step dirs (.read path) = s := by
  have hsame : s.disk = ((dirs.read system path).run.run s.disk).2 := relates_read path s.disk
  rw [step, call_lift, ← hsame]

theorem step_write (dirs : Directories) (s : Session) (path text : String) :
    s.step dirs (.write path text) = (s.call (dirs.writeBy system.write system path text)).2 := by
  rw [step, Directories.write]

theorem step_append (dirs : Directories) (s : Session) (path text : String) :
    s.step dirs (.append path text) = (s.call (dirs.writeBy system.append system path text)).2 := by
  rw [step, Directories.append]

theorem writeBy_cases {operation : String → String → ExceptT SystemFault M Unit}
    {made : String → ByteArray → ByteArray} (hop : Rewrites operation made)
    (hroot : s.disk.LeadsTo dirs.output root) {path text : String} {result : Except Fault Unit}
    (h : s.call (dirs.writeBy operation system path text) = (result, s')) :
    (∃ e, result = .error e ∧ s'.disk = s.disk) ∨ ".." ∉ Directories.namesBelow path ∧
      ((∃ e, result = .error e ∧ Furnishes root (Directories.namesBelow path) s.disk s'.disk) ∨
        result = .ok () ∧ ∃ place,
          Written root (Directories.namesBelow path) (made text) s.disk s'.disk place) := by
  cases hrelative : Directories.relative path with
  | error e =>
    unfold Directories.writeBy at h
    rw [hrelative] at h
    cases h
    exact .inl ⟨e, rfl, rfl⟩
  | ok relativePath =>
    obtain ⟨hbelow, hup⟩ := Directories.below_of_relative hrelative dirs.output
    refine .inr ⟨hup, ?_⟩
    unfold call at h
    rw [Directories.run_writeBy hrelative] at h
    unfold Directories.remembering at h
    split at h
    next _ _ _ hrun =>
      split at hrun
      next disk hattempt =>
        cases hrun
        cases h
        exact (attempt_cases hop hbelow hroot text hattempt).imp_left
          fun ⟨e, he, _⟩ => by cases he
      next e disk hattempt =>
        cases hrun
        cases h
        exact (attempt_cases hop hbelow hroot text hattempt).imp_right
          fun ⟨hok, _⟩ => by cases hok

theorem contained_writeBy {operation : String → String → ExceptT SystemFault M Unit}
    {made : String → ByteArray → ByteArray} (hop : Rewrites operation made)
    (hroot : s.disk.LeadsTo dirs.output root) (path text : String) :
    Contained root (Directories.namesBelow path) s.disk
      (s.call (dirs.writeBy operation system path text)).2.disk := by
  rcases writeBy_cases hop hroot (Prod.mk.eta (p := s.call _)).symm with
    ⟨_, _, hsame⟩ | ⟨hup, ⟨_, _, hfurnishes⟩ | ⟨_, place, hwritten⟩⟩
  · rw [hsame]
    exact .refl _
  · exact hfurnishes.contained hup
  · exact hwritten.contained hup

/-- One call leaves what is out of the directory, unless a link leads it there. -/
theorem contained_step (hroot : s.disk.LeadsTo dirs.output root) (call : FileCall) :
    Contained root call.target s.disk (s.step dirs call).disk := by
  cases call with
  | prepare =>
    have haround : Around dirs.output dirs.output [] := ⟨rfl, List.prefix_append _ _⟩
    have hfurnishes : Furnishes root [] s.disk ((dirs.prepare system).run.run s.disk).2 :=
      relates_prepare (relates_kind _) (relates_createDirectories fallible_system haround) s.disk
        hroot
    rw [step_prepare]
    exact hfurnishes.contained List.not_mem_nil
  | release => exact .refl _
  | read path =>
    rw [step_read]
    exact .refl _
  | write path text =>
    rw [step_write]
    exact contained_writeBy rewrites_write hroot path text
  | append path text =>
    rw [step_append]
    exact contained_writeBy rewrites_append hroot path text

/-- No link leads a call out of a directory. -/
def Enclosed (dirs : Directories) (root : Place) : List FileCall → Session → Prop
  | [], _ => True
  | call :: rest, s => (s.step dirs call).disk.Enclosed root call.target ∧
      Enclosed dirs root rest (s.step dirs call)

theorem after_cons (call : FileCall) (rest : List FileCall) (s : Session) :
    s.after dirs (call :: rest) = (s.step dirs call).after dirs rest :=
  rfl

/-- Any calls one after the other do so, too. -/
theorem contained_after (hroot : s.disk.LeadsTo dirs.output root) (calls : List FileCall) :
    Grows s.disk (s.after dirs calls).disk ∧ (Enclosed dirs root calls s → ∀ p, ¬ root <+: p →
      (s.after dirs calls).disk.item? p = s.disk.item? p) := by
  induction calls generalizing s with
  | nil => exact ⟨.refl _, fun _ _ _ => rfl⟩
  | cons call rest ih =>
    have hstep := contained_step hroot call
    obtain ⟨hgrows, hrest⟩ := ih (hstep.grows.leadsTo hroot)
    rw [after_cons]
    refine ⟨hstep.grows.trans hgrows, fun henclosed p hp => ?_⟩
    rw [hrest henclosed.2 p hp, hstep.outside henclosed.1 p hp]

/-- What writing a file comes to: the file is written where its names reach, which is below the
directory unless a link leads out, or no file is changed. -/
structure Puts (root : Place) (s : Session) (path : String)
    (x : ExceptT Fault (Directories.M M) Unit) (made : ByteArray → ByteArray) : Prop where
  written (s' : Session) (h : s.call x = (.ok (), s')) : ∃ place,
    Written root (Directories.namesBelow path) made s.disk s'.disk place ∧
    (s'.disk.Enclosed root (Directories.namesBelow path) → root <+: place)
  failed (e : Fault) (s' : Session) (h : s.call x = (.error e, s')) (p : Place)
    (contents : ByteArray) :
    s'.disk.item? p = some (.file contents) ↔ s.disk.item? p = some (.file contents)

theorem puts_writeBy {operation : String → String → ExceptT SystemFault M Unit}
    {made : String → ByteArray → ByteArray} (hop : Rewrites operation made)
    (hroot : s.disk.LeadsTo dirs.output root) (path text : String) :
    s.Puts root path (dirs.writeBy operation system path text) (made text) where
  written s' h := by
    rcases writeBy_cases hop hroot h with ⟨_, he, _⟩ | ⟨hup, ⟨_, he, _⟩ | ⟨_, place, hwritten⟩⟩
    · cases he
    · cases he
    · exact ⟨place, hwritten, fun henclosed =>
        henclosed.prefix_of_onTheWay hup hwritten.reaches.onTheWay⟩
  failed e s' h p contents := by
    rcases writeBy_cases hop hroot h with ⟨_, _, hsame⟩ | ⟨_, ⟨_, _, hfurnishes⟩ | ⟨hok, _⟩⟩
    · rw [hsame]
    · exact hfurnishes.item?_iff p (by simp)
    · cases hok

/-- **Files are written and read below their directories, unless a link on the way leads out.**
Once its output is prepared a workspace may be asked anything. The output directory stays where
it is, and what is not below it stays as it is if no link leads a call out of it. A file that is
written is the only one that is different, and is where its names reach. What is read is in a
file that its names reach from the source directory, and nothing is different then. -/
theorem files_stay_below {start prepared : Session}
    (hprepare : start.call (Directories.lift (dirs.prepare system)) = (.ok (), prepared)) :
    ∃ root, prepared.disk.LeadsTo dirs.output root ∧
      ∀ calls s, s = prepared.after dirs calls →
        s.disk.LeadsTo dirs.output root ∧
        (Enclosed dirs root calls prepared → ∀ p, ¬ root <+: p →
          s.disk.item? p = prepared.disk.item? p) ∧
        (∀ path text, s.Puts root path (dirs.write system path text) fun _ => text.toUTF8) ∧
        (∀ path text, s.Puts root path (dirs.append system path text) (· ++ text.toUTF8)) ∧
        ∀ path text s', s.call (Directories.lift (dirs.read system path)) = (.ok text, s') →
          s' = s ∧ ∃ source place contents, s.disk.LeadsTo dirs.source source ∧
            s.disk.Reaches source (Directories.namesBelow path) place ∧
            s.disk.item? place = some (.file contents) ∧
            String.fromUTF8? contents = some text ∧
            (s.disk.Enclosed source (Directories.namesBelow path) → source <+: place) := by
  rw [call_lift] at hprepare
  obtain ⟨hok, hprepared⟩ := Prod.mk.inj hprepare
  obtain ⟨root, hroot⟩ := attains_prepare dirs start.disk () prepared.disk
    (Prod.ext hok (congrArg disk hprepared))
  refine ⟨root, hroot, ?_⟩
  rintro calls s rfl
  obtain ⟨hgrows, hafter⟩ := contained_after hroot calls
  have hstays := hgrows.leadsTo hroot
  refine ⟨hstays, hafter, fun path text => ?_, fun path text => ?_, fun path text s' hread => ?_⟩
  · rw [Directories.write]
    exact puts_writeBy rewrites_write hstays path text
  · rw [Directories.append]
    exact puts_writeBy rewrites_append hstays path text
  rw [call_lift] at hread
  obtain ⟨htext, rfl⟩ := Prod.mk.inj hread
  obtain ⟨hsame, hup, source, place, contents, hsource, hreaches, hitem, hdecoded⟩ :=
    ends_read (Prod.ext htext rfl)
  exact ⟨congrArg (Session.mk _) hsame, source, place, contents, hsource, hreaches, hitem, hdecoded,
    fun henclosed => henclosed.prefix_of_onTheWay hup hreaches.onTheWay⟩

end Session

/-- A disk with a file and an output directory that has a link in it. -/
def linkedDisk (target : String) : Disk :=
  [(["outside"], .directory), (["outside", "x"], .file "keep".toUTF8), (["out"], .directory),
    (["out", "in"], .directory), (["out", "sub"], .link target)].foldl
      (fun d entry => d.put entry.1 entry.2) {}

def linkedDirectories : Directories := { source := "out", output := "out" }

/-- How far the workspace has come after preparing. -/
def linkedSession (target : String) : Session :=
  (Session.call ⟨[], linkedDisk target⟩
    (Directories.lift (linkedDirectories.prepare system))).2

/-- A link to a directory beside it does not lead out. -/
theorem files_stay_below_inwards : ∃ s s' place,
    s = (linkedSession "in").after linkedDirectories [.append "sub/x" "one"] ∧
    s.call (linkedDirectories.append system "sub/x" "two") = (.ok (), s') ∧
    Written ["out"] ["sub", "x"] (· ++ "two".toUTF8) s.disk s'.disk place ∧ ["out"] <+: place := by
  have hprepare : Session.call ⟨[], linkedDisk "in"⟩
      (Directories.lift (linkedDirectories.prepare system)) = (.ok (), linkedSession "in") :=
    Prod.ext (by decide +kernel) rfl
  obtain ⟨root, hroot, hcalls⟩ := Session.files_stay_below hprepare
  have hout : (linkedSession "in").disk.LeadsTo "out" ["out"] := by
    unfold LeadsTo Leads
    decide +kernel
  obtain rfl := hroot.eq hout
  obtain ⟨s, hs⟩ :
      ∃ s, s = (linkedSession "in").after linkedDirectories [.append "sub/x" "one"] := ⟨_, rfl⟩
  obtain ⟨_, _, _, happend, _⟩ := hcalls _ s hs
  have hok : (s.call (linkedDirectories.append system "sub/x" "two")).1 = .ok () := by
    rw [hs]
    decide +kernel
  have hin : s.disk.Leads ["out"] ["sub"] ["out", "in"] := by
    rw [hs]
    unfold Leads
    decide +kernel
  have hnames : Directories.namesBelow "sub/x" = ["sub", "x"] := by
    decide +kernel
  rcases hcall : s.call (linkedDirectories.append system "sub/x" "two") with ⟨result, s'⟩
  rw [hcall] at hok
  obtain rfl : result = .ok () := hok
  obtain ⟨place, hwritten, hbelow⟩ := (happend "sub/x" "two").written s' hcall
  rw [hnames] at hwritten hbelow
  refine ⟨s, s', place, hs, hcall, hwritten, hbelow ?_⟩
  -- Of the two names only the first one is on the way, and it leads to the directory `in`.
  intro first name dir target place hfirst hne _ _ hplace
  rcases first with _ | ⟨first, _ | ⟨second, rest⟩⟩
  · obtain rfl := (List.cons_prefix_cons.mp hfirst).1
    rw [← (hwritten.grows.leads hin).eq hplace]
    exact List.prefix_append ["out"] ["in"]
  · exact absurd (hfirst.eq_of_length rfl) hne
  · have hlength := hfirst.length_le
    simp at hlength

/-- **A link in the output directory lets a file out of it be overwritten and read.** Links are
looked for at the end of a path only. -/
theorem escapes_through_link :
    (linkedSession "../outside").disk.LeadsTo linkedDirectories.output ["out"] ∧
    (linkedSession "../outside").disk.item? ["outside", "x"] = some (.file "keep".toUTF8) ∧
    ((linkedSession "../outside").call
      (Directories.lift (linkedDirectories.read system "sub/x"))).1 = .ok "keep" ∧
    ((linkedSession "../outside").call (linkedDirectories.write system "sub/x" "lost")).1 = .ok () ∧
    ((linkedSession "../outside").call
      (linkedDirectories.write system "sub/x" "lost")).2.disk.item? ["outside", "x"] =
        some (.file "lost".toUTF8) ∧
    ¬ ["out"] <+: ["outside", "x"] := by
  unfold LeadsTo Leads
  decide +kernel

end Provision
