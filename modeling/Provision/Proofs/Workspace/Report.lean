import Provision.Proofs.Data.Construction
import Provision.Proofs.Workspace.Lexical
import Mathlib

/-! The report of a workspace.

Files are edited by writing them anew and by appending to them. An edit that succeeds is
remembered by its path, and one that fails, wherever it does, is not. In a directory without links
the report is then true of the disk: it has the lexical paths of the edits that succeeded, each
once and in the order of their first success, these are the files that there are, and each holds
what was written to it last and what was appended since. Only a file that a failing edit has
already changed may hold anything, and be there without being reported, until it is written anew. -/
namespace Provision
open Files Disk

/-- A change of a file that a workspace is asked for. -/
inductive Edit where
  | write (path text : String)
  | append (path text : String)
  deriving DecidableEq

namespace Edit

def path : Edit → String
  | .write path _ | .append path _ => path

def text : Edit → String
  | .write _ text | .append _ text => text

def isWrite : Edit → Bool
  | .write .. => true
  | .append .. => false

/-- The lexical path of the file. -/
def target (e : Edit) : List String := lexical e.path

/-- The contents of the file from those before. -/
def made : Edit → ByteArray → ByteArray
  | .write _ text, _ => text.toUTF8
  | .append _ text, before => before ++ text.toUTF8

def perform {m : Type → Type} [Monad m] (fs : FileSystem m) (dirs : Directories) :
    Edit → ExceptT Fault (Directories.M m) Unit
  | .write path text => dirs.write fs path text
  | .append path text => dirs.append fs path text

end Edit

/-! ### What files hold -/

/-- The last write and what is appended after it, or all edits if there is no write. -/
def sinceWrite : List Edit → List Edit
  | [] => []
  | e :: rest => if rest.any Edit.isWrite then sinceWrite rest else e :: rest

/-- The text that a file holds after some edits, of which those of other files do not count. -/
def textAfter (target : List String) (edits : List Edit) : String :=
  .join ((sinceWrite (edits.filter (·.target = target))).map Edit.text)

theorem sinceWrite_concat (edits : List Edit) (e : Edit) :
    sinceWrite (edits ++ [e]) = if e.isWrite then [e] else sinceWrite edits ++ [e] := by
  induction edits with
  | nil => simp [sinceWrite]
  | cons first rest ih =>
    rw [List.cons_append, sinceWrite, sinceWrite, List.any_append, ih]
    by_cases he : e.isWrite
    · simp [he]
    · by_cases hrest : rest.any Edit.isWrite <;> simp [he, hrest]

theorem textAfter_concat_of_ne {target : List String} {e : Edit} (h : e.target ≠ target)
    (edits : List Edit) : textAfter target (edits ++ [e]) = textAfter target edits := by
  simp [textAfter, h]

/-- Writing does not depend on the contents before. -/
theorem Edit.made_of_isWrite {e : Edit} (h : e.isWrite = true) (before before' : ByteArray) :
    e.made before = e.made before' := by
  cases e with
  | write path text => rfl
  | append path text => cases h

/-- One more edit makes of the old contents the new ones. -/
theorem toUTF8_textAfter_concat (edits : List Edit) (e : Edit) :
    (textAfter e.target (edits ++ [e])).toUTF8 = e.made (textAfter e.target edits).toUTF8 := by
  have hfilter : (edits ++ [e]).filter (·.target = e.target) =
      edits.filter (·.target = e.target) ++ [e] := by simp
  rw [textAfter, hfilter, sinceWrite_concat]
  cases e with
  | write path text => simp [Edit.isWrite, Edit.text, Edit.made]
  | append path text => simp [Edit.isWrite, Edit.text, Edit.made, textAfter]

theorem textAfter_of_notMem {target : List String} {edits : List Edit}
    (h : ∀ e ∈ edits, e.target ≠ target) : textAfter target edits = "" := by
  have hfilter : edits.filter (·.target = target) = [] := by simpa using h
  rw [textAfter, hfilter]
  rfl

/-! ### One edit -/

/-- What an edit comes to and leaves. -/
def Edit.attempt {σ : Type} (fs : FileSystem (StateM σ)) (dirs : Directories) (e : Edit)
    (written : List String) (s : σ) : (Except Fault Unit × List String) × σ :=
  ((e.perform fs dirs).run.run written).run s

/-- An edit fails and remembers nothing, when there are new directories at most and what is `left`
of changing its file, or it puts a file where its path can be written to. -/
inductive Edit.Outcome {σ : Type} (disk : σ → Disk) (left : String → Disk → Disk → Prop)
    (output : String) (root : Place) (e : Edit) (written : List String) (s : σ) :
    (Except Fault Unit × List String) × σ → Prop where
  | failed (f : Fault) (s' : σ) (d : Disk)
      (hfurnishes : Furnishes root (Directories.namesBelow e.path) (disk s) d)
      (hleft : disk s' = d ∨ ¬ Escapes (Directories.stripped e.path) ∧
        left (Path.join output (Directories.stripped e.path)) d (disk s')) :
      Outcome disk left output root e written s ((.error f, written), s')
  | made (s' : σ) (d : Disk) (place : Place) (before : ByteArray)
      (haccepted : ¬ Escapes (Directories.stripped e.path))
      (hfurnishes : Furnishes root (Directories.namesBelow e.path) (disk s) d)
      (hwritable : d.writable (Path.join output (Directories.stripped e.path)) =
        .ok (place, before))
      (hput : disk s' = d.put place (.file (e.made before))) :
      Outcome disk left output root e written s
        ((.ok (), Directories.record (Directories.stripped e.path) written), s')

section Attempt
variable {σ : Type} {fs : FileSystem (StateM σ)} {disk : σ → Disk}
  {left : String → Disk → Disk → Prop} {dirs : Directories} {root : Place} {s : σ}

theorem Edit.outcome_writeBy (hfs : fs.Fallible disk left)
    (hroot : (disk s).LeadsTo dirs.output root) {e : Edit}
    {operation : String → String → ExceptT SystemFault (StateM σ) Unit}
    {operation' : String → String → ExceptT SystemFault M Unit}
    {made : String → ByteArray → ByteArray} (hop : Rewrites operation' made)
    (hmade : made e.text = e.made)
    (hattempts : ∀ path text, Attempts disk (left path) (operation path text) (operation' path text))
    (written : List String) : e.Outcome disk left dirs.output root written s
      (((dirs.writeBy operation fs e.path e.text).run.run written).run s) := by
  by_cases hescapes : Escapes (Directories.stripped e.path)
  · rw [Directories.writeBy_of_error fs dirs operation e.text
      (Directories.relative_of_escapes hescapes)]
    exact .failed _ s _ (.refl _) (.inl rfl)
  have hrelative := Directories.relative_of_not_escapes hescapes
  obtain ⟨hbelow, _⟩ := Directories.below_of_relative hrelative dirs.output
  rw [Directories.run_writeBy hrelative]
  unfold Directories.remembering
  split
  next s' hattempt =>
    rcases hfs.attempt_cases hop hattempts hbelow hroot e.text hattempt with
      ⟨f, _, hfailed, _⟩ | ⟨_, s₁, place, before, _, hfurnishes, hwritable, hput⟩
    · cases hfailed
    · exact .made s' (disk s₁) place before hescapes hfurnishes hwritable (hmade ▸ hput)
  next f s' hattempt =>
    rcases hfs.attempt_cases hop hattempts hbelow hroot e.text hattempt with
      ⟨_, d, _, hfurnishes, hleft⟩ | ⟨hok, _⟩
    · exact .failed f s' d hfurnishes (hleft.imp_right (⟨hescapes, ·⟩))
    · cases hok

/-- An edit of a fallible file system does one of the two. -/
theorem Edit.outcome_attempt (hfs : fs.Fallible disk left)
    (hroot : (disk s).LeadsTo dirs.output root) (e : Edit) (written : List String) :
    e.Outcome disk left dirs.output root written s (e.attempt fs dirs written s) := by
  cases e with
  | write path text => exact outcome_writeBy hfs hroot rewrites_write rfl hfs.write written
  | append path text => exact outcome_writeBy hfs hroot rewrites_append rfl hfs.append written

end Attempt

/-! ### The report -/

/-- The paths of some edits are listed by their first spellings, without steps to the current
directory at the start. -/
structure Reports (done : List Edit) (written : List String) : Prop where
  /-- Each lexical path is there once, in the order in which they were first edited. -/
  order : written.map lexical = (done.map Edit.target).eraseDups
  spelled : ∀ p ∈ written, ∃ e, done.find? (fun e => e.target = lexical p) = some e ∧
    p = Directories.stripped e.path

/-- The parts of the paths of some edits are their names, of which there are some. -/
def WellNamed (done : List Edit) : Prop :=
  ∀ e ∈ done, e.target ≠ [] ∧
    Path.parts (Directories.stripped e.path) = e.target.map Path.Part.name

namespace Reports

variable {done : List Edit} {written : List String} {e : Edit}

theorem nil : Reports [] [] := ⟨rfl, fun _ hp => absurd hp List.not_mem_nil⟩

theorem nodup (h : Reports done written) : (written.map lexical).Nodup := by
  rw [h.order]
  exact OrderedMap.nodup_eraseDups _

theorem mem_iff (h : Reports done written) {target : List String} :
    target ∈ written.map lexical ↔ ∃ e ∈ done, e.target = target := by
  rw [h.order, List.mem_eraseDups, List.mem_map]

/-- A path is there already exactly if its lexical path is. -/
theorem any_parts_iff (h : Reports done written) (hnamed : WellNamed (done ++ [e])) :
    (written.any fun p => Path.parts p = Path.parts (Directories.stripped e.path)) = true ↔
      e.target ∈ written.map lexical := by
  -- Paths are compared by their parts, which for those that succeeded are names only.
  have he := (hnamed e (by simp)).2
  rw [List.any_eq_true, List.mem_map]
  refine exists_congr fun p => and_congr_right fun hp => ?_
  obtain ⟨e', hfind, rfl⟩ := h.spelled p hp
  have he' := (hnamed e' (List.mem_append_left _ (List.mem_of_find?_eq_some hfind))).2
  rw [decide_eq_true_iff, he, he', lexical_stripped]
  exact (List.map_injective_iff.mpr fun _ _ => Path.Part.name.inj).eq_iff

theorem record (h : Reports done written) (hnamed : WellNamed (done ++ [e])) :
    Reports (done ++ [e]) (Directories.record (Directories.stripped e.path) written) := by
  have hkept (p : String) (hp : p ∈ written) :
      ∃ e', (done ++ [e]).find? (fun e => e.target = lexical p) = some e' ∧
        p = Directories.stripped e'.path := by
    obtain ⟨e', hfind, hpath⟩ := h.spelled p hp
    exact ⟨e', by rw [List.find?_append, hfind]; rfl, hpath⟩
  have hmem : e.target ∈ written.map lexical ↔ e.target ∈ done.map Edit.target := by
    rw [h.order, List.mem_eraseDups]
  unfold Directories.record
  rw [if_congr (h.any_parts_iff hnamed) rfl rfl]
  split
  case isTrue hthere =>
    refine ⟨?_, hkept⟩
    rw [List.map_append, List.map_singleton, eraseDups_concat, if_pos (hmem.mp hthere), h.order]
  case isFalse hnew =>
    refine ⟨?_, fun p hp => ?_⟩
    · rw [List.map_append, List.map_append, List.map_singleton, List.map_singleton,
        eraseDups_concat, if_neg (mt hmem.mpr hnew), h.order, lexical_stripped]
      rfl
    · rcases List.mem_append.mp hp with hp | hp
      · exact hkept p hp
      · obtain rfl := List.mem_singleton.mp hp
        refine ⟨e, ?_, rfl⟩
        have hnone : done.find? (fun e' => e'.target = e.target) = none := by
          refine List.find?_eq_none.mpr fun e' he' heq => hnew (hmem.mpr ?_)
          exact of_decide_eq_true heq ▸ List.mem_map_of_mem he'
        rw [lexical_stripped, List.find?_append]
        show (done.find? (fun e' => e'.target = e.target)).or _ = _
        rw [hnone]
        simp [Edit.target]

end Reports

/-! ### The files -/

/-- The files below a directory are those of some edits, with what these make of them, unless
they are torn. -/
def Holds (root : Place) (torn : List (List String)) (done : List Edit) (d : Disk) : Prop :=
  ∀ target contents, target ≠ [] → target ∉ torn →
    (d.file? (root ++ target) = some contents ↔
      (∃ e ∈ done, e.target = target) ∧ contents = (textAfter target done).toUTF8)

/-- There are no links, and the paths of some edits lead to their files. -/
structure Finds (output : String) (root : Place) (done : List Edit) (d : Disk) : Prop where
  leads : d.LeadsTo output root
  linkless : d.Linkless root
  named : WellNamed done
  file : ∀ e ∈ done, ∃ contents,
    d.find true (Path.join output (Directories.stripped e.path)) =
      .ok (root ++ e.target, .file contents)

/-- The files that stay torn when an edit has succeeded: writing makes a file whole. -/
def mended (e : Edit) (torn : List (List String)) : List (List String) :=
  if e.isWrite then torn.filter (· ≠ e.target) else torn

/-- The files that are torn when an edit has failed: its own one too, if that has changed. -/
def tornBy (root : Place) (e : Edit) (d d' : Disk) (torn : List (List String)) :
    List (List String) :=
  if d'.file? (root ++ e.target) = d.file? (root ++ e.target) then torn else e.target :: torn

section Files
variable {output : String} {root place : Place} {torn : List (List String)} {done : List Edit}
  {d d' : Disk} {e : Edit} {names : List String} {before : ByteArray}

theorem Finds.grows (h : Finds output root done d) (hgrows : Grows d d') :
    Finds output root done d' where
  leads := hgrows.leadsTo h.leads
  linkless names target hne hlink := h.linkless names target hne ((hgrows.link _ _).mp hlink)
  named := h.named
  file e he := (h.file e he).elim fun _ hfind => hgrows.find_file hfind

/-- An edit is made where the lexical path of its file leads. -/
theorem Finds.place_eq (h : Finds output root done d)
    (haccepted : ¬ Escapes (Directories.stripped e.path))
    (hwritable : d.writable (Path.join output (Directories.stripped e.path)) =
      .ok (place, before)) :
    place = root ++ e.target ∧ e.target ≠ [] ∧
      (d.item? place = some (.file before) ∨ d.item? place = none ∧ before = .empty) := by
  obtain ⟨hbelow, hup⟩ :=
    Directories.below_of_relative (Directories.relative_of_not_escapes haccepted) output
  have hplace := hbelow.of_writable_linkless hup h.leads h.linkless hwritable
  have htarget : (Directories.namesBelow e.path).filter (· ≠ ".") = e.target :=
    lexical_stripped e.path
  rwa [htarget] at hplace

/-- A file can be put in the place of one or where nothing is. -/
theorem grows_put_file (hitem : d.item? place = some (.file before) ∨
    d.item? place = none ∧ before = .empty) (contents : ByteArray) :
    Grows d (d.put place (.file contents)) :=
  grows_put nofun (hitem.symm.imp And.left fun hfile => ⟨⟨_, hfile⟩, _, rfl⟩)

/-- A failing edit changes no other file than its own. -/
theorem Finds.of_failed (h : Finds output root done d)
    (haccepted : ¬ Escapes (Directories.stripped e.path))
    (htears : Tears (Path.join output (Directories.stripped e.path)) d d') :
    Grows d d' ∧ ∀ p, p ≠ root ++ e.target → d'.file? p = d.file? p := by
  cases htears with
  | untouched => exact ⟨.refl d, fun _ _ => rfl⟩
  | torn contents hwritable =>
    obtain ⟨rfl, _, hitem⟩ := h.place_eq haccepted hwritable
    exact ⟨grows_put_file hitem contents, fun p hp => by rw [file?, item?_put_of_ne hp]; rfl⟩

theorem Holds.congr (h : Holds root torn done d) (hsame : ∀ p, d'.file? p = d.file? p) :
    Holds root torn done d' := by
  intro target contents
  rw [hsame]
  exact h target contents

/-- What a failing edit leaves of its file counts as torn, unless it is what was there. -/
theorem Holds.of_failed (h : Holds root torn done d)
    (hothers : ∀ p, p ≠ root ++ e.target → d'.file? p = d.file? p) :
    Holds root (tornBy root e d d' torn) done d' := by
  intro target contents hne hwhole
  unfold tornBy at hwhole
  have hsame : d'.file? (root ++ target) = d.file? (root ++ target) ∧ target ∉ torn := by
    split at hwhole
    case isTrue hown =>
      refine ⟨?_, hwhole⟩
      by_cases heq : root ++ target = root ++ e.target
      · rw [heq, hown]
      · exact hothers _ heq
    case isFalse =>
      rw [List.mem_cons, not_or] at hwhole
      exact ⟨hothers _ (by simpa using hwhole.1), hwhole.2⟩
  rw [hsame.1]
  exact h target contents hne hsame.2

/-- What an edit starts from is what the edits before it have made of its file. -/
theorem Holds.before_eq (h : Holds root torn done d) (hne : e.target ≠ [])
    (hwhole : e.target ∉ torn) (hitem : d.item? (root ++ e.target) = some (.file before) ∨
      d.item? (root ++ e.target) = none ∧ before = .empty) :
    before = (textAfter e.target done).toUTF8 := by
  rcases hitem with hfile | ⟨hnone, rfl⟩
  · exact ((h e.target before hne hwhole).mp (file?_eq_some.mpr hfile)).2
  · rw [textAfter_of_notMem fun e' he' htarget => ?_]
    · rfl
    · have hthere := (h e.target _ hne hwhole).mpr ⟨⟨e', he', htarget⟩, rfl⟩
      rw [file?_eq_some, hnone] at hthere
      cases hthere

theorem Holds.put (h : Holds root torn done d) (hne : e.target ≠ [])
    (hitem : d.item? (root ++ e.target) = some (.file before) ∨
      d.item? (root ++ e.target) = none ∧ before = .empty) :
    Holds root (mended e torn) (done ++ [e])
      (d.put (root ++ e.target) (.file (e.made before))) := by
  intro target contents htarget hwhole
  unfold mended at hwhole
  by_cases heq : e.target = target
  · subst heq
    -- A file that was torn is whole again when it was written, whatever it held.
    have hmade : e.made before = e.made (textAfter e.target done).toUTF8 := by
      split at hwhole
      case isTrue hwrite => exact Edit.made_of_isWrite hwrite _ _
      case isFalse => rw [h.before_eq hne hwhole hitem]
    rw [file?_eq_some, item?_put_self (by simp [hne]), hmade, ← toUTF8_textAfter_concat]
    simp [eq_comm]
  · have hold : target ∉ torn := by
      intro hmem
      split at hwhole
      · exact hwhole (List.mem_filter.mpr ⟨hmem, by simpa using Ne.symm heq⟩)
      · exact hwhole hmem
    rw [file?, item?_put_of_ne (by simpa using Ne.symm heq), ← file?, h target contents htarget hold,
      textAfter_concat_of_ne heq]
    simp [heq]

theorem Finds.put (h : Finds output root done d)
    (haccepted : ¬ Escapes (Directories.stripped e.path))
    (hwritable : d.writable (Path.join output (Directories.stripped e.path)) =
      .ok (root ++ e.target, before)) (hne : e.target ≠ []) {contents : ByteArray}
    (hgrows : Grows d (d.put (root ++ e.target) (.file contents))) :
    Finds output root (done ++ [e]) (d.put (root ++ e.target) (.file contents)) := by
  have hgrown := h.grows hgrows
  refine ⟨hgrown.leads, hgrown.linkless, List.forall_mem_append.mpr ⟨h.named, ?_⟩,
    List.forall_mem_append.mpr ⟨hgrown.file, ?_⟩⟩
  · rw [List.forall_mem_singleton]
    refine ⟨hne, ?_⟩
    rw [Edit.target, ← lexical_stripped] at hne ⊢
    exact parts_eq_names haccepted (Directories.exists_steps e.path).2 hne
  · rw [List.forall_mem_singleton]
    exact ⟨contents, find_put hwritable hgrows (by simp [hne])⟩

end Files

/-! ### Edits one after the other -/

/-- How far a workspace has come: what it remembers as written, what the file system has become,
which edits succeeded, and which files edits have changed that failed, and none has written anew. -/
structure Course (σ : Type) where
  written : List String
  world : σ
  done : List Edit
  torn : List (List String)

namespace Course

variable {σ : Type} {fs : FileSystem (StateM σ)} {disk : σ → Disk} {dirs : Directories}
  {root : Place}

/-- Nothing is written yet. -/
def start (world : σ) : Course σ := { written := [], world, done := [], torn := [] }

def step (fs : FileSystem (StateM σ)) (dirs : Directories) (disk : σ → Disk) (root : Place)
    (c : Course σ) (e : Edit) : Course σ :=
  match e.attempt fs dirs c.written c.world with
  | ((.ok (), written), world) =>
    { written, world, done := c.done ++ [e], torn := mended e c.torn }
  | ((.error _, written), world) =>
    { written, world, done := c.done, torn := tornBy root e (disk c.world) (disk world) c.torn }

/-- How far it comes with some edits, also if some of them fail. -/
def after (fs : FileSystem (StateM σ)) (dirs : Directories) (disk : σ → Disk) (root : Place)
    (edits : List Edit) (c : Course σ) : Course σ :=
  edits.foldl (step fs dirs disk root) c

/-- The report and the files are those of the edits that succeeded. -/
structure Sound (c : Course σ) (disk : σ → Disk) (output : String) (root : Place) : Prop where
  reports : Reports c.done c.written
  holds : Holds root c.torn c.done (disk c.world)
  finds : Finds output root c.done (disk c.world)

theorem sound_start {world : σ} {output : String} (hroot : (disk world).LeadsTo output root)
    (hvacant : (disk world).Vacant root) : (start world).Sound disk output root where
  reports := .nil
  holds target contents hne _ := by
    rw [start, file?_eq_some, hvacant target hne]
    simp
  finds := ⟨hroot, hvacant.linkless, fun _ he => absurd he List.not_mem_nil,
    fun _ he => absurd he List.not_mem_nil⟩

/-- An edit that fails remembers nothing and changes no other file than its own. -/
theorem Sound.of_failed (hfs : fs.Fallible disk Tears) {c : Course σ}
    (h : c.Sound disk dirs.output root) {e : Edit} {f : Fault} {written : List String} {world : σ}
    (hattempt : e.attempt fs dirs c.written c.world = ((.error f, written), world)) :
    written = c.written ∧ Grows (disk c.world) (disk world) ∧
      ∀ p, p ≠ root ++ e.target → (disk world).file? p = (disk c.world).file? p := by
  have houtcome := e.outcome_attempt hfs h.finds.leads c.written
  rw [hattempt] at houtcome
  cases houtcome with
  | failed _ _ d hfurnishes hleft =>
    refine ⟨rfl, ?_⟩
    rcases hleft with rfl | ⟨haccepted, htears⟩
    · exact ⟨hfurnishes.grows, fun p _ => hfurnishes.file?_eq p⟩
    · obtain ⟨hgrows, hothers⟩ := (h.finds.grows hfurnishes.grows).of_failed haccepted htears
      exact ⟨hfurnishes.grows.trans hgrows,
        fun p hp => (hothers p hp).trans (hfurnishes.file?_eq p)⟩

/-- One more edit keeps them so, whether it succeeds or fails. -/
theorem Sound.step (hfs : fs.Fallible disk Tears) {c : Course σ}
    (h : c.Sound disk dirs.output root) (e : Edit) :
    (c.step fs dirs disk root e).Sound disk dirs.output root := by
  have houtcome := e.outcome_attempt hfs h.finds.leads c.written
  unfold Course.step
  split
  next written world hattempt =>
    rw [hattempt] at houtcome
    cases houtcome with
    | made _ d place before haccepted hfurnishes hwritable hput =>
      -- The directories on the way are made first, which changes no file and no report.
      have hholds := h.holds.congr hfurnishes.file?_eq
      have hfinds := h.finds.grows hfurnishes.grows
      obtain ⟨rfl, hne, hitem⟩ := hfinds.place_eq haccepted hwritable
      have hfound := hfinds.put haccepted hwritable hne (grows_put_file hitem (e.made before))
      have hheld := hholds.put hne hitem
      rw [← hput] at hfound hheld
      exact ⟨h.reports.record hfound.named, hheld, hfound⟩
  next f written world hattempt =>
    obtain ⟨rfl, hgrows, hothers⟩ := h.of_failed hfs hattempt
    exact ⟨h.reports, h.holds.of_failed hothers, h.finds.grows hgrows⟩

/-- So they are after any edits. -/
theorem Sound.after (hfs : fs.Fallible disk Tears) {c : Course σ}
    (h : c.Sound disk dirs.output root) (edits : List Edit) :
    (c.after fs dirs disk root edits).Sound disk dirs.output root := by
  induction edits generalizing c with
  | nil => exact h
  | cons e rest ih => exact ih (h.step hfs e)

/-- No file is torn if changing one leaves it as it was when it fails. -/
theorem Sound.torn_step (hfs : fs.Fallible disk fun _ => Eq) {c : Course σ}
    (h : c.Sound disk dirs.output root) (htorn : c.torn = []) (e : Edit) :
    (c.step fs dirs disk root e).torn = [] := by
  have houtcome := e.outcome_attempt hfs h.finds.leads c.written
  unfold Course.step
  split
  next => simp [mended, htorn]
  next f written world hattempt =>
    rw [hattempt] at houtcome
    cases houtcome with
    | failed _ _ d hfurnishes hleft =>
      obtain rfl : disk world = d := hleft.elim id fun hleft => hleft.2.symm
      rw [tornBy, if_pos (hfurnishes.file?_eq _), htorn]

theorem Sound.torn_after (hfs : fs.Fallible disk fun _ => Eq) {c : Course σ}
    (h : c.Sound disk dirs.output root) (htorn : c.torn = []) (edits : List Edit) :
    (c.after fs dirs disk root edits).torn = [] := by
  induction edits generalizing c with
  | nil => exact htorn
  | cons e rest ih => exact ih (h.step hfs.tears e) (h.torn_step hfs htorn e)

/-- The path of an edit that succeeded is that of a file, with what its edits make of it unless it
is torn. -/
theorem Sound.read {c : Course σ} {output : String} (h : c.Sound disk output root) {e : Edit}
    (he : e ∈ c.done) :
    ∃ contents, (disk c.world).read (Path.join output (Directories.stripped e.path)) =
      .ok contents ∧ (e.target ∉ c.torn → contents = (textAfter e.target c.done).toUTF8) := by
  obtain ⟨contents, hfind⟩ := h.finds.file e he
  refine ⟨contents, bind_eq_ok.mpr ⟨_, hfind, rfl⟩, fun hwhole => ?_⟩
  exact ((h.holds e.target contents (h.finds.named e he).1 hwhole).mp
    (file?_eq_some.mpr (item?_of_find hfind))).2

end Course

/-- Changes a file if the text is short. Of a longer one nothing is written, although the file is
there then, and empty if it was to be written anew. -/
def cramped (operation : String → String → ExceptT SystemFault M Unit) (path text : String) :
    ExceptT SystemFault M Unit := do
  if text.length ≤ 5 then operation path text
  else
    operation path ""
    throw (.unexplained "No space left on device (os error 28)")

/-- A disk that has space for short texts only. -/
def crampedSystem : FileSystem M :=
  { system with write := cramped system.write, append := cramped system.append }

theorem attempts_cramped {operation : String → String → ExceptT SystemFault M Unit}
    {made : String → ByteArray → ByteArray} (hop : Rewrites operation made) (path text : String) :
    Attempts id (Tears path) (cramped operation path text) (operation path text) := by
  intro d
  unfold cramped
  split
  case isTrue => exact .inr rfl
  case isFalse =>
    refine .inl ?_
    have hrun := hop path "" d
    cases hwritable : d.writable path with
    | ok found =>
      rw [hwritable] at hrun
      rw [run_bind_of_ok hrun]
      exact ⟨_, rfl, .torn _ hwritable⟩
    | error e =>
      rw [hwritable] at hrun
      rw [run_bind_of_error hrun]
      exact ⟨_, rfl, .untouched⟩

theorem fallible_crampedSystem : crampedSystem.Fallible id Tears where
  kind := fallible_system.kind
  destination := fallible_system.destination
  createDirectory := fallible_system.createDirectory
  write := attempts_cramped rewrites_write
  append := attempts_cramped rewrites_append

/-- A disk on which an output directory was prepared, and nothing else. -/
def freshDisk : Disk :=
  (((Directories.mk "src" "out").prepare crampedSystem).run.run {}).2

/-- Edits of three files in several spellings, and of no file. -/
def respelledEdits : List Edit :=
  [.write "./a//x" "one", .append "a/./x" "two", .write "../x" "three", .write "a" "four",
    .append "b" "five", .write "./b" "a long text", .append "b/." "six", .write "b" "seven",
    .append "b" "eight", .append "c" "another long text"]

end Provision
