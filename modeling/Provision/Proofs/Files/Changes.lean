import Mathlib.Data.List.Induction
import Provision.Proofs.Files.Fallible
import Provision.Proofs.Files.Path
import Provision.Proofs.Files.Walk

/-! What is changed below a directory.

A path below a root is walked from the root on. Making the directories that a path is in puts
new ones where the first of its names lead; writing puts a file where all of its names lead,
if there is no link at the end. Where names lead need not be below the root: a link on the way
may lead out of it. That is the only way out, as long as no name is a step up. -/
namespace Provision.Files.Disk

variable {d d' : Disk} {root place : Place} {names : List String} {output path : String}

/-! ### Where names lead -/

/-- Names lead from a directory to another one. -/
def Leads (d : Disk) (start : Place) (names : List String) (place : Place) : Prop :=
  d.walk true linkLimit start names = .ok (place, some .directory)

/-- A path leads to a directory. -/
def LeadsTo (d : Disk) (path : String) (place : Place) : Prop :=
  d.Leads (origin d.current path) (namesOf path) place

theorem leads_iff {start : Place} : d.Leads start names place ↔
    Walks d true linkLimit start names place (some .directory) :=
  walk_eq_ok

theorem Leads.eq {start place' : Place} (h : d.Leads start names place)
    (h' : d.Leads start names place') : place = place' :=
  (Prod.mk.inj (Except.ok.inj (h.symm.trans h'))).1

theorem LeadsTo.eq {place' : Place} (h : d.LeadsTo path place) (h' : d.LeadsTo path place') :
    place = place' :=
  Leads.eq h h'

/-- The first of some names that lead to a directory do so, too. -/
theorem Leads.of_prefix {start : Place} {first : List String} (h : d.Leads start names place)
    (hfirst : first <+: names) : ∃ between, d.Leads start first between := by
  obtain ⟨last, rfl⟩ := hfirst
  by_cases hlast : last = []
  · rw [hlast, List.append_nil] at h
    exact ⟨place, h⟩
  · obtain ⟨between, _, _, hfirst, _⟩ := (leads_iff.mp h).append hlast
    exact ⟨between, leads_iff.mpr hfirst⟩

theorem Grows.leads (h : Grows d d') {start : Place} (hleads : d.Leads start names place) :
    d'.Leads start names place :=
  leads_iff.mpr (h.walks (leads_iff.mp hleads))

theorem Grows.leadsTo (h : Grows d d') (hleads : d.LeadsTo path place) : d'.LeadsTo path place := by
  rw [LeadsTo, h.current]
  exact h.leads hleads

/-- No link on the way of some names leads out of a root. -/
def Enclosed (d : Disk) (root : Place) (names : List String) : Prop :=
  ∀ first name dir target place, first ++ [name] <+: names → first ++ [name] ≠ names →
    d.Leads root first dir → d.item? (dir ++ [name]) = some (.link target) →
    d.Leads root (first ++ [name]) place → root <+: place

theorem ne_of_prefix_concat {first : List String} {name : String}
    (h : first ++ [name] <+: names) : first ≠ names := by
  rintro rfl
  have hlength := h.length_le
  rw [List.length_append, List.length_singleton] at hlength
  exact Nat.not_succ_le_self _ hlength

/-- Without steps up, only links lead out of a root. -/
theorem Enclosed.prefix_of_leads (h : d.Enclosed root names) (hup : ".." ∉ names)
    {first : List String} (hfirst : first <+: names) (hne : first ≠ names) {dir : Place}
    (hleads : d.Leads root first dir) : root <+: dir := by
  -- A name is followed from where those before it lead to, so names are taken off at the end.
  induction first using List.reverseRecOn generalizing dir with
  | nil =>
    cases leads_iff.mp hleads
    exact List.prefix_rfl
  | append_singleton first name ih =>
    obtain ⟨between, left, hleft, hbetween, hname⟩ :=
      (leads_iff.mp hleads).append (List.cons_ne_nil name [])
    have hprefix : first <+: names := (List.prefix_append _ _).trans hfirst
    have hroot := ih hprefix (ne_of_prefix_concat hfirst) (leads_iff.mpr hbetween)
    rcases hname.singleton_cases with hnext | ⟨between', target, hnext⟩
    · rcases next_cases hnext with ⟨_, rfl, _⟩ | ⟨rfl, _, _⟩ | ⟨_, rfl, _⟩
      · exact hroot
      · exact absurd (hfirst.subset (List.mem_append_right _ List.mem_cons_self)) hup
      · exact hroot.trans (List.prefix_append _ _)
    · obtain ⟨_, rfl, hlink⟩ := ordinary_of_next hnext nofun
      exact h first name between target dir hfirst hne (leads_iff.mpr hbetween) hlink.symm hleads

/-- Names reach a place if all but the last one lead to the directory around it. -/
def Reaches (d : Disk) (root : Place) (names : List String) (place : Place) : Prop :=
  ∃ first name dir, names = first ++ [name] ∧ d.Leads root first dir ∧ place = dir ++ [name]

/-- Some of the first names reach a place. -/
def OnTheWay (d : Disk) (root : Place) (names : List String) (place : Place) : Prop :=
  ∃ first, first <+: names ∧ d.Reaches root first place

theorem Reaches.grows (h : d.Reaches root names place) (hgrows : Grows d d') :
    d'.Reaches root names place := by
  obtain ⟨first, name, dir, hnames, hdir, hplace⟩ := h
  exact ⟨first, name, dir, hnames, hgrows.leads hdir, hplace⟩

theorem Reaches.ne_nil (h : d.Reaches root names place) : place ≠ [] := by
  obtain ⟨_, name, dir, _, _, rfl⟩ := h
  exact List.append_ne_nil_of_right_ne_nil dir (List.cons_ne_nil name [])

theorem OnTheWay.grows (h : d.OnTheWay root names place) (hgrows : Grows d d') :
    d'.OnTheWay root names place := by
  obtain ⟨first, hfirst, hreaches⟩ := h
  exact ⟨first, hfirst, hreaches.grows hgrows⟩

theorem Reaches.onTheWay (h : d.Reaches root names place) : d.OnTheWay root names place :=
  ⟨names, List.prefix_rfl, h⟩

theorem Enclosed.prefix_of_onTheWay (h : d.Enclosed root names) (hup : ".." ∉ names)
    (hplace : d.OnTheWay root names place) : root <+: place := by
  obtain ⟨_, hfirst, first, name, dir, rfl, hdir, rfl⟩ := hplace
  exact (h.prefix_of_leads hup ((List.prefix_append _ _).trans hfirst)
    (ne_of_prefix_concat hfirst) hdir).trans (List.prefix_append _ _)

/-- A walk from the root that ends elsewhere than at a directory reaches the place. -/
theorem reaches_of_walks {links : Nat} {item? : Option Item} (hle : links ≤ linkLimit)
    (h : Walks d false links root names place item?) (hitem : item? ≠ some .directory) :
    d.Reaches root names place ∧ d.item? place = item? := by
  rcases List.eq_nil_or_concat' names with rfl | ⟨first, name, rfl⟩
  · cases h
    exact absurd rfl hitem
  · obtain ⟨dir, left, hleft, hdir, hname⟩ := h.append (List.cons_ne_nil name [])
    obtain ⟨_, hplace, hfound⟩ := ordinary_of_next hname.singleton hitem
    exact ⟨⟨first, name, dir, rfl, leads_iff.mpr (hdir.of_le hle), hplace⟩, hfound.symm⟩

/-! ### New directories -/

/-- Nothing is different but that there are new directories on the way of some names. -/
structure Furnishes (root : Place) (names : List String) (d d' : Disk) : Prop where
  current : d'.current = d.current
  stays (p : Place) (item : Item) (h : d.item? p = some item) : d'.item? p = some item
  new (p : Place) (item : Item) (hnone : d.item? p = none) (h : d'.item? p = some item) :
    item = .directory ∧ d'.OnTheWay root names p

namespace Furnishes

theorem refl (d : Disk) : Furnishes root names d d where
  current := rfl
  stays := fun _ _ h => h
  new := fun p item hnone h => by
    rw [hnone] at h
    cases h

/-- What is no directory is not new. -/
theorem item?_iff (h : Furnishes root names d d') (p : Place) {item : Item}
    (hitem : item ≠ .directory) : d'.item? p = some item ↔ d.item? p = some item := by
  refine ⟨fun hp => ?_, h.stays p item⟩
  cases hbefore : d.item? p with
  | none => exact absurd (h.new p item hbefore hp).1 hitem
  | some before => rwa [h.stays p before hbefore] at hp

theorem grows (h : Furnishes root names d d') : Grows d d' where
  current := h.current
  directory := fun p hp => h.stays p _ hp
  link := fun p _ => h.item?_iff p (by simp)
  file := fun p contents hp => ⟨contents, h.stays p _ hp⟩

theorem trans {d₁ d₂ d₃ : Disk} (h : Furnishes root names d₁ d₂) (h' : Furnishes root names d₂ d₃) :
    Furnishes root names d₁ d₃ where
  current := h'.current.trans h.current
  stays := fun p item hp => h'.stays p item (h.stays p item hp)
  new := fun p item hnone hp => by
    cases hitem : d₂.item? p with
    | none => exact h'.new p item hitem hp
    | some item' =>
      obtain ⟨rfl, hplace⟩ := h.new p item' hnone hitem
      rw [h'.stays p _ hitem] at hp
      cases hp
      exact ⟨rfl, hplace.grows h'.grows⟩

end Furnishes

/-- What furnishing does, provided that a path leads to the root. -/
def FurnishesFrom (output : String) (root : Place) (names : List String) (d d' : Disk) : Prop :=
  d.LeadsTo output root → Furnishes root names d d'

instance : Std.Refl (FurnishesFrom output root names) := ⟨fun d _ => .refl d⟩

instance : IsTrans Disk (FurnishesFrom output root names) :=
  ⟨fun _ _ _ h h' hroot => (h hroot).trans (h' ((h hroot).grows.leadsTo hroot))⟩

/-- A path to one of the directories around some names below a root, or around the root. -/
structure Around (path output : String) (names : List String) : Prop where
  start : Path.isAbsolute path = Path.isAbsolute output
  names : namesOf path <+: namesOf output ++ names

theorem origin_eq (h : Path.isAbsolute path = Path.isAbsolute output) (dir : Place) :
    origin dir path = origin dir output := by
  rw [origin, origin, h]

theorem find_eq_ok {follow : Bool} {item : Item} : d.find follow path = .ok (place, item) ↔
    validate path = .ok () ∧
      Walks d follow linkLimit (origin d.current path) (stepsOf path) place (some item) := by
  constructor
  · intro h
    obtain ⟨⟨place', item?⟩, hwalk, hfound⟩ := bind_eq_ok.mp h
    obtain ⟨_, hvalid, hwalk⟩ := bind_eq_ok.mp hwalk
    cases item? with
    | none => cases hfound
    | some item' =>
      cases hfound
      exact ⟨hvalid, walk_eq_ok.mp hwalk⟩
  · intro h
    exact bind_eq_ok.mpr ⟨_, bind_eq_ok.mpr ⟨(), h.1, walk_eq_ok.mpr h.2⟩, rfl⟩

theorem createDirectory_eq_ok (h : d.createDirectory path = .ok d') :
    ∃ place, Walks d false linkLimit (origin d.current path) (namesOf path) place none ∧
      d' = d.put place .directory := by
  obtain ⟨place, hvacancy, hput⟩ := bind_eq_ok.mp h
  obtain ⟨⟨place', item?⟩, hwalk, hvacant⟩ := bind_eq_ok.mp hvacancy
  obtain ⟨_, _, hwalk⟩ := bind_eq_ok.mp hwalk
  cases item? with
  | some item => cases hvacant
  | none =>
    cases hvacant
    exact ⟨place, walk_eq_ok.mp hwalk, (Except.ok.inj hput).symm⟩

/-- On the way to the root there is nothing missing, so what is missing is below it. -/
theorem Around.reaches (h : Around path output names) (hroot : d.LeadsTo output root)
    (hwalks : Walks d false linkLimit (origin d.current path) (namesOf path) place none) :
    d.OnTheWay root names place := by
  rw [origin_eq h.start] at hwalks
  -- What is around the root is there already, since the path to the root goes through it.
  have hnot : ¬ namesOf path <+: namesOf output := by
    intro hprefix
    obtain ⟨between, hbetween⟩ := hroot.of_prefix hprefix
    cases ((hwalks.followed nofun).eq (leads_iff.mp hbetween)).2
  obtain ⟨rest, hrest⟩ := (List.prefix_or_prefix_of_prefix h.names
    (List.prefix_append _ _)).resolve_left hnot
  have hne : rest ≠ [] := by
    rintro rfl
    rw [List.append_nil] at hrest
    exact hnot (hrest ▸ List.prefix_rfl)
  have hnames : rest <+: names := (List.prefix_append_right_inj _).mp (hrest ▸ h.names)
  rw [← hrest] at hwalks
  obtain ⟨between, left, hleft, hbetween, hwalks⟩ := hwalks.append hne
  obtain ⟨rfl, _⟩ := hbetween.eq (leads_iff.mp hroot)
  exact ⟨rest, hnames, (reaches_of_walks hleft hwalks nofun).1⟩

theorem furnishes_put (hplace : d.OnTheWay root names place) (hnone : d.item? place = none) :
    Furnishes root names d (d.put place .directory) := by
  have hgrows : Grows d (d.put place .directory) := grows_put nofun (.inl hnone)
  obtain ⟨first, hfirst, hreaches⟩ := hplace
  refine ⟨rfl, fun p item hp => ?_, fun p item hp hnew => ?_⟩
  · have hne : p ≠ place := by
      rintro rfl
      rw [hnone] at hp
      cases hp
    rw [item?_put_of_ne hne, hp]
  · by_cases heq : p = place
    · subst heq
      rw [item?_put_self hreaches.ne_nil] at hnew
      exact ⟨(Option.some.inj hnew).symm, first, hfirst, hreaches.grows hgrows⟩
    · rw [item?_put_of_ne heq, hp] at hnew
      cases hnew

/-! ### Making directories -/

theorem run_asking {α : Type} (f : Disk → Except SystemFault α) (d : Disk) :
    (asking f).run.run d = (f d, d) := by
  show (ofExcept (f d) : ExceptT SystemFault M α).run.run d = _
  cases f d <;> rfl

theorem run_changing (f : Disk → Except SystemFault Disk) (d : Disk) :
    (changing f).run.run d =
      match f d with
      | .ok d' => (.ok (), d')
      | .error e => (.error e, d) := by
  show (ofExcept (f d) >>= set : ExceptT SystemFault M Unit).run.run d = _
  cases f d <;> rfl

theorem relates_asking {r : Disk → Disk → Prop} [Std.Refl r] {α : Type}
    (f : Disk → Except SystemFault α) : Relates r (asking f).run := by
  intro d
  rw [run_asking]
  exact refl_of r d

theorem relates_createDirectory (h : Around path output names) :
    Relates (FurnishesFrom output root names) (system.createDirectory path).run := by
  intro d
  have hrun : (system.createDirectory path).run.run d = _ := run_changing ..
  rw [hrun]
  cases hcreate : d.createDirectory path with
  | error e => exact refl_of _ d
  | ok d' =>
    obtain ⟨place, hwalks, rfl⟩ := createDirectory_eq_ok hcreate
    exact fun hroot => furnishes_put (h.reaches hroot hwalks) hwalks.vacant

/-- What is made is what the path leads to. -/
theorem attains_createDirectory (path : String) :
    Attains (fun d => ∃ place, d.LeadsTo path place) (system.createDirectory path) := by
  intro d _ d' h
  have hrun : (system.createDirectory path).run.run d = _ := run_changing ..
  rw [hrun] at h
  cases hcreate : d.createDirectory path with
  | error e =>
    rw [hcreate] at h
    cases h
  | ok d₁ =>
    rw [hcreate] at h
    cases h
    obtain ⟨place, hwalks, rfl⟩ := createDirectory_eq_ok hcreate
    exact ⟨place, leads_iff.mpr (hwalks.put.followed nofun)⟩

theorem leadsTo_of_destination (h : d.destination path = .ok .directory) :
    ∃ place, d.LeadsTo path place := by
  obtain ⟨⟨place, item⟩, hfind, hkind⟩ := bind_eq_ok.mp h
  have hwalks := (find_eq_ok.mp hfind).2
  cases item with
  | file contents => cases hkind
  | link target => cases hkind
  | directory =>
    unfold stepsOf at hwalks
    split at hwalks
    · obtain ⟨between, _, _, hbetween, _⟩ := hwalks.append (List.cons_ne_nil "." [])
      exact ⟨between, leads_iff.mpr hbetween⟩
    · exact ⟨place, leads_iff.mpr hwalks⟩

section Fallible
variable {σ : Type} {fs : FileSystem (StateM σ)} {disk : σ → Disk}
  {left : String → Disk → Disk → Prop} (hfs : fs.Fallible disk left)
include hfs

/-- Making directories puts new ones on the way of the names, also where it fails. -/
theorem relates_createDirectories (h : Around path output names) :
    Relates (Order.Preimage disk (FurnishesFrom output root names))
      (fs.createDirectories path).run := by
  refine relates_createInside (fun around haround => ?_) fun path _ =>
    (hfs.destination path).relates (relates_asking _)
  obtain ⟨hstart, hnames⟩ := of_mem_ancestors haround
  exact (hfs.createDirectory around).relates
    (relates_createDirectory ⟨hstart.trans h.start, hnames.trans h.names⟩)

/-- What was made or is there is what the path leads to. -/
theorem attains_createDirectories (path : String) :
    Attains (fun s => ∃ place, (disk s).LeadsTo path place) (fs.createDirectories path) := by
  have hinside (around : List String) : Attains (fun s => ∃ place, (disk s).LeadsTo path place)
      (fs.createInside (path :: around)) := by
    refine attains_createInside ?empty ((hfs.createDirectory path).attains
      (attains_createDirectory path)) ?look around
    case empty =>
      intro hempty s
      rw [String.isEmpty_iff.mp hempty]
      exact ⟨_, walk_nil ..⟩
    case look =>
      intro s s' hlook
      have hasked := (hfs.destination path).run_of_ok hlook
      rw [show system.destination path = asking (·.destination path) from rfl, run_asking] at hasked
      obtain ⟨hdestination, hsame⟩ := Prod.mk.inj hasked
      exact hsame ▸ leadsTo_of_destination hdestination
  unfold FileSystem.createDirectories Path.ancestors
  rw [Path.ancestorsUpTo]
  split
  · exact hinside _
  · exact hinside []

end Fallible

/-! ### Files -/

/-- A path to some names below a root. -/
structure Below (path output : String) (names : List String) : Prop where
  start : Path.isAbsolute path = Path.isAbsolute output
  ne_nil : names ≠ []
  names : namesOf path = namesOf output ++ names

/-- A walk over a path below a root goes on from the root. -/
theorem Below.walks {follow : Bool} {item? : Option Item} (h : Below path output names)
    (hwalks : Walks d follow linkLimit (origin d.current path) (namesOf path) place item?) :
    ∃ root links, links ≤ linkLimit ∧ d.LeadsTo output root ∧
      Walks d follow links root names place item? := by
  rw [origin_eq h.start, h.names] at hwalks
  obtain ⟨root, links, hle, hroot, hwalks⟩ := hwalks.append h.ne_nil
  exact ⟨root, links, hle, leads_iff.mpr hroot, hwalks⟩

/-- A path below a root that ends elsewhere than at a directory reaches the place from there. -/
theorem Below.reaches {item? : Option Item} (h : Below path output names)
    (hwalks : Walks d false linkLimit (origin d.current path) (namesOf path) place item?)
    (hitem : item? ≠ some .directory) :
    ∃ root, d.LeadsTo output root ∧ d.Reaches root names place ∧ d.item? place = item? := by
  obtain ⟨root, links, hle, hroot, hwalks⟩ := h.walks hwalks
  exact ⟨root, hroot, reaches_of_walks hle hwalks hitem⟩

/-- What can be written is what a path leads to: a file, or nothing yet. -/
theorem of_writable {before : ByteArray} (h : d.writable path = .ok (place, before)) :
    validate path = .ok () ∧ ¬ isSlashed path = true ∧ ∃ item?,
      Walks d true linkLimit (origin d.current path) (namesOf path) place item? ∧
      (item? = some (.file before) ∨ item? = none ∧ before = .empty) := by
  obtain ⟨⟨place', item?⟩, hwalk, hitem⟩ := bind_eq_ok.mp h
  obtain ⟨_, hvalid, hwalk⟩ := bind_eq_ok.mp hwalk
  have hwalks := walk_eq_ok.mp hwalk
  have hdirectory : item? ≠ some .directory := by
    rintro rfl
    cases hitem
  have hslashed : ¬ isSlashed path = true := by
    intro hslashed
    rw [stepsToFile, if_pos hslashed] at hwalks
    exact hdirectory hwalks.eq_directory
  rw [stepsToFile, if_neg hslashed] at hwalks
  rcases item? with _ | (contents | _ | target)
  · cases hitem
    exact ⟨hvalid, hslashed, none, hwalks, .inr ⟨rfl, rfl⟩⟩
  · cases hitem
    exact ⟨hvalid, hslashed, _, hwalks, .inl rfl⟩
  · exact absurd rfl hdirectory
  · exact absurd rfl (hwalks.ne_link target)

/-- A file is put where the names of its path reach, if there is no link. -/
theorem Below.of_writable {before : ByteArray} (h : Below path output names)
    (hlink : d.kind path ≠ .ok .link) (hwritable : d.writable path = .ok (place, before)) :
    ∃ root, d.LeadsTo output root ∧ d.Reaches root names place ∧
      (d.item? place = some (.file before) ∨ d.item? place = none ∧ before = .empty) := by
  obtain ⟨hvalid, hslashed, item?, hwalks, hitem⟩ := Disk.of_writable hwritable
  -- Writing follows a link at the end of a path, and asking for its kind does not.
  have hunlinked (between : Place) (target : String) : ¬ Walks d false linkLimit
      (origin d.current path) (namesOf path) between (some (.link target)) := by
    intro hwalks
    have hfind : d.find false path = .ok (between, .link target) := by
      rw [find_eq_ok, stepsOf, if_neg hslashed]
      exact ⟨hvalid, hwalks⟩
    exact hlink (bind_eq_ok.mpr ⟨_, hfind, rfl⟩)
  have hends := hwalks.unfollowed.resolve_right fun ⟨_, _, h⟩ => hunlinked _ _ h
  have hdirectory : item? ≠ some .directory := by
    rintro rfl
    simp at hitem
  obtain ⟨root, hroot, hreaches, hfound⟩ := h.reaches hends hdirectory
  exact ⟨root, hroot, hreaches, hfound ▸ hitem⟩

/-- A file that is no link is where the names of its path reach, and is what they lead to. -/
theorem Below.of_kind {size : Nat} (h : Below path output names)
    (hkind : d.kind path = .ok (.file size)) : ∃ root place contents,
      d.LeadsTo output root ∧ d.Reaches root names place ∧
      d.item? place = some (.file contents) ∧ d.read path = .ok contents := by
  obtain ⟨⟨place, item⟩, hfind, hitem⟩ := bind_eq_ok.mp hkind
  obtain ⟨hvalid, hwalks⟩ := find_eq_ok.mp hfind
  cases item with
  | directory => cases hitem
  | link target => cases hitem
  | file contents =>
    have hread : d.read path = .ok contents :=
      bind_eq_ok.mpr ⟨_, find_eq_ok.mpr ⟨hvalid, hwalks.followed nofun⟩, rfl⟩
    have hslashed : ¬ isSlashed path = true := by
      intro hslashed
      rw [stepsOf, if_pos hslashed] at hwalks
      cases hwalks.eq_directory
    rw [stepsOf, if_neg hslashed] at hwalks
    obtain ⟨root, hroot, hreaches, hfound⟩ := h.reaches hwalks nofun
    exact ⟨root, place, contents, hroot, hreaches, hfound, hread⟩

end Provision.Files.Disk
