import Provision.Files.Disk
import Provision.Proofs.Data.Except

/-! Walks.

A walk takes one name after the other, and goes on from the target of a link where it follows
one. Over the names of two paths, one behind the other, it goes on from the directory that the
first path leads to. Nothing that programs do to a disk here takes a directory or a link away,
so what leads to a directory goes on leading there. -/
namespace Provision.Files.Disk

variable {d d' : Disk} {follow : Bool} {links : Nat} {dir place : Place} {name : String}
  {steps rest : List String} {item? : Option Item}

/-! ### One name after the other -/

/-- What one name leads to. -/
def next (d : Disk) (dir : Place) (name : String) : Except SystemFault (Place × Option Item) :=
  if name = "." then .ok (dir, some .directory)
  else if name = ".." then .ok (dir.dropLast, some .directory)
  else if nameLimit < name.utf8ByteSize then .error .nameTooLong
  else .ok (dir ++ [name], d.item? (dir ++ [name]))

/-- A name of something in a directory. -/
def Ordinary (name : String) : Prop :=
  name ≠ "." ∧ name ≠ ".." ∧ ¬ nameLimit < name.utf8ByteSize

theorem next_here (d : Disk) (dir : Place) : d.next dir "." = .ok (dir, some .directory) := rfl

theorem next_up (d : Disk) (dir : Place) : d.next dir ".." = .ok (dir.dropLast, some .directory) :=
  rfl

theorem next_ordinary (h : Ordinary name) :
    d.next dir name = .ok (dir ++ [name], d.item? (dir ++ [name])) := by
  rw [next, if_neg h.1, if_neg h.2.1, if_neg h.2.2]

theorem next_cases (h : d.next dir name = .ok (place, item?)) :
    (name = "." ∧ place = dir ∧ item? = some .directory) ∨
      (name = ".." ∧ place = dir.dropLast ∧ item? = some .directory) ∨
      (Ordinary name ∧ place = dir ++ [name] ∧ item? = d.item? place) := by
  by_cases hname : Ordinary name
  · rw [next_ordinary hname] at h
    cases h
    exact .inr (.inr ⟨hname, rfl, rfl⟩)
  · by_cases hhere : name = "."
    · subst hhere
      cases h
      exact .inl ⟨rfl, rfl, rfl⟩
    · by_cases hup : name = ".."
      · subst hup
        cases h
        exact .inr (.inl ⟨rfl, rfl, rfl⟩)
      · have hlong : nameLimit < name.utf8ByteSize := by
          by_contra hshort
          exact hname ⟨hhere, hup, hshort⟩
        rw [next, if_neg hhere, if_neg hup, if_pos hlong] at h
        cases h

/-- Only what a directory has in it can be something else than a directory. -/
theorem ordinary_of_next (h : d.next dir name = .ok (place, item?))
    (hitem : item? ≠ some .directory) :
    Ordinary name ∧ place = dir ++ [name] ∧ item? = d.item? place := by
  rcases next_cases h with ⟨_, _, hdirectory⟩ | ⟨_, _, hdirectory⟩ | hname
  · exact absurd hdirectory hitem
  · exact absurd hdirectory hitem
  · exact hname

/-- What a walk does, name by name. -/
inductive Walks (d : Disk) (follow : Bool) :
    Nat → Place → List String → Place → Option Item → Prop where
  | done {links : Nat} {dir : Place} : Walks d follow links dir [] dir (some .directory)
  | into {links : Nat} {dir next place : Place} {name : String} {rest : List String}
      {item? : Option Item} (hnext : d.next dir name = .ok (next, some .directory))
      (hrest : Walks d follow links next rest place item?) :
      Walks d follow links dir (name :: rest) place item?
  | last {links : Nat} {dir place : Place} {name : String} {item? : Option Item}
      (hnext : d.next dir name = .ok (place, item?)) (hitem : item? ≠ some .directory)
      (hlink : follow = true → ∀ target, item? ≠ some (.link target)) :
      Walks d follow links dir [name] place item?
  | through {links : Nat} {dir next place : Place} {name target : String} {rest : List String}
      {item? : Option Item} (hnext : d.next dir name = .ok (next, some (.link target)))
      (hlink : rest = [] → follow = true)
      (hrest : Walks d follow links (origin dir target) (stepsOf target ++ rest) place item?) :
      Walks d follow (links + 1) dir (name :: rest) place item?

theorem stride_cons (d : Disk) (follow : Bool) (dir : Place) (name : String) (rest : List String) :
    d.stride follow dir (name :: rest) =
      match d.next dir name with
      | .error e => .error e
      | .ok (place, some .directory) => d.stride follow place rest
      | .ok (place, none) =>
        if rest.isEmpty then .ok (.arrived place none) else .error .notFound
      | .ok (place, some (.file contents)) =>
        if rest.isEmpty then .ok (.arrived place (some (.file contents))) else .error .notDirectory
      | .ok (place, some (.link target)) =>
        if rest.isEmpty && !follow then .ok (.arrived place (some (.link target)))
        else .ok (.link dir target rest) := by
  rw [stride, next]
  split
  · rfl
  · split
    · rfl
    · split
      · rfl
      · dsimp only
        rcases d.item? (dir ++ [name]) with _ | (contents | _ | target) <;> rfl

theorem walk_nil (d : Disk) (follow : Bool) (links : Nat) (dir : Place) :
    d.walk follow links dir [] = .ok (dir, some .directory) := by
  rw [walk]
  rfl

theorem walk_cons (d : Disk) (follow : Bool) (links : Nat) (dir : Place) (name : String)
    (rest : List String) :
    d.walk follow links dir (name :: rest) =
      match d.next dir name with
      | .error e => .error e
      | .ok (place, some .directory) => d.walk follow links place rest
      | .ok (place, none) => if rest.isEmpty then .ok (place, none) else .error .notFound
      | .ok (place, some (.file contents)) =>
        if rest.isEmpty then .ok (place, some (.file contents)) else .error .notDirectory
      | .ok (place, some (.link target)) =>
        if rest.isEmpty && !follow then .ok (place, some (.link target))
        else match links with
          | 0 => .error .tooManyLinks
          | links + 1 => d.walk follow links (origin dir target) (stepsOf target ++ rest) := by
  rw [walk, stride_cons]
  rcases d.next dir name with e | ⟨place, _ | (contents | _ | target)⟩
  · rfl
  · cases rest <;> rfl
  · cases rest <;> rfl
  · exact (walk.eq_def ..).symm
  · dsimp only
    split <;> rfl

/-- A walk that comes to an end does so name by name. -/
theorem walk_eq_ok :
    d.walk follow links dir steps = .ok (place, item?) ↔
      Walks d follow links dir steps place item? := by
  constructor
  · intro h
    -- Links make the walk longer, so the names are counted for a number of links only.
    induction links using Nat.strongRecOn generalizing dir steps with
    | ind links ih =>
      induction steps generalizing dir with
      | nil =>
        rw [walk_nil] at h
        cases h
        exact .done
      | cons name rest ihrest =>
        rw [walk_cons] at h
        rcases hnext : d.next dir name with e | ⟨place, _ | (contents | _ | target)⟩
        all_goals rw [hnext] at h
        · cases h
        · cases rest with
          | nil =>
            cases h
            exact .last hnext nofun nofun
          | cons _ _ => cases h
        · cases rest with
          | nil =>
            cases h
            exact .last hnext nofun nofun
          | cons _ _ => cases h
        · exact .into hnext (ihrest h)
        · dsimp only at h
          split at h
          next hstays =>
            cases h
            obtain ⟨hnil, hfollow⟩ := Bool.and_eq_true_iff.mp hstays
            obtain rfl := List.isEmpty_iff.mp hnil
            exact .last hnext nofun fun hf => by simp [hf] at hfollow
          next hstays =>
            cases links with
            | zero => cases h
            | succ links =>
              refine .through hnext (fun hnil => ?_) (ih links (Nat.lt_succ_self links) h)
              simpa [hnil] using hstays
  · intro h
    induction h with
    | done => exact walk_nil ..
    | into hnext _ ih =>
      rw [walk_cons, hnext]
      exact ih
    | @last links dir place name item? hnext hitem hlink =>
      rw [walk_cons, hnext]
      rcases item? with _ | (contents | _ | target)
      · rfl
      · rfl
      · exact absurd rfl hitem
      · cases follow with
        | true => exact absurd rfl (hlink rfl target)
        | false => rfl
    | through hnext hlink _ ih =>
      rw [walk_cons, hnext]
      dsimp only
      rw [if_neg]
      · exact ih
      · intro hstays
        obtain ⟨hnil, hfollow⟩ := Bool.and_eq_true_iff.mp hstays
        simp [hlink (List.isEmpty_iff.mp hnil)] at hfollow

namespace Walks

/-- A walk with more links to go comes to the same end. -/
theorem of_le (h : Walks d follow links dir steps place item?) {more : Nat} (hle : links ≤ more) :
    Walks d follow more dir steps place item? := by
  induction h generalizing more with
  | done => exact .done
  | into hnext _ ih => exact .into hnext (ih hle)
  | last hnext hitem hlink => exact .last hnext hitem hlink
  | through hnext hlink _ ih =>
    obtain ⟨more, rfl⟩ := Nat.exists_eq_add_of_le' (Nat.le_trans (Nat.le_add_left 1 _) hle)
    exact .through hnext hlink (ih (Nat.le_of_succ_le_succ hle))

/-- A walk over two paths came to a directory at the end of the first. -/
theorem append {first last : List String} (hlast : last ≠ [])
    (h : Walks d follow links dir (first ++ last) place item?) :
    ∃ between left, left ≤ links ∧ Walks d true links dir first between (some .directory) ∧
      Walks d follow left between last place item? := by
  generalize hsteps : first ++ last = steps at h
  induction h generalizing first with
  | done => exact absurd (List.append_eq_nil_iff.mp hsteps).2 hlast
  | @into links dir next place name rest item? hnext hrest ih =>
    cases first with
    | nil =>
      obtain rfl : last = name :: rest := hsteps
      exact ⟨dir, links, Nat.le_refl _, .done, .into hnext hrest⟩
    | cons name' first =>
      obtain ⟨rfl, rfl⟩ := List.cons.inj hsteps
      obtain ⟨between, left, hleft, hfirst, hend⟩ := ih rfl
      exact ⟨between, left, hleft, .into hnext hfirst, hend⟩
  | @last links dir place name item? hnext hitem hlink =>
    cases first with
    | nil =>
      obtain rfl : last = [name] := hsteps
      exact ⟨dir, links, Nat.le_refl _, .done, .last hnext hitem hlink⟩
    | cons name' first =>
      exact absurd (List.append_eq_nil_iff.mp (List.cons.inj hsteps).2).2 hlast
  | @through links dir next place name target rest item? hnext hlink hrest ih =>
    cases first with
    | nil =>
      obtain rfl : last = name :: rest := hsteps
      exact ⟨dir, links + 1, Nat.le_refl _, .done, .through hnext hlink hrest⟩
    | cons name' first =>
      obtain ⟨rfl, rfl⟩ := List.cons.inj hsteps
      obtain ⟨between, left, hleft, hfirst, hend⟩ := ih (List.append_assoc ..)
      exact ⟨between, left, Nat.le_succ_of_le hleft, .through hnext (fun _ => rfl) hfirst, hend⟩

/-- Without following it, one name leads to what is there. -/
theorem singleton (h : Walks d false links dir [name] place item?) :
    d.next dir name = .ok (place, item?) := by
  cases h with
  | into hnext hrest =>
    cases hrest
    exact hnext
  | last hnext _ _ => exact hnext
  | through _ hlink _ => cases hlink rfl

/-- If links are followed, one name leads to the same, or a link is there. -/
theorem singleton_cases (h : Walks d true links dir [name] place item?) :
    d.next dir name = .ok (place, item?) ∨
      ∃ between target, d.next dir name = .ok (between, some (.link target)) := by
  cases h with
  | into hnext hrest =>
    cases hrest
    exact .inl hnext
  | last hnext _ _ => exact .inl hnext
  | through hnext _ _ => exact .inr ⟨_, _, hnext⟩

/-- A walk that ends at no link ends there if links at its end are followed. -/
theorem followed (h : Walks d false links dir steps place item?)
    (hitem : ∀ target, item? ≠ some (.link target)) :
    Walks d true links dir steps place item? := by
  induction h with
  | done => exact .done
  | into hnext _ ih => exact .into hnext (ih hitem)
  | last hnext hdirectory _ => exact .last hnext hdirectory fun _ => hitem
  | through hnext _ _ ih => exact .through hnext (fun _ => rfl) (ih hitem)

/-- A walk ends where it would without following a link at its end, unless there is one. -/
theorem unfollowed (h : Walks d true links dir steps place item?) :
    Walks d false links dir steps place item? ∨
      ∃ between target, Walks d false links dir steps between (some (.link target)) := by
  induction h with
  | done => exact .inl .done
  | into hnext _ ih =>
    rcases ih with h | ⟨between, target, h⟩
    · exact .inl (.into hnext h)
    · exact .inr ⟨between, target, .into hnext h⟩
  | last hnext hitem _ => exact .inl (.last hnext hitem nofun)
  | @through links dir next place name target rest item? hnext _ _ ih =>
    by_cases hrest : rest = []
    · subst hrest
      exact .inr ⟨next, target, .last hnext nofun nofun⟩
    · rcases ih with h | ⟨between, target', h⟩
      · exact .inl (.through hnext (fun hnil => absurd hnil hrest) h)
      · exact .inr ⟨between, target', .through hnext (fun hnil => absurd hnil hrest) h⟩

/-- A walk that follows links at its end does not end at one. -/
theorem ne_link (h : Walks d true links dir steps place item?) (target : String) :
    item? ≠ some (.link target) := by
  induction h with
  | done => nofun
  | into _ _ ih => exact ih
  | last _ _ hlink => exact hlink rfl target
  | through _ _ _ ih => exact ih

/-- A walk that stays where it is, at its end, ends at a directory. -/
theorem eq_directory (h : Walks d follow links dir (steps ++ ["."]) place item?) :
    item? = some .directory := by
  obtain ⟨between, _, _, _, hlast⟩ := h.append (List.cons_ne_nil "." [])
  cases hlast with
  | into hnext hrest =>
    cases hrest
    rfl
  | last hnext hitem _ =>
    cases hnext
    exact absurd rfl hitem
  | through hnext _ _ => cases hnext

theorem eq (h : Walks d follow links dir steps place item?) {place' : Place} {item?' : Option Item}
    (h' : Walks d follow links dir steps place' item?') : place = place' ∧ item? = item?' :=
  Prod.mk.inj (Except.ok.inj ((walk_eq_ok.mpr h).symm.trans (walk_eq_ok.mpr h')))

end Walks

/-! ### Disks that grow -/

theorem item?_put (d : Disk) (place : Place) (item : Item) (p : Place) :
    (d.put place item).item? p =
      if p = [] then some .directory else if place = p then some item else d.item? p := by
  unfold Disk.item? put
  split
  · rfl
  · exact d.items.get?_insert place p item

theorem item?_put_of_ne {p : Place} (h : p ≠ place) (item : Item) :
    (d.put place item).item? p = d.item? p := by
  rw [item?_put, if_neg (Ne.symm h)]
  split
  · next hnil => rw [hnil, Disk.item?, if_pos rfl]
  · rfl

theorem item?_put_self (h : place ≠ []) (item : Item) :
    (d.put place item).item? place = some item := by
  rw [item?_put, if_neg h, if_pos rfl]

/-- Directories and links stay, there are no new links, and files stay files. -/
structure Grows (d d' : Disk) : Prop where
  current : d'.current = d.current
  directory (p : Place) (h : d.item? p = some .directory) : d'.item? p = some .directory
  link (p : Place) (target : String) :
    d'.item? p = some (.link target) ↔ d.item? p = some (.link target)
  file (p : Place) (contents : ByteArray) (h : d.item? p = some (.file contents)) :
    ∃ contents', d'.item? p = some (.file contents')

namespace Grows

theorem refl (d : Disk) : Grows d d :=
  ⟨rfl, fun _ h => h, fun _ _ => Iff.rfl, fun _ contents h => ⟨contents, h⟩⟩

theorem trans {d₁ d₂ d₃ : Disk} (h : Grows d₁ d₂) (h' : Grows d₂ d₃) : Grows d₁ d₃ where
  current := h'.current.trans h.current
  directory p hp := h'.directory p (h.directory p hp)
  link p target := (h'.link p target).trans (h.link p target)
  file p contents hp := by
    obtain ⟨contents', hp⟩ := h.file p contents hp
    exact h'.file p contents' hp

/-- A name that leads to a directory or a link does so later. -/
theorem next (h : Grows d d') {item : Item} (hitem : ∀ contents, item ≠ .file contents)
    (hnext : d.next dir name = .ok (place, some item)) :
    d'.next dir name = .ok (place, some item) := by
  rcases next_cases hnext with ⟨rfl, rfl, heq⟩ | ⟨rfl, rfl, heq⟩ | ⟨hname, rfl, hfound⟩
  · rw [heq, next_here]
  · rw [heq, next_up]
  · rw [next_ordinary hname]
    cases item with
    | file contents => exact absurd rfl (hitem contents)
    | directory => rw [h.directory _ hfound.symm]
    | link target => rw [(h.link _ target).mpr hfound.symm]

/-- What leads to a directory goes on leading there. -/
theorem walks (h : Grows d d') (hwalks : Walks d follow links dir steps place (some .directory)) :
    Walks d' follow links dir steps place (some .directory) := by
  generalize hitem : some Item.directory = item? at hwalks
  induction hwalks with
  | done => exact .done
  | into hnext _ ih => exact .into (h.next nofun hnext) (ih hitem)
  | last _ hdirectory _ => exact absurd hitem.symm hdirectory
  | through hnext hlink _ ih => exact .through (h.next nofun hnext) hlink (ih hitem)

end Grows

/-- A disk grows by what is put where nothing was, and by what a file is replaced with. -/
theorem grows_put {item : Item} (hlink : ∀ target, item ≠ .link target)
    (hplace : d.item? place = none ∨
      (∃ contents, d.item? place = some (.file contents)) ∧ ∃ contents, item = .file contents) :
    Grows d (d.put place item) := by
  have hne : place ≠ [] := by
    rintro rfl
    rcases hplace with hnone | ⟨⟨_, hfile⟩, _⟩
    · cases hnone
    · cases hfile
  have hstays {p : Place} {item' : Item} (hp : d.item? p = some item')
      (hitem : ∀ contents, item' ≠ .file contents) : p ≠ place := by
    rintro rfl
    rcases hplace with hnone | ⟨⟨contents, hfile⟩, _⟩
    · rw [hp] at hnone
      cases hnone
    · rw [hp] at hfile
      exact hitem contents (Option.some.inj hfile)
  refine ⟨rfl, fun p hp => ?_, fun p target => ⟨fun hp => ?_, fun hp => ?_⟩,
    fun p contents hp => ?_⟩
  · rw [item?_put_of_ne (hstays hp nofun), hp]
  · by_cases heq : p = place
    · rw [heq, item?_put_self hne] at hp
      exact absurd (Option.some.inj hp) (hlink target)
    · rwa [item?_put_of_ne heq] at hp
  · rw [item?_put_of_ne (hstays hp nofun), hp]
  · by_cases heq : p = place
    · subst heq
      rcases hplace with hnone | ⟨_, contents', rfl⟩
      · rw [hp] at hnone
        cases hnone
      · exact ⟨contents', item?_put_self hne _⟩
    · exact ⟨contents, by rw [item?_put_of_ne heq, hp]⟩

/-- What leads to a file, or to nothing yet, leads to the file that is there later. -/
theorem Grows.walks_file (h : Grows d d') {contents : ByteArray}
    (hfile : d'.item? place = some (.file contents)) (hitem : item? ≠ some .directory)
    (hwalks : Walks d true links dir steps place item?) :
    Walks d' true links dir steps place (some (.file contents)) := by
  induction hwalks with
  | done => exact absurd rfl hitem
  | into hnext _ ih => exact .into (h.next nofun hnext) (ih hfile hitem)
  | last hnext _ _ =>
    obtain ⟨hname, rfl, _⟩ := ordinary_of_next hnext hitem
    refine .last ?_ nofun nofun
    rw [next_ordinary hname, hfile]
  | through hnext hlink _ ih => exact .through (h.next nofun hnext) hlink (ih hfile hitem)

/-- What a walk ends at is there, unless it ends at a directory. -/
theorem Walks.item?_eq (h : Walks d follow links dir steps place item?)
    (hitem : item? ≠ some .directory) : d.item? place = item? := by
  induction h with
  | done => exact absurd rfl hitem
  | into _ _ ih => exact ih hitem
  | last hnext hdirectory _ => exact (ordinary_of_next hnext hdirectory).2.2.symm
  | through _ _ _ ih => exact ih hitem

/-- Nothing is where a walk ends at nothing. -/
theorem Walks.vacant (h : Walks d follow links dir steps place none) : d.item? place = none :=
  h.item?_eq nofun

theorem next_put (h : d.next dir name = .ok (place, none)) (item : Item) :
    (d.put place item).next dir name = .ok (place, some item) := by
  obtain ⟨hname, rfl, _⟩ := ordinary_of_next h nofun
  rw [next_ordinary hname, item?_put, if_neg (by simp), if_pos rfl]

/-- A directory that is put where a path ends is what the path leads to then. -/
theorem Walks.put (h : Walks d follow links dir steps place none) :
    Walks (d.put place .directory) follow links dir steps place (some .directory) := by
  have hgrows : Grows d (d.put place .directory) := grows_put nofun (.inl h.vacant)
  generalize hitem : (none : Option Item) = item? at h
  induction h with
  | done => cases hitem
  | into hnext _ ih => exact .into (hgrows.next nofun hnext) (ih hgrows hitem)
  | last hnext _ _ =>
    subst hitem
    exact .into (next_put hnext .directory) .done
  | through hnext hlink _ ih => exact .through (hgrows.next nofun hnext) hlink (ih hgrows hitem)

end Provision.Files.Disk
