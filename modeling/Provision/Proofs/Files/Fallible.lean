import Mathlib.Order.RelClasses
import Provision.Files.Disk
import Provision.Proofs.Data.State

/-! File systems that can fail.

Making directories does to a file system what making and looking at single ones does. A fallible
file system has a disk: what is asked of it is done there, or it fails, at any time and for any
reason. Then nothing is done, except that a file which was to be changed may be left with any
contents. So what holds of every change on a disk holds of the disk of a fallible file system,
and what a success attains on a disk it attains there. -/
namespace Provision
open Files

variable {σ α : Type}

/-! ### Directories -/

section Directories
variable {fs : FileSystem (StateM σ)} {r : σ → σ → Prop} {p : σ → Prop} {path : String}

theorem run_isDirectory (path : String) (s : σ) :
    (fs.isDirectory path).run s =
      (match ((fs.destination path).run.run s).1 with
        | .ok .directory => true
        | _ => false, ((fs.destination path).run.run s).2) := by
  unfold FileSystem.isDirectory
  rw [StateT.run_bind]
  rcases (fs.destination path).run.run s with ⟨e | (size | _ | _ | _), s'⟩ <;> rfl

/-- Tolerating is looking, and succeeds if there is a directory. -/
theorem run_tolerate (path : String) (e : SystemFault) (s : σ) :
    (fs.tolerate path e).run.run s =
      (match ((fs.destination path).run.run s).1 with
        | .ok .directory => .ok ()
        | _ => .error e, ((fs.destination path).run.run s).2) := by
  unfold FileSystem.tolerate
  rw [run_bind_of_ok (run_liftM _ s), run_isDirectory]
  rcases (fs.destination path).run.run s with ⟨e' | (size | _ | _ | _), s'⟩ <;> rfl

theorem relates_createInside [Std.Refl r] [IsTrans σ r] {paths : List String}
    (hcreate : ∀ path ∈ paths, Relates r (fs.createDirectory path).run)
    (hlook : ∀ path ∈ paths, Relates r (fs.destination path).run) :
    Relates r (fs.createInside paths).run := by
  induction paths with
  | nil => exact .pure _
  | cons path around ih =>
    obtain ⟨hpath, haround⟩ := List.forall_mem_cons.mp hcreate
    obtain ⟨hseen, hlook⟩ := List.forall_mem_cons.mp hlook
    have htolerate (e : SystemFault) : Relates r (fs.tolerate path e).run := by
      intro s
      rw [run_tolerate]
      exact hseen s
    unfold FileSystem.createInside
    split
    · exact .pure _
    · refine .tryCatch hpath fun e => ?_
      split
      · exact .bindExcept (ih haround hlook) fun _ => .tryCatch hpath htolerate
      · exact htolerate e

theorem attains_createInside (hempty : path.isEmpty = true → ∀ s, p s)
    (hcreate : Attains p (fs.createDirectory path))
    (hlook : ∀ s s', (fs.destination path).run.run s = (.ok .directory, s') → p s')
    (around : List String) : Attains p (fs.createInside (path :: around)) := by
  have htolerate (e : SystemFault) : Attains p (fs.tolerate path e) := by
    intro s _ s' h
    rw [run_tolerate] at h
    split at h
    case h_1 hdirectory =>
      cases h
      exact hlook s _ (Prod.ext hdirectory rfl)
    case h_2 => cases h
  unfold FileSystem.createInside
  split
  next hpath => exact fun _ _ s' _ => hempty hpath s'
  next =>
    refine .tryCatch hcreate fun e => ?_
    split
    · exact .bind fun _ => .tryCatch hcreate htolerate
    · exact htolerate e

end Directories

/-! ### Failures -/

/-- A step does to a disk what another one does there, or fails and leaves one that is `left`. -/
def Attempts (disk : σ → Disk) (left : Disk → Disk → Prop) (x : ExceptT SystemFault (StateM σ) α)
    (y : ExceptT SystemFault Disk.M α) : Prop :=
  ∀ s, (∃ e, (x.run.run s).1 = .error e ∧ left (disk s) (disk (x.run.run s).2)) ∨
    ((x.run.run s).1, disk (x.run.run s).2) = y.run.run (disk s)

/-- What changing the file at a path may leave when it fails: everything as it was, or the file
with any contents, also if there was none. -/
inductive Files.Disk.Tears (path : String) (d : Disk) : Disk → Prop where
  | untouched : Tears path d d
  | torn {place : Place} {before : ByteArray} (contents : ByteArray)
      (hwritable : d.writable path = .ok (place, before)) :
      Tears path d (d.put place (.file contents))

/-- A file system on a disk of which any operation may fail at any time. Then nothing is done,
but for what is `left` of changing a file. All else is done as on the disk. -/
structure FileSystem.Fallible (fs : FileSystem (StateM σ)) (disk : σ → Disk)
    (left : String → Disk → Disk → Prop) : Prop where
  kind (path : String) : Attempts disk Eq (fs.kind path) (Disk.system.kind path)
  destination (path : String) :
    Attempts disk Eq (fs.destination path) (Disk.system.destination path)
  createDirectory (path : String) :
    Attempts disk Eq (fs.createDirectory path) (Disk.system.createDirectory path)
  write (path text : String) :
    Attempts disk (left path) (fs.write path text) (Disk.system.write path text)
  append (path text : String) :
    Attempts disk (left path) (fs.append path text) (Disk.system.append path text)

/-- A disk need not fail more often than it does, and then it is as it was. -/
theorem fallible_system : Disk.system.Fallible id fun _ => Eq where
  kind _ _ := .inr rfl
  destination _ _ := .inr rfl
  createDirectory _ _ := .inr rfl
  write _ _ _ := .inr rfl
  append _ _ _ := .inr rfl

namespace Attempts

variable {disk : σ → Disk} {left : Disk → Disk → Prop} {x : ExceptT SystemFault (StateM σ) α}
  {y : ExceptT SystemFault Disk.M α}

theorem relates {r : Disk → Disk → Prop} [Std.Refl r] (h : Attempts disk Eq x y)
    (hy : Relates r y.run) : Relates (Order.Preimage disk r) x.run := by
  intro s
  show r (disk s) (disk (x.run.run s).2)
  rcases h s with ⟨_, _, hsame⟩ | hsame
  · rw [← hsame]
    exact refl_of r (disk s)
  · have hrun := hy (disk s)
    rwa [← congrArg Prod.snd hsame] at hrun

theorem run_of_ok (h : Attempts disk left x y) {s s' : σ} {a : α}
    (hx : x.run.run s = (.ok a, s')) : y.run.run (disk s) = (.ok a, disk s') := by
  rcases h s with ⟨e, he, _⟩ | hsame
  · rw [hx] at he
    cases he
  · rw [← hsame, hx]

theorem attains {p : Disk → Prop} (h : Attempts disk left x y) (hy : Attains p y) :
    Attains (fun s => p (disk s)) x :=
  fun s _ _ hx => hy (disk s) _ _ (h.run_of_ok hx)

theorem tears {path : String} (h : Attempts disk Eq x y) :
    Attempts disk (Disk.Tears path) x y :=
  fun s => (h s).imp_left fun ⟨e, he, hsame⟩ => ⟨e, he, hsame ▸ .untouched⟩

end Attempts

/-- Leaving everything as it was is one of the things that a failure may do. -/
theorem FileSystem.Fallible.tears {fs : FileSystem (StateM σ)} {disk : σ → Disk}
    (h : fs.Fallible disk fun _ => Eq) : fs.Fallible disk Disk.Tears where
  kind := h.kind
  destination := h.destination
  createDirectory := h.createDirectory
  write path text := (h.write path text).tears
  append path text := (h.append path text).tears

end Provision
