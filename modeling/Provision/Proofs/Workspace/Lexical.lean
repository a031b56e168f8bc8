import Provision.Proofs.Workspace.Containment
import Provision.Proofs.Workspace.Paths

/-! Lexical paths.

The lexical path of a text is its names without the steps to the current directory. Paths that
may be used below a directory have equal parts exactly if their lexical paths are equal, however
they are spelled. Where there are no links a path leads to the place that its lexical path names,
so two paths are of one file exactly if they are lexically the same. -/
namespace Provision
namespace Files
open Provision.Files.Path (pieces partOf counts parts)
open Disk (namesOf)

/-! ### Spellings -/

/-- The names of a path that are no steps to the current directory. -/
def lexical (path : String) : List String := (namesOf path).filter (· ≠ ".")

theorem lexical_stripped (path : String) : lexical (Directories.stripped path) = lexical path := by
  have hdrop (cs : List Char) :
      (namesIn (dropCurrent cs)).filter (· ≠ ".") = (namesIn cs).filter (· ≠ ".") := by
    fun_induction dropCurrent cs with
    | case1 rest ih =>
      rw [ih, ← List.singleton_append, namesIn_append, List.filter_append]
      rfl
    | case2 cs => rfl
  rw [lexical, Directories.stripped, namesOf_ofList]
  exact hdrop path.toList

/-- A path that starts with a name and does not step up has its names as its parts. -/
theorem parts_eq_names {path : String} (h : ¬ Escapes path) (hhere : ¬ ['.', '/'] <+: path.toList)
    (hne : lexical path ≠ []) : parts path = (lexical path).map .name := by
  have hstart : Path.start path.toList = [] := by
    generalize hcs : path.toList = cs at hhere
    fun_cases Path.start cs
    · next rest => exact absurd (.inr (.inl (Path.isAbsolute_iff.mpr ⟨rest, hcs⟩))) h
    · refine absurd ?_ hne
      rw [lexical, namesOf, hcs]
      rfl
    · next rest => exact absurd (List.prefix_append ['.', '/'] rest) hhere
    · rfl
  have hup : ['.', '.'] ∉ pieces path.toList := fun hpiece =>
    h (.inr (.inr (Path.pieces_eq_splitOn _ ▸ hpiece)))
  have hcounts : (fun piece : List Char =>
      decide (String.ofList piece ≠ ".") && decide (piece ≠ [])) = counts := by
    funext piece
    have hdot : String.ofList piece = "." ↔ piece = ['.'] := by
      rw [← String.toList_inj, String.toList_ofList]
      rfl
    simp [counts, hdot, Bool.and_comm]
  unfold parts
  simp only [hstart, Path.body, List.nil_append, List.length_nil, List.drop_zero]
  rw [lexical, namesOf, List.filter_map, List.filter_filter, List.map_map]
  simp only [Function.comp_apply, hcounts]
  refine List.map_congr_left fun piece hpiece => ?_
  have hname : piece ≠ ['.', '.'] := by
    rintro rfl
    exact hup (List.mem_filter.mp hpiece).1
  rw [partOf, if_neg hname]
  rfl

end Files

/-! ### Without links -/

namespace Files.Disk

variable {d d' : Disk} {root dir place : Place} {names : List String} {output path : String}

/-- Nothing in a directory and the directories in it is a link. -/
def Linkless (d : Disk) (root : Place) : Prop :=
  ∀ names target, names ≠ [] → d.item? (root ++ names) ≠ some (.link target)

/-- There is nothing in a directory. -/
def Vacant (d : Disk) (root : Place) : Prop :=
  ∀ names, names ≠ [] → d.item? (root ++ names) = none

theorem Vacant.linkless (h : d.Vacant root) : d.Linkless root := by
  intro names target hne hlink
  rw [h names hne] at hlink
  cases hlink

/-- Without links and steps up a walk ends where the names are, and is not led elsewhere. -/
theorem Walks.lexical {follow : Bool} {links : Nat} {steps : List String} {item? : Option Item}
    (hlinkless : d.Linkless root) (hdir : root <+: dir) (hup : ".." ∉ steps)
    (h : Walks d follow links dir steps place item?) :
    place = dir ++ steps.filter (· ≠ ".") ∧
      (item? = some .directory ∨ steps.filter (· ≠ ".") ≠ [] ∧ item? = d.item? place) := by
  induction h with
  | done => exact ⟨(List.append_nil _).symm, .inl rfl⟩
  | @into links dir next place name rest item? hnext _ ih =>
    have hrest : ".." ∉ rest := fun hmem => hup (List.mem_cons_of_mem _ hmem)
    rcases next_cases hnext with ⟨rfl, rfl, _⟩ | ⟨rfl, _, _⟩ | ⟨hname, rfl, _⟩
    · simpa using ih hdir hrest
    · exact absurd List.mem_cons_self hup
    · obtain ⟨hplace, hitem⟩ := ih (hdir.trans (List.prefix_append _ _)) hrest
      rw [List.filter_cons_of_pos (by simpa using hname.1)]
      exact ⟨by rw [hplace, List.append_assoc]; rfl,
        hitem.imp_right fun hitem => ⟨List.cons_ne_nil _ _, hitem.2⟩⟩
  | last hnext hitem _ =>
    obtain ⟨hname, rfl, hfound⟩ := ordinary_of_next hnext hitem
    rw [List.filter_cons_of_pos (by simpa using hname.1)]
    exact ⟨rfl, .inr ⟨List.cons_ne_nil _ _, hfound⟩⟩
  | through hnext _ _ _ =>
    -- A link on the way would be below the root.
    obtain ⟨_, rfl, hfound⟩ := ordinary_of_next hnext nofun
    obtain ⟨between, rfl⟩ := hdir
    rw [List.append_assoc] at hfound
    exact absurd hfound.symm (hlinkless _ _ (by simp))

/-- A file is written at the place that its lexical path names. -/
theorem Below.of_writable_linkless {before : ByteArray} (h : Below path output names)
    (hup : ".." ∉ names) (hroot : d.LeadsTo output root) (hlinkless : d.Linkless root)
    (hwritable : d.writable path = .ok (place, before)) :
    place = root ++ names.filter (· ≠ ".") ∧ names.filter (· ≠ ".") ≠ [] ∧
      (d.item? place = some (.file before) ∨ d.item? place = none ∧ before = .empty) := by
  obtain ⟨_, _, item?, hwalks, hitem⟩ := Disk.of_writable hwritable
  obtain ⟨root', links, _, hroot', hwalks⟩ := h.walks hwalks
  obtain rfl := hroot.eq hroot'
  obtain ⟨hplace, hdirectory | ⟨hne, hfound⟩⟩ := hwalks.lexical hlinkless List.prefix_rfl hup
  · simp [hdirectory] at hitem
  · exact ⟨hplace, hne, hfound ▸ hitem⟩

/-! ### Files that are found again -/

/-- The contents of the file at a place, if there is one. -/
def file? (d : Disk) (place : Place) : Option ByteArray :=
  match d.item? place with
  | some (.file contents) => some contents
  | _ => none

theorem file?_eq_some {contents : ByteArray} :
    d.file? place = some contents ↔ d.item? place = some (.file contents) := by
  unfold file?
  split <;> simp_all

/-- Making directories changes no file. -/
theorem Furnishes.file?_eq (h : Furnishes root names d d') (p : Place) :
    d'.file? p = d.file? p :=
  Option.ext fun contents => by
    rw [file?_eq_some, file?_eq_some, h.item?_iff p (by simp)]

/-- A path leads to the file that was put where it was to be written. -/
theorem find_put {before contents : ByteArray} (h : d.writable path = .ok (place, before))
    (hgrows : Grows d (d.put place (.file contents))) (hne : place ≠ []) :
    (d.put place (.file contents)).find true path = .ok (place, .file contents) := by
  obtain ⟨hvalid, hslashed, item?, hwalks, hitem⟩ := of_writable h
  have hdirectory : item? ≠ some .directory := by
    rintro rfl
    simp at hitem
  rw [find_eq_ok, stepsOf, if_neg hslashed]
  exact ⟨hvalid, hgrows.walks_file (item?_put_self hne _) hdirectory hwalks⟩

theorem item?_of_find {contents : ByteArray} {follow : Bool}
    (h : d.find follow path = .ok (place, .file contents)) :
    d.item? place = some (.file contents) :=
  (find_eq_ok.mp h).2.item?_eq (by simp)

/-- A path that leads to a file goes on leading there. -/
theorem Grows.find_file (h : Grows d d') {contents : ByteArray}
    (hfind : d.find true path = .ok (place, .file contents)) :
    ∃ contents', d'.find true path = .ok (place, .file contents') := by
  obtain ⟨contents', hfile⟩ := h.file place contents (item?_of_find hfind)
  obtain ⟨hvalid, hwalks⟩ := find_eq_ok.mp hfind
  rw [← h.current] at hwalks
  exact ⟨contents', find_eq_ok.mpr ⟨hvalid, h.walks_file hfile (by simp) hwalks⟩⟩

end Files.Disk
end Provision
