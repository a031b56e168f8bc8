import Provision.Proofs.Data.Except
import Provision.Proofs.Files.Path
import Provision.Workspace.Directories

/-! Paths below a directory.

Steps to the current directory are taken off the start of a path, and what is left has to be
relative and must not step up. Then the path that is used has the parts of the directory and
behind them only names, so it leads to the directory or to something below it. Any other path is
refused before the file system is asked for anything. -/
namespace Provision
namespace Files.Path

/-! ### Parts -/

theorem pieces_eq_splitOn (cs : List Char) : pieces cs = cs.splitOn '/' := by
  induction cs with
  | nil => rfl
  | cons c cs ih =>
    rw [List.splitOn, List.splitOnP_cons_eq_if_modifyHead, ← List.splitOn, ← ih]
    by_cases hc : c = '/'
    · subst hc
      rfl
    · obtain ⟨p, ps, hp, hcons⟩ := pieces_cons hc cs
      rw [hcons, hp, if_neg (by simpa using hc)]
      rfl

/-- The parts that some characters behind a slash add. -/
def partsBehind (cs : List Char) : List Part := ((pieces cs).filter counts).map partOf

theorem start_cons (c : Char) (cs : List Char) : start (c :: cs) =
    if c = '/' then ['/'] else if c = '.' ∧ (cs = [] ∨ cs.head? = some '/') then ['.'] else [] := by
  rcases cs with _ | ⟨d, cs⟩
  · unfold start
    split <;> simp_all
  · unfold start
    split <;> simp_all

theorem start_slash {cs : List Char} (hcs : cs ≠ []) (ds : List Char) :
    start (cs ++ '/' :: ds) = start cs := by
  obtain ⟨c, cs, rfl⟩ := List.exists_cons_of_ne_nil hcs
  rw [List.cons_append, start_cons, start_cons]
  cases cs <;> simp

theorem parts_slash {cs : List Char} (hcs : cs ≠ []) (ds : List Char) :
    parts (String.ofList (cs ++ '/' :: ds)) = parts (String.ofList cs) ++ partsBehind ds := by
  have hlength : (start cs).length ≤ cs.length := by
    conv_rhs => rw [← start_append cs]
    simp
  unfold parts
  simp only [String.toList_ofList]
  rw [body, start_slash hcs, List.drop_append_of_le_length hlength, pieces_append,
    List.filter_append, List.map_append, ← body, ← List.append_assoc]
  rfl

theorem parts_root_slash (ds : List Char) :
    parts (String.ofList ('/' :: ds)) = .root :: partsBehind ds := by
  unfold parts
  simp only [String.toList_ofList]
  rfl

/-- A relative path adds its parts to those of what it is joined to. -/
theorem parts_join {base path : String} (hbase : base ≠ "") (h : isAbsolute path = false) :
    parts (join base path) = parts base ++ partsBehind path.toList := by
  have hparts (path : String) : parts path = parts (String.ofList path.toList) := by
    rw [String.ofList_toList]
  rw [hparts, hparts base]
  rcases toList_join h with ⟨hempty, _⟩ | ⟨cs, hcs, hjoin⟩
  · exact absurd (String.toList_eq_nil_iff.mp hempty) hbase
  · rw [hjoin]
    rcases hcs with hcs | ⟨hcs, hne⟩
    · rw [hcs]
      by_cases hne : cs = []
      · subst hne
        rw [List.nil_append, List.nil_append, parts_root_slash, parts_root_slash]
        rfl
      · rw [parts_slash hne, parts_slash hne]
        simp [partsBehind, pieces, counts]
    · rw [hcs, parts_slash hne]

/-! ### Where a path leads -/

/-- Follows a part of a path. A step up takes a name back. -/
def follow (place : List Part) : Part → List Part
  | .current => place
  | .up =>
    match place.getLast? with
    | some (.name _) => place.dropLast
    | some .root => place
    | _ => place ++ [.up]
  | p => place ++ [p]

/-- The parts of a path that are left when all steps are made. -/
def normal (parts : List Part) : List Part := parts.foldl follow []

/-- A part that does not lead out of a directory. -/
def Part.inward : Part → Prop
  | .current | .name _ => True
  | .root | .up => False

theorem prefix_foldl_follow {place rest : List Part} (h : ∀ p ∈ rest, p.inward) :
    place <+: rest.foldl follow place := by
  induction rest generalizing place with
  | nil => exact List.prefix_rfl
  | cons p rest ih =>
    obtain ⟨hp, hrest⟩ := List.forall_mem_cons.mp h
    refine List.IsPrefix.trans ?_ (ih hrest)
    cases p with
    | current => exact List.prefix_rfl
    | name s => exact List.prefix_append _ _
    | root => exact hp.elim
    | up => exact hp.elim

theorem normal_prefix {root rest : List Part} (h : ∀ p ∈ rest, p.inward) :
    normal root <+: normal (root ++ rest) := by
  rw [normal, normal, List.foldl_append]
  exact prefix_foldl_follow h

end Files.Path

/-! ### Paths that are refused -/

namespace Files
open Provision.Files.Path

/-- A path is empty, absolute, or has a step up between its slashes. -/
def Escapes (path : String) : Prop :=
  path = "" ∨ isAbsolute path = true ∨ ['.', '.'] ∈ path.toList.splitOn '/'

theorem up_mem_pieces {path : String} (h : .up ∈ parts path) :
    ['.', '.'] ∈ pieces path.toList := by
  have hbody : ['.', '.'] ∈ body path.toList := by
    rcases List.mem_append.mp h with h | h
    · split at h <;> simp at h
    · obtain ⟨piece, hpiece, heq⟩ := List.mem_map.mp h
      unfold partOf at heq
      split at heq
      case isTrue hup => exact hup ▸ (List.mem_filter.mp hpiece).1
      case isFalse => cases heq
  unfold body at hbody
  revert hbody
  fun_cases start path.toList
  · exact List.mem_cons_of_mem _
  · exact fun h => absurd h (by decide)
  · next rest =>
    intro h
    rw [← List.singleton_append, pieces_append]
    exact (List.mem_cons.mp h).elim (fun heq => absurd heq (by decide)) (List.mem_append_right _)
  · exact id

theorem root_mem_parts {path : String} (h : .root ∈ parts path) : isAbsolute path = true := by
  rcases List.mem_append.mp h with h | h
  · generalize hcs : path.toList = cs at h
    revert h
    fun_cases start cs
    · next rest => exact fun _ => isAbsolute_iff.mpr ⟨rest, hcs⟩
    all_goals
      intro h
      simp at h
  · obtain ⟨piece, _, heq⟩ := List.mem_map.mp h
    unfold partOf at heq
    split at heq <;> cases heq

/-- A path that does not escape adds only parts that do not lead out. -/
theorem exists_parts_join {path : String} (h : ¬ Escapes path) (base : String) :
    ∃ rest, parts (join base path) = parts base ++ rest ∧ ∀ p ∈ rest, p.inward := by
  have habsolute : isAbsolute path = false :=
    Bool.eq_false_iff.mpr fun hroot => h (.inr (.inl hroot))
  have hup : ['.', '.'] ∉ pieces path.toList := fun hpiece =>
    h (.inr (.inr (pieces_eq_splitOn _ ▸ hpiece)))
  by_cases hbase : base = ""
  · subst hbase
    refine ⟨parts path, by simp [join, habsolute]; rfl, fun p hp => ?_⟩
    cases p with
    | root => exact h (.inr (.inl (root_mem_parts hp)))
    | up => exact hup (up_mem_pieces hp)
    | current | name s => trivial
  · refine ⟨partsBehind path.toList, parts_join hbase habsolute, fun p hp => ?_⟩
    obtain ⟨piece, hpiece, rfl⟩ := List.mem_map.mp hp
    unfold partOf
    split
    case isTrue heq => exact hup (heq ▸ (List.mem_filter.mp hpiece).1)
    case isFalse => trivial

/-- A path that escapes is refused, and no other one. -/
theorem requireRelative_eq_ok {path : String} :
    requireRelative path = .ok () ↔ ¬ Escapes path := by
  constructor
  · intro h hescapes
    obtain ⟨habsolute, hne, hup⟩ := of_requireRelative h
    rcases hescapes with rfl | hroot | hpiece
    · cases h
    · rw [habsolute] at hroot
      cases hroot
    · rw [← pieces_eq_splitOn] at hpiece
      exact hup (List.mem_map.mpr ⟨_, List.mem_filter.mpr ⟨hpiece, by decide⟩, by decide⟩)
  · intro h
    unfold requireRelative
    split
    case isFalse => rfl
    case isTrue hrefused =>
      refine absurd ?_ h
      rcases Bool.or_eq_true_iff.mp hrefused with hempty | hleaves
      · exact .inl (String.isEmpty_iff.mp hempty)
      · obtain ⟨part, hpart, hleaves⟩ := List.any_eq_true.mp hleaves
        cases part with
        | root => exact .inr (.inl (root_mem_parts hpart))
        | up => exact .inr (.inr (pieces_eq_splitOn _ ▸ up_mem_pieces hpart))
        | current => cases hleaves
        | name s => cases hleaves

theorem requireRelative_of_escapes {path : String} (h : Escapes path) :
    requireRelative path = .error
      (.pathViolation path "path must be relative and must not leave its root directory") := by
  have hrefused : ¬ requireRelative path = .ok () := fun hok => requireRelative_eq_ok.mp hok h
  unfold requireRelative at hrefused ⊢
  split
  case isTrue => rfl
  case isFalse hok => exact absurd (if_neg hok) hrefused

end Files

namespace Directories

/-- What is left of a path without the steps to the current directory at its start. -/
def stripped (path : String) : String := String.ofList (dropCurrent path.toList)

theorem exists_steps (path : String) :
    (∃ n, path.toList = (List.replicate n ['.', '/']).flatten ++ (stripped path).toList) ∧
      ¬ ['.', '/'] <+: (stripped path).toList := by
  unfold stripped
  rw [String.toList_ofList]
  fun_induction dropCurrent path.toList with
  | case1 rest ih =>
    obtain ⟨⟨n, hn⟩, hnone⟩ := ih
    refine ⟨⟨n + 1, ?_⟩, hnone⟩
    rw [List.replicate_succ, List.flatten_cons, List.append_assoc, ← hn]
    rfl
  | case2 cs hnone =>
    refine ⟨⟨0, rfl⟩, ?_⟩
    rintro ⟨rest, rfl⟩
    exact hnone rest rfl

/-- The fault for a path that may not be used. -/
def violation (path : String) : Fault :=
  .pathViolation path "path must be relative and must not leave its root directory"

theorem relative_of_escapes {path : String} (h : Files.Escapes (stripped path)) :
    relative path = .error (violation (stripped path)) := by
  show (Files.requireRelative (stripped path) >>= fun _ => pure (stripped path)) = _
  rw [Files.requireRelative_of_escapes h]
  rfl

theorem relative_of_not_escapes {path : String} (h : ¬ Files.Escapes (stripped path)) :
    relative path = .ok (stripped path) := by
  show (Files.requireRelative (stripped path) >>= fun _ => pure (stripped path)) = _
  rw [Files.requireRelative_eq_ok.mpr h]
  rfl

/-! ### Operations on refused paths -/

section Refused
variable {m : Type → Type} [Monad m] [LawfulMonad m] (fs : FileSystem m) (d : Directories)
  {path : String} {f : Fault}

theorem read_of_error (h : relative path = .error f) : d.read fs path = throw f := by
  unfold read
  rw [h]
  apply ExceptT.ext
  simp [ofExcept]

theorem read_of_ok {q : String} (h : relative path = .ok q) : d.read fs path =
    (do
      let full := Files.Path.join d.source q
      ExceptT.adapt (fun e => .unreadableFile full e.message)
        (Files.requireRegular fs full "artifact")
      ExceptT.adapt (fun e => .unreadableFile full e.message) (fs.readText full)) := by
  unfold read
  rw [h, ofExcept_ok, pure_bind]

theorem writeBy_of_error (operation : String → String → ExceptT Files.SystemFault m Unit)
    (text : String) (h : relative path = .error f) :
    d.writeBy operation fs path text = throw f := by
  unfold writeBy
  rw [h]
  apply ExceptT.ext
  simp [ofExcept]

end Refused

end Directories
end Provision
