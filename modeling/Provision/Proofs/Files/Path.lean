import Mathlib.Data.List.Basic
import Provision.Files.Disk
import Provision.Files.Guard

/-! Names of paths.

The names of a path are what stands between its slashes. A path that is joined to another one
adds its names to those of the other, a parent has the first of the names, and both start
where the path does. A path that may be used below a directory is relative and has names, none of
which leads up. -/
namespace Provision.Files
open Disk (namesOf)

/-! ### Pieces -/

namespace Path

theorem pieces_slash (cs : List Char) : pieces ('/' :: cs) = [] :: pieces cs := rfl

theorem pieces_ne_nil (cs : List Char) : pieces cs ≠ [] := by
  fun_cases pieces cs <;> simp

theorem pieces_cons {c : Char} (hc : c ≠ '/') (cs : List Char) :
    ∃ p ps, pieces cs = p :: ps ∧ pieces (c :: cs) = (c :: p) :: ps := by
  obtain ⟨p, ps, hp⟩ := List.exists_cons_of_ne_nil (pieces_ne_nil cs)
  refine ⟨p, ps, hp, ?_⟩
  rw [pieces, hp]
  exact hc

theorem pieces_append (cs ds : List Char) :
    pieces (cs ++ '/' :: ds) = pieces cs ++ pieces ds := by
  induction cs with
  | nil => rfl
  | cons c cs ih =>
    by_cases hc : c = '/'
    · subst hc
      rw [List.cons_append, pieces_slash, pieces_slash, ih, List.cons_append]
    · obtain ⟨p, ps, hp, hcons⟩ := pieces_cons hc cs
      obtain ⟨q, qs, hq, hcons'⟩ := pieces_cons hc (cs ++ '/' :: ds)
      rw [ih, hp, List.cons_append] at hq
      obtain ⟨rfl, rfl⟩ := List.cons.inj hq
      rw [List.cons_append, hcons', hcons, List.cons_append]

/-- The pieces with slashes between them are the whole again. -/
theorem intercalate_pieces (cs : List Char) : ['/'].intercalate (pieces cs) = cs := by
  induction cs with
  | nil => rfl
  | cons c cs ih =>
    by_cases hc : c = '/'
    · subst hc
      obtain ⟨p, ps, hp⟩ := List.exists_cons_of_ne_nil (pieces_ne_nil cs)
      rw [pieces_slash, hp, List.intercalate_cons_cons, ← hp, ih]
      rfl
    · obtain ⟨p, ps, hp, hcons⟩ := pieces_cons hc cs
      rw [hp] at ih
      rw [hcons]
      cases ps with
      | nil =>
        rw [List.intercalate_singleton] at ih ⊢
        rw [ih]
      | cons q qs =>
        rw [List.intercalate_cons_cons] at ih ⊢
        rw [← ih]
        simp

theorem intercalate_append {ps qs : List (List Char)} (hps : ps ≠ []) (hqs : qs ≠ []) :
    ['/'].intercalate (ps ++ qs) = ['/'].intercalate ps ++ '/' :: ['/'].intercalate qs := by
  induction ps with
  | nil => exact absurd rfl hps
  | cons p ps ih =>
    cases ps with
    | nil =>
      obtain ⟨q, qs, rfl⟩ := List.exists_cons_of_ne_nil hqs
      rw [List.singleton_append, List.intercalate_cons_cons, List.intercalate_singleton]
      simp
    | cons p' ps =>
      rw [List.cons_append, List.cons_append, List.intercalate_cons_cons, ← List.cons_append,
        ih nofun, List.intercalate_cons_cons]
      simp

/-! ### The start of a path -/

theorem start_append (cs : List Char) : start cs ++ cs.drop (start cs).length = cs := by
  fun_cases start cs <;> simp

theorem isAbsolute_iff {path : String} :
    isAbsolute path = true ↔ ∃ rest, path.toList = '/' :: rest := by
  simp [isAbsolute, List.head?_eq_some_iff]

end Path

/-! ### Names -/

open Provision.Files.Path

/-- The names among some characters. -/
def namesIn (cs : List Char) : List String := ((pieces cs).filter (· ≠ [])).map String.ofList

theorem namesOf_ofList (cs : List Char) : namesOf (String.ofList cs) = namesIn cs := by
  rw [namesOf, String.toList_ofList, namesIn]

theorem namesIn_append (cs ds : List Char) :
    namesIn (cs ++ '/' :: ds) = namesIn cs ++ namesIn ds := by
  simp only [namesIn, pieces_append, List.filter_append, List.map_append]

/-! ### Paths below others -/

/-- A relative path stands behind a slash, unless there is nothing that it is joined to. -/
theorem toList_join {base path : String} (h : isAbsolute path = false) :
    (base.toList = [] ∧ join base path = path) ∨
      ∃ cs, (base.toList = cs ++ ['/'] ∨ base.toList = cs ∧ cs ≠ []) ∧
        (join base path).toList = cs ++ '/' :: path.toList := by
  unfold join
  rw [if_neg (by simp [h])]
  rcases List.eq_nil_or_concat' base.toList with hbase | ⟨cs, c, hbase⟩
  · exact .inl ⟨hbase, by rw [hbase]; rfl⟩
  · rw [hbase, List.getLast?_concat]
    dsimp only
    by_cases hc : c = '/'
    · subst hc
      refine .inr ⟨cs, .inl rfl, ?_⟩
      rw [if_pos rfl, String.toList_append, hbase, List.append_assoc]
      rfl
    · refine .inr ⟨cs ++ [c], .inr ⟨rfl, by simp⟩, ?_⟩
      rw [if_neg hc, String.toList_append, String.toList_append, hbase, List.append_assoc]
      rfl

theorem namesOf_join {base path : String} (h : isAbsolute path = false) :
    namesOf (join base path) = namesOf base ++ namesOf path := by
  show namesIn _ = namesIn _ ++ namesIn _
  rcases toList_join h with ⟨hbase, hjoin⟩ | ⟨cs, hbase, hjoin⟩
  · rw [hjoin, hbase]
    rfl
  · rw [hjoin, namesIn_append]
    rcases hbase with hbase | ⟨hbase, _⟩
    · rw [hbase, namesIn_append]
      exact congrArg (· ++ _) (List.append_nil _).symm
    · rw [hbase]

theorem isAbsolute_join {base path : String} (h : isAbsolute path = false) :
    isAbsolute (join base path) = isAbsolute base := by
  rcases @toList_join base path h with ⟨hbase, hjoin⟩ | ⟨cs, hbase, hjoin⟩
  · rw [hjoin, h, isAbsolute, hbase]
    rfl
  · rw [isAbsolute, isAbsolute, hjoin]
    rcases hbase with hbase | ⟨hbase, hne⟩
    · rw [hbase]
      cases cs <;> rfl
    · obtain ⟨c, cs, rfl⟩ := List.exists_cons_of_ne_nil hne
      rw [hbase]
      rfl

/-! ### Parents -/

/-- A path up to one of its slashes starts where it does and has the first of its names. -/
theorem cut {cs : List Char} {ps : List (List Char)} (h : ps <+: body cs) :
    ((start cs ++ ['/'].intercalate ps).head? = some '/' ↔ cs.head? = some '/') ∧
      namesIn (start cs ++ ['/'].intercalate ps) <+: namesIn cs := by
  obtain ⟨qs, hbody⟩ := h
  have hwhole : start cs ++ ['/'].intercalate (body cs) = cs := by
    rw [body, intercalate_pieces, start_append]
  by_cases hps : ps = []
  · subst hps
    rw [List.intercalate_nil, List.append_nil]
    fun_cases start cs
    · exact ⟨by simp, List.nil_prefix⟩
    · exact ⟨Iff.rfl, List.prefix_rfl⟩
    · next rest => exact ⟨by simp, namesIn_append ['.'] rest ▸ List.prefix_append _ _⟩
    · next hslash _ _ =>
      refine ⟨iff_of_false nofun fun hcs => ?_, List.nil_prefix⟩
      obtain ⟨rest, rfl⟩ := List.head?_eq_some_iff.mp hcs
      exact hslash rest rfl
  · by_cases hqs : qs = []
    · rw [hqs, List.append_nil] at hbody
      rw [hbody, hwhole]
      exact ⟨Iff.rfl, List.prefix_rfl⟩
    · rw [← hbody, intercalate_append hps hqs, ← List.append_assoc] at hwhole
      constructor
      · cases hx : start cs ++ ['/'].intercalate ps with
        | nil =>
          rw [hx] at hwhole
          rw [← hwhole] at hx
          cases hx
        | cons c rest =>
          rw [hx] at hwhole
          rw [← hwhole]
          rfl
      · conv_rhs => rw [← hwhole]
        rw [namesIn_append]
        exact List.prefix_append _ _

theorem prefix_dropUncounted (ps : List (List Char)) : dropUncounted ps <+: ps := by
  rw [dropUncounted, ← List.reverse_suffix, List.reverse_reverse]
  exact List.dropWhile_suffix _

/-- A parent starts where the path does and has the first of its names. -/
theorem parent?_eq_some {path around : String} (h : parent? path = some around) :
    isAbsolute around = isAbsolute path ∧ namesOf around <+: namesOf path := by
  have hcut {ps : List (List Char)} (hps : ps <+: body path.toList)
      (haround : around = ofPieces (start path.toList) ps) :
      isAbsolute around = isAbsolute path ∧ namesOf around <+: namesOf path := by
    obtain ⟨hhead, hnames⟩ := cut hps
    rw [haround, ofPieces, namesOf_ofList, isAbsolute, isAbsolute, String.toList_ofList]
    exact ⟨by rw [decide_eq_decide]; exact hhead, hnames⟩
  unfold parent? at h
  dsimp only at h
  split at h
  next last before hdrop =>
    refine hcut ?_ (Option.some.inj h).symm
    have hbefore : before.reverse <+: dropUncounted (body path.toList) := by
      rw [← List.reverse_suffix, hdrop, List.reverse_reverse]
      exact List.suffix_cons _ _
    exact (prefix_dropUncounted _).trans (hbefore.trans (prefix_dropUncounted _))
  next =>
    split at h
    · next hstart =>
      obtain rfl := Option.some.inj h
      refine ⟨(Bool.eq_false_iff.mpr fun habsolute => ?_).symm, List.nil_prefix⟩
      obtain ⟨rest, hpath⟩ := isAbsolute_iff.mp habsolute
      rw [hpath] at hstart
      cases hstart
    · cases h

theorem of_mem_ancestors {path around : String} (h : around ∈ ancestors path) :
    isAbsolute around = isAbsolute path ∧ namesOf around <+: namesOf path := by
  unfold ancestors at h
  generalize path.length + 1 = n at h
  induction n generalizing path with
  | zero => cases h
  | succ n ih =>
    rw [ancestorsUpTo] at h
    split at h
    next parent hparent =>
      rcases List.mem_cons.mp h with rfl | h
      · exact ⟨rfl, List.prefix_rfl⟩
      · obtain ⟨habsolute, hnames⟩ := parent?_eq_some hparent
        obtain ⟨habsolute', hnames'⟩ := ih h
        exact ⟨habsolute'.trans habsolute, hnames'.trans hnames⟩
    next =>
      rw [List.mem_singleton.mp h]
      exact ⟨rfl, List.prefix_rfl⟩

/-! ### Relative paths -/

/-- A step up behind the start of a path is one of its parts. -/
theorem up_mem_parts {path : String} (h : ".." ∈ namesOf path) : .up ∈ parts path := by
  obtain ⟨piece, hpiece, hname⟩ := List.mem_map.mp h
  obtain rfl : piece = ['.', '.'] := by
    have hchars := congrArg String.toList hname
    rwa [String.toList_ofList] at hchars
  have hbody : ['.', '.'] ∈ body path.toList := by
    have hpiece := (List.mem_filter.mp hpiece).1
    unfold body
    revert hpiece
    fun_cases start path.toList
    · next rest => exact fun hpiece => (List.mem_cons.mp hpiece).resolve_left nofun
    · exact fun hpiece => absurd hpiece (by decide)
    · next rest =>
      intro hpiece
      rw [← List.singleton_append, pieces_append] at hpiece
      exact (List.mem_append.mp hpiece).elim (fun h => absurd h (by decide))
        (List.mem_cons_of_mem _)
    · exact id
  exact List.mem_append_right _
    (List.mem_map.mpr ⟨_, List.mem_filter.mpr ⟨hbody, by decide⟩, by decide⟩)

theorem namesOf_ne_nil {path : String} (h : isAbsolute path = false)
    (hempty : ¬ path.isEmpty = true) : namesOf path ≠ [] := by
  cases hpath : path.toList with
  | nil => exact absurd (by rw [String.isEmpty_iff]; exact String.toList_eq_nil_iff.mp hpath) hempty
  | cons c rest =>
    have hc : c ≠ '/' := by
      rintro rfl
      rw [isAbsolute_iff.mpr ⟨rest, hpath⟩] at h
      cases h
    obtain ⟨p, ps, _, hpieces⟩ := pieces_cons hc rest
    rw [namesOf, hpath, hpieces]
    exact nofun

/-- A path that may be used below a directory is relative, has names, and does not lead up. -/
theorem of_requireRelative {path : String} (h : requireRelative path = .ok ()) :
    isAbsolute path = false ∧ namesOf path ≠ [] ∧ ".." ∉ namesOf path := by
  unfold requireRelative at h
  split at h
  case isTrue => cases h
  case isFalse hrefused =>
    rw [Bool.or_eq_true, not_or] at hrefused
    obtain ⟨hempty, hleaves⟩ := hrefused
    have hpart (p : Part) (hp : p ∈ parts path) : p.leaves = false := by
      by_contra hnot
      exact hleaves (List.any_eq_true.mpr ⟨p, hp, by simpa using hnot⟩)
    have hrelative : isAbsolute path = false := by
      refine Bool.eq_false_iff.mpr fun habsolute => ?_
      obtain ⟨rest, hpath⟩ := isAbsolute_iff.mp habsolute
      have hroot : .root ∈ parts path := by
        unfold parts
        rw [hpath]
        exact List.mem_append_left _ List.mem_cons_self
      cases hpart .root hroot
    refine ⟨hrelative, namesOf_ne_nil hrelative hempty, fun hup => ?_⟩
    cases hpart .up (up_mem_parts hup)

end Provision.Files
