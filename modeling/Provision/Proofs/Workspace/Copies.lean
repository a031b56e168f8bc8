import Provision.Proofs.Backend.Success
import Provision.Proofs.Data.OrderedMap
import Provision.Workspace
import Mathlib.Logic.Function.Basic

/-! Copies of scripts.

A workspace keeps files if a file holds what was last written to its path, and nothing else
changes it. A run copies scripts one after the other, so a path holds the script that was
copied to it last. It holds every script that was copied to it only if these are the same. -/
namespace Provision

/-- Texts by path. -/
abbrev Files := String → Option String

variable {σ α γ : Type}

/-- A workspace reads from fixed sources, and keeps what is written under its path. -/
structure Workspace.Keeps (ws : Workspace (StateM σ)) (source? : Files) (file? : σ → Files) :
    Prop where
  read : ∀ path text w w', Ends (ws.read path) w text w' →
    source? path = some text ∧ file? w' = file? w
  write : ∀ path text w w', Ends (ws.write path text) w () w' →
    file? w' = Function.update (file? w) path (some text)
  release : ∀ w w', Ends ws.release w () w' → file? w' = file? w

/-! ### Copying -/

/-- The files after scripts are copied to their paths, one after the other. -/
def copyAll (source? : Files) (path : PlacedScript → String) (scripts : List PlacedScript)
    (files : Files) : Files :=
  scripts.foldl (fun files s => Function.update files (path s) (source? s.artifact.value)) files

/-- Scripts that were found are copied to their paths, and no other file changes. -/
structure Copies (source? : Files) (path : PlacedScript → String) (scripts : List PlacedScript)
    (files files' : Files) : Prop where
  files : files' = copyAll source? path scripts files
  found : ∀ s ∈ scripts, ∃ text, source? s.artifact.value = some text

section Copies
variable {source? files files₁ files₂ files₃ : Files} {path : PlacedScript → String}
  {scripts scripts' : List PlacedScript}

theorem Copies.refl (files : Files) : Copies source? path [] files files where
  files := rfl
  found := fun _ hs => absurd hs List.not_mem_nil

theorem Copies.trans (h : Copies source? path scripts files₁ files₂)
    (h' : Copies source? path scripts' files₂ files₃) :
    Copies source? path (scripts ++ scripts') files₁ files₃ where
  files := by rw [h'.files, h.files, copyAll, copyAll, copyAll, List.foldl_append]
  found := fun s hs => (List.mem_append.mp hs).elim (h.found s) (h'.found s)

theorem copyAll_concat (s : PlacedScript) :
    copyAll source? path (scripts ++ [s]) files =
      Function.update (copyAll source? path scripts files) (path s)
        (source? s.artifact.value) :=
  List.foldl_concat ..

/-- A path holds the script that was copied to it last. -/
theorem exists_last {s : PlacedScript} (hs : s ∈ scripts) :
    ∃ before last after, scripts = before ++ last :: after ∧ path last = path s ∧
      (∀ x ∈ after, path x ≠ path s) ∧
      copyAll source? path scripts files (path s) = source? last.artifact.value := by
  induction scripts using List.reverseRecOn with
  | nil => exact absurd hs List.not_mem_nil
  | append_singleton before x ih =>
    rw [copyAll_concat]
    by_cases hx : path x = path s
    · refine ⟨before, x, [], rfl, hx, fun y hy => absurd hy List.not_mem_nil, ?_⟩
      rw [← hx, Function.update_self]
    · have hbefore : s ∈ before := by
        rcases List.mem_append.mp hs with hs | hs
        · exact hs
        · exact absurd (congrArg path (List.mem_singleton.mp hs).symm) hx
      obtain ⟨earlier, last, after, rfl, hlast, hafter, hcopied⟩ := ih hbefore
      refine ⟨earlier, last, after ++ [x], by simp, hlast, fun y hy => ?_, ?_⟩
      · rcases List.mem_append.mp hy with hy | hy
        · exact hafter y hy
        · rwa [List.mem_singleton.mp hy]
      · rw [Function.update_of_ne (Ne.symm hx), hcopied]

/-- What the files hold of the scripts that were copied. -/
structure Kept (source? : Files) (path : PlacedScript → String) (scripts : List PlacedScript)
    (files : Files) : Prop where
  found : ∀ s ∈ scripts, ∃ text, source? s.artifact.value = some text
  /-- Each path holds the script that was copied to it last. -/
  last : ∀ s ∈ scripts, ∃ before last after, scripts = before ++ last :: after ∧
    path last = path s ∧ (∀ x ∈ after, path x ≠ path s) ∧
    files (path s) = source? last.artifact.value
  /-- All scripts are kept exactly if those that share a path have the same text. -/
  all_iff : (∀ s ∈ scripts, files (path s) = source? s.artifact.value) ↔
    ∀ s ∈ scripts, ∀ s' ∈ scripts, path s = path s' →
      source? s.artifact.value = source? s'.artifact.value

theorem Copies.kept (h : Copies source? path scripts files₁ files₂)
    (hfiles : ∀ s ∈ scripts, files (path s) = files₂ (path s)) :
    Kept source? path scripts files := by
  have hlast (s : PlacedScript) (hs : s ∈ scripts) :
      ∃ before last after, scripts = before ++ last :: after ∧ path last = path s ∧
        (∀ x ∈ after, path x ≠ path s) ∧ files (path s) = source? last.artifact.value := by
    rw [hfiles s hs, h.files]
    exact exists_last hs
  refine ⟨h.found, hlast, fun hall s hs s' hs' hpath => ?_, fun hsame s hs => ?_⟩
  · rw [← hall s hs, hpath, hall s' hs']
  · obtain ⟨before, last, after, heq, hpath, _, hheld⟩ := hlast s hs
    have hmem : last ∈ scripts := heq ▸ List.mem_append_right _ List.mem_cons_self
    rw [hheld, hsame s hs last hmem hpath.symm]

end Copies

/-! ### Steps on a workspace -/

section Steps
variable {ws : Workspace (StateM σ)} {source? : Files} {file? : σ → Files}
  {path : PlacedScript → String} {w w' : σ}

theorem Workspace.Keeps.copy (h : ws.Keeps source? file?) (s : PlacedScript) {text : String}
    {w₁ : σ} (hread : Ends (ws.read s.artifact.value) w text w₁)
    (hwrite : Ends (ws.write (path s) text) w₁ () w') :
    Copies source? path [s] (file? w) (file? w') := by
  obtain ⟨hfound, hsame⟩ := h.read _ _ _ _ hread
  refine ⟨?_, fun x hx => ?_⟩
  · rw [h.write _ _ _ _ hwrite, hsame, copyAll, List.foldl_cons, hfound, List.foldl_nil]
  · rw [List.mem_singleton.mp hx]
    exact ⟨text, hfound⟩

/-- What each step of a list copies, one after the other. -/
theorem copies_of_mapM {f : α → ExceptT Fault (StateM σ) γ} {scripts : α → List PlacedScript}
    (hf : ∀ a w r w', Ends (f a) w r w' → Copies source? path (scripts a) (file? w) (file? w'))
    {l : List α} {rs : List γ} (h : Ends (l.mapM f) w rs w') :
    Copies source? path (l.flatMap scripts) (file? w) (file? w') := by
  induction l generalizing w rs with
  | nil =>
    rw [List.mapM_nil] at h
    obtain ⟨_, rfl⟩ := ends_pure.mp h
    exact .refl _
  | cons a rest ih =>
    rw [List.mapM_cons] at h
    obtain ⟨r, w₁, ha, h⟩ := ends_bind.mp h
    obtain ⟨rs, w₂, hrest, h⟩ := ends_bind.mp h
    obtain ⟨_, rfl⟩ := ends_pure.mp h
    exact (hf a w r w₁ ha).trans (ih hrest)

/-- Files are written to their paths only. -/
theorem Workspace.Keeps.of_writes (h : ws.Keeps source? file?) {files : List (String × String)}
    {p : String} (hp : ∀ file ∈ files, file.1 ≠ p)
    (hwrites : Ends (files.forM fun file => ws.write file.1 file.2) w () w') :
    file? w' p = file? w p := by
  induction files generalizing w with
  | nil =>
    obtain ⟨_, rfl⟩ := ends_pure.mp hwrites
    rfl
  | cons file rest ih =>
    obtain ⟨hfile, hrest⟩ := List.forall_mem_cons.mp hp
    obtain ⟨_, w₁, hwrite, hwrites⟩ := ends_bind.mp hwrites
    rw [ih hrest hwrites, h.write _ _ _ _ hwrite, Function.update_of_ne (Ne.symm hfile)]

end Steps

/-! ### Workspaces in memory -/

/-- The sources of a workspace in memory, by the paths that may step into the current directory. -/
def Memory.Setup.source? (setup : Memory.Setup) : Files := fun path =>
  setup.sources.get? (String.ofList (dropCurrent path.toList))

def Memory.Store.file? (store : Memory.Store) : Files := store.files.get?

theorem Memory.keeps (setup : Memory.Setup) :
    (Memory.workspace setup).Keeps setup.source? Memory.Store.file? := by
  refine ⟨fun path text w w' h => ?_, fun path text w w' h => ?_, fun w w' h => ?_⟩
  · obtain ⟨_, w₁, hnote, h⟩ := ends_bind.mp h
    cases hnote
    unfold Setup.source?
    cases hfound : setup.sources.get? (String.ofList (dropCurrent path.toList)) with
    | none =>
      simp only [hfound] at h
      cases h
    | some found =>
      simp only [hfound] at h
      cases h
      exact ⟨rfl, rfl⟩
  · obtain ⟨_, w₁, hnote, h⟩ := ends_bind.mp h
    cases hnote
    split at h
    · cases h
    · cases h
      funext p
      show (OrderedMap.insert _ _ _).get? p = _
      rw [OrderedMap.get?_insert, Function.update_apply]
      simp only [eq_comm]
      rfl
  · obtain ⟨_, w₁, hnote, h⟩ := ends_bind.mp h
    cases hnote
    split at h
    · cases h
    · cases h
      rfl

end Provision
