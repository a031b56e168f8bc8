import Provision.Fault
import Provision.Files.System

/-! What is asked of a path before it is used.

Paths below a managed directory have to stay there. Files that are read have to be
regular, reached without a link at their end, and not too large. -/
namespace Provision.Files

/-- The largest file that is read, in bytes. -/
def sizeLimit : Nat := 100 * 1024 * 1024

/-- Whether a part of a path leaves the directory that the path is below. -/
def Path.Part.leaves : Path.Part → Bool
  | .root | .up => true
  | .current | .name _ => false

/-- A path may neither be empty nor lead out of the directory it is below. -/
def requireRelative (path : String) : Except Fault Unit :=
  if path.isEmpty || (Path.parts path).any Path.Part.leaves then
    .error (.pathViolation path "path must be relative and must not leave its root directory")
  else .ok ()

def requireSize (path : String) (size limit : Nat) : Except Fault Unit :=
  if limit < size then
    .error (.pathViolation path
      ("file is too large (" ++ toString size ++ " bytes, limit " ++ toString limit ++ ")"))
  else .ok ()

variable {m : Type → Type} [Monad m]

/-- What is at a path. `asked` tells what it was needed for. -/
def examine (fs : FileSystem m) (path asked : String) : ExceptT Fault m Kind :=
  ExceptT.adapt (fun e => .unreadableFile path ("cannot stat " ++ asked ++ ": " ++ e.message))
    (fs.kind path)

def requireNoLink (fs : FileSystem m) (path operation : String) : ExceptT Fault m Unit := do
  if (← examine fs path ("before " ++ operation)) = .link then
    throw (.pathViolation path (operation ++ " operations on symbolic links are not allowed"))

/-- A regular file of bearable size. `description` says which one is meant. -/
def requireRegular (fs : FileSystem m) (path description : String) : ExceptT Fault m Unit := do
  match ← examine fs path description with
  | .link => throw (.pathViolation path "symbolic links are not allowed")
  | .file size => ofExcept (requireSize path size sizeLimit)
  | .directory | .special => throw (.notRegularFile path)

end Provision.Files
