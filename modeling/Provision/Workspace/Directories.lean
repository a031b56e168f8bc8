import Provision.Files.Guard
import Provision.Workspace

/-! Workspaces on a file system.

Scripts are read from one directory and files written to another. No path may lead out
of them, and nothing is written through a link at the end of a path. The files that were
written are remembered in the order of their first writing, each with its first
spelling. -/
namespace Provision

structure Directories where
  source : String
  output : String

namespace Directories

/-- The directories of one target, which has an output directory of its own. -/
def forTarget (source output target : String) : Directories :=
  { source, output := Files.Path.join output target }

/-- A run that remembers the paths of the files it wrote. -/
abbrev M (m : Type → Type) := StateT (List String) m

/-- Adds a path unless it has the parts of one that is there. -/
def record (path : String) (written : List String) : List String :=
  if written.any fun p => Files.Path.parts p = Files.Path.parts path then written
  else written ++ [path]

/-- A path below one of the directories. -/
def relative (path : String) : Except Fault String := do
  let path := String.ofList (dropCurrent path.toList)
  Files.requireRelative path
  return path

variable {m : Type → Type} [Monad m]

def prepare (fs : FileSystem m) (d : Directories) : ExceptT Fault m Unit := do
  if (← (fs.kind d.output).run) matches .ok _ then Files.requireNoLink fs d.output "output"
  ExceptT.adapt
    (fun e => .unwritableFile d.output ("Failed to create output directory: " ++ e.message))
    (fs.createDirectories d.output)

def read (fs : FileSystem m) (d : Directories) (path : String) : ExceptT Fault m String := do
  let path := Files.Path.join d.source (← ofExcept (relative path))
  ExceptT.adapt (fun e => .unreadableFile path e.message) (Files.requireRegular fs path "artifact")
  ExceptT.adapt (fun e => .unreadableFile path e.message) (fs.readText path)

/-- Makes the directory that a path is in and sees that there is no link at its end. -/
def approach (fs : FileSystem m) (path : String) : ExceptT Fault m Unit := do
  if let some around := Files.Path.parent? path then
    ExceptT.adapt
      (fun e => .unwritableFile path ("Failed to create parent directory: " ++ e.message))
      (fs.createDirectories around)
  if (← (fs.kind path).run) matches .ok _ then Files.requireNoLink fs path "write"

/-- Writes by an operation of the file system and remembers the path. -/
def writeBy (operation : String → String → ExceptT Files.SystemFault m Unit) (fs : FileSystem m)
    (d : Directories) (path text : String) : ExceptT Fault (M m) Unit := do
  let path ← ofExcept (relative path)
  let full := Files.Path.join d.output path
  let attempt : ExceptT Fault m Unit := do
    approach fs full
    ExceptT.adapt (fun e => .unwritableFile full e.message) (operation full text)
  ofExcept (← (attempt.run : m (Except Fault Unit)))
  modify (record path)

def write (fs : FileSystem m) (d : Directories) : String → String → ExceptT Fault (M m) Unit :=
  d.writeBy fs.write fs

def append (fs : FileSystem m) (d : Directories) : String → String → ExceptT Fault (M m) Unit :=
  d.writeBy fs.append fs

/-- An operation that writes no file. -/
def lift {α : Type} (x : ExceptT Fault m α) : ExceptT Fault (M m) α :=
  ExceptT.mk (StateT.lift x.run)

def workspace (fs : FileSystem m) (hasTool : String → m Bool) (d : Directories) :
    Workspace (M m) where
  prepare := lift (d.prepare fs)
  release := return
  read path := lift (d.read fs path)
  write := d.write fs
  hasTool tool := StateT.lift (hasTool tool)

end Directories

/-! ### Tools -/

/-- The directories of a search path. -/
def searchDirectories : List Char → List (List Char)
  | [] => [[]]
  | ':' :: rest => [] :: searchDirectories rest
  | c :: rest =>
    match searchDirectories rest with
    | d :: ds => (c :: d) :: ds
    | [] => [[c]]

variable {m : Type → Type} [Monad m]

/-- The first of some paths that is a file. -/
def firstFile? (fs : FileSystem m) : List String → m (Option String)
  | [] => return none
  | path :: rest => do if ← fs.isFile path then return some path else firstFile? fs rest

/-- Where a tool is on a search path. -/
def locateTool? (fs : FileSystem m) (searchPath tool : String) : m (Option String) :=
  firstFile? fs ((searchDirectories searchPath.toList).map fun directory =>
    Files.Path.join (String.ofList directory) tool)

end Provision
