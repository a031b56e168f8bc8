import Provision.Files.Path
import Provision.Files.SystemFault

/-! File systems.

A `FileSystem` is what programs ask of one: what is at a path, reading, writing and
making directories. A path is followed through links unless it is asked about itself. -/
namespace Provision

namespace Files

/-- What is at a path. -/
inductive Kind where
  | file (size : Nat)
  | directory
  | link
  | special
  deriving DecidableEq, Repr

end Files

open Files

structure FileSystem (m : Type → Type) where
  /-- What is at a path itself, which may be a link. -/
  kind : String → ExceptT SystemFault m Kind
  /-- What a path leads to. -/
  destination : String → ExceptT SystemFault m Kind
  read : String → ExceptT SystemFault m ByteArray
  /-- Gives a file new contents. The file is made if it is not there. -/
  write : String → String → ExceptT SystemFault m Unit
  /-- Adds to the contents of a file. The file is made if it is not there. -/
  append : String → String → ExceptT SystemFault m Unit
  createDirectory : String → ExceptT SystemFault m Unit

namespace FileSystem

variable {m : Type → Type} [Monad m]

/-- Whether a path leads to anything. -/
def leads (fs : FileSystem m) (path : String) : m Bool :=
  return match ← (fs.destination path).run with
    | .ok _ => true
    | .error _ => false

def isFile (fs : FileSystem m) (path : String) : m Bool :=
  return match ← (fs.destination path).run with
    | .ok (.file _) => true
    | _ => false

def isDirectory (fs : FileSystem m) (path : String) : m Bool :=
  return match ← (fs.destination path).run with
    | .ok .directory => true
    | _ => false

def readText (fs : FileSystem m) (path : String) : ExceptT SystemFault m String := do
  match String.fromUTF8? (← fs.read path) with
  | some text => return text
  | none => throw .notText

/-- The file system as seen from a larger monad. -/
def lifted {n : Type → Type} [MonadLiftT m n] (fs : FileSystem m) : FileSystem n where
  kind path := ExceptT.mk (liftM (fs.kind path).run)
  destination path := ExceptT.mk (liftM (fs.destination path).run)
  read path := ExceptT.mk (liftM (fs.read path).run)
  write path text := ExceptT.mk (liftM (fs.write path text).run)
  append path text := ExceptT.mk (liftM (fs.append path text).run)
  createDirectory path := ExceptT.mk (liftM (fs.createDirectory path).run)

/-! ### Directories -/

/-- A directory that cannot be made because it is there will do. -/
def tolerate (fs : FileSystem m) (path : String) (e : SystemFault) : ExceptT SystemFault m Unit := do
  unless ← fs.isDirectory path do throw e

/-- Makes the first of some nested directories, each of which is followed by the one
around it. Those are made if they are needed. -/
def createInside (fs : FileSystem m) : List String → ExceptT SystemFault m Unit
  | [] => return
  | path :: around =>
    if path.isEmpty then return
    else tryCatch (fs.createDirectory path) fun e =>
      if e = .notFound then do
        fs.createInside around
        tryCatch (fs.createDirectory path) (fs.tolerate path)
      else fs.tolerate path e

/-- Makes a directory and those around it. -/
def createDirectories (fs : FileSystem m) (path : String) : ExceptT SystemFault m Unit :=
  fs.createInside (Path.ancestors path)

end FileSystem
end Provision
