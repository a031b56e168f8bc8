import Provision.Data.OrderedMap
import Provision.Files.System

/-! Disks in memory.

A disk says what is at each place, a place being the names from the root down to it.
Paths are walked name by name: a step up drops a name, and a link in the middle of a path
is replaced by its target, which is walked from the directory of the link. The root is
always there and is a directory. -/
namespace Provision.Files

abbrev Place := List String

inductive Item where
  | file (contents : ByteArray)
  | directory
  | link (target : String)

instance : DecidableEq Item
  | .file a, .file b =>
    decidable_of_iff (a.data = b.data) (by rw [Item.file.injEq, ByteArray.ext_iff])
  | .directory, .directory => isTrue rfl
  | .link a, .link b => decidable_of_iff (a = b) (by rw [Item.link.injEq])
  | .file _, .directory | .file _, .link _ | .directory, .file _ | .directory, .link _
  | .link _, .file _ | .link _, .directory => isFalse nofun

def Item.kind : Item → Kind
  | .file contents => .file contents.size
  | .directory => .directory
  | .link _ => .link

structure Disk where
  items : OrderedMap Place Item := .empty
  /-- Where relative paths start. -/
  current : Place := []
  deriving Inhabited

namespace Disk

/-- The longest name and the longest path, in bytes. -/
def nameLimit : Nat := 255
def pathLimit : Nat := 4095

/-- How many links a path may lead through. -/
def linkLimit : Nat := 40

def item? (d : Disk) (place : Place) : Option Item :=
  if place = [] then some .directory else d.items.get? place

def put (d : Disk) (place : Place) (item : Item) : Disk :=
  { d with items := d.items.insert place item }

/-- What remains without an item. -/
def erase (d : Disk) (place : Place) : Disk :=
  { d with items := .ofList (d.items.toList.filter fun e => e.1 ≠ place) }

/-- A disk whose only directories are a current one and those around it. -/
def startingAt (current : Place) : Disk :=
  (List.range current.length).foldl (fun d n => d.put (current.take (n + 1)) .directory) { current }

/-! ### Walking -/

/-- The names of a path. -/
def namesOf (path : String) : List String :=
  ((Path.pieces path.toList).filter (· ≠ [])).map String.ofList

def isSlashed (path : String) : Bool := path.toList.getLast? = some '/'

/-- The names of a path, of which the last has to be a directory if a slash follows it. -/
def stepsOf (path : String) : List String :=
  if isSlashed path then namesOf path ++ ["."] else namesOf path

/-- Where a path starts. -/
def origin (dir : Place) (path : String) : Place := if Path.isAbsolute path then [] else dir

/-- What stops a walk: its end, where nothing need be, or a link on the way. -/
inductive Stop where
  | arrived (place : Place) (item? : Option Item)
  | link (dir : Place) (target : String) (rest : List String)

/-- Walks down from a directory, up to the first link that is to be followed. A link at
the end is followed only on request. -/
def stride (d : Disk) (followLast : Bool) (dir : Place) : List String → Except SystemFault Stop
  | [] => .ok (.arrived dir (some .directory))
  | name :: rest =>
    if name = "." then d.stride followLast dir rest
    else if name = ".." then d.stride followLast dir.dropLast rest
    else if nameLimit < name.utf8ByteSize then .error .nameTooLong
    else
      let place := dir ++ [name]
      match d.item? place with
      | none => if rest.isEmpty then .ok (.arrived place none) else .error .notFound
      | some .directory => d.stride followLast place rest
      | some (.file contents) =>
        if rest.isEmpty then .ok (.arrived place (some (.file contents))) else .error .notDirectory
      | some (.link target) =>
        if rest.isEmpty && !followLast then .ok (.arrived place (some (.link target)))
        else .ok (.link dir target rest)

/-- Walks to the end, through at most `links` links. -/
def walk (d : Disk) (followLast : Bool) :
    Nat → Place → List String → Except SystemFault (Place × Option Item)
  | links, dir, steps => do
    match ← d.stride followLast dir steps with
    | .arrived place item? => return (place, item?)
    | .link dir target rest =>
      match links with
      | 0 => throw .tooManyLinks
      | links + 1 => d.walk followLast links (origin dir target) (stepsOf target ++ rest)

/-- What no path may be, whatever is on the disk. -/
def validate (path : String) : Except SystemFault Unit :=
  if path.toList.any (· = '\x00') then .error .nulInName
  else if path.isEmpty then .error .notFound
  else if pathLimit < path.utf8ByteSize then .error .nameTooLong
  else .ok ()

def walkPath (d : Disk) (followLast : Bool) (path : String) (steps : List String) :
    Except SystemFault (Place × Option Item) := do
  validate path
  d.walk followLast linkLimit (origin d.current path) steps

/-- Where a path leads and what is there. -/
def find (d : Disk) (followLast : Bool) (path : String) : Except SystemFault (Place × Item) := do
  match ← d.walkPath followLast path (stepsOf path) with
  | (place, some item) => return (place, item)
  | (_, none) => throw .notFound

/-- The place of a new item. -/
def vacancy (d : Disk) (path : String) : Except SystemFault Place := do
  match ← d.walkPath false path (namesOf path) with
  | (place, none) => return place
  | (_, some _) => throw .alreadyExists

/-- The way to a file that is to be written. With a slash behind its name it cannot be a
file, and only the directory that it would be in is looked at. -/
def stepsToFile (path : String) : List String :=
  if isSlashed path then (namesOf path).dropLast ++ ["."] else namesOf path

/-- The place of a file that is to be written, and what it holds. -/
def writable (d : Disk) (path : String) : Except SystemFault (Place × ByteArray) := do
  match ← d.walkPath true path (stepsToFile path) with
  | (_, some .directory) => throw .isDirectory
  | (place, some (.file contents)) => return (place, contents)
  | (place, _) => return (place, .empty)

/-! ### Operations -/

def kind (d : Disk) (path : String) : Except SystemFault Kind :=
  return (← d.find false path).2.kind

def destination (d : Disk) (path : String) : Except SystemFault Kind :=
  return (← d.find true path).2.kind

def read (d : Disk) (path : String) : Except SystemFault ByteArray := do
  match (← d.find true path).2 with
  | .file contents => return contents
  | _ => throw .isDirectory

def write (d : Disk) (path : String) (contents : ByteArray) : Except SystemFault Disk :=
  return d.put (← d.writable path).1 (.file contents)

def append (d : Disk) (path : String) (contents : ByteArray) : Except SystemFault Disk := do
  let (place, before) ← d.writable path
  return d.put place (.file (before ++ contents))

def createDirectory (d : Disk) (path : String) : Except SystemFault Disk :=
  return d.put (← d.vacancy path) .directory

def createLink (d : Disk) (path target : String) : Except SystemFault Disk :=
  return d.put (← d.vacancy path) (.link target)

/-- Removes what is at a path itself. -/
def remove (d : Disk) (path : String) : Except SystemFault Disk :=
  return d.erase (← d.find false path).1

/-! ### As a file system -/

abbrev M := StateM Disk

/-- What a question has for an answer. -/
def asking {α : Type} (f : Disk → Except SystemFault α) : ExceptT SystemFault M α := do
  ofExcept (f (← get))

/-- A change, which is not made if it fails. -/
def changing (f : Disk → Except SystemFault Disk) : ExceptT SystemFault M Unit := do
  set (← ofExcept (f (← get)))

def system : FileSystem M where
  kind path := asking (·.kind path)
  destination path := asking (·.destination path)
  read path := asking (·.read path)
  write path text := changing (·.write path text.toUTF8)
  append path text := changing (·.append path text.toUTF8)
  createDirectory path := changing (·.createDirectory path)

end Disk
end Provision.Files
