import Provision.Files.Disk
import Provision.Text.Lossy

/-! Filling disks and looking at them. -/
namespace Provision.Files

/-- Something that is put on a disk at a path. -/
inductive Entry where
  | file (path : String) (contents : ByteArray)
  | directory (path : String)
  | link (path target : String)

def Item.text? : Item → Option String
  | .file contents => some (Text.ofBytes contents.toList)
  | _ => none

namespace Disk

def withDirectories (d : Disk) (path : String) : Disk :=
  ((system.createDirectories path).run.run d).2

/-- Puts an entry on a disk together with the directories around it. An entry for which
there is no place is left out. -/
def add (d : Disk) (e : Entry) : Disk :=
  let around (path : String) : Disk := ((Path.parent? path).map d.withDirectories).getD d
  match e with
  | .directory path => d.withDirectories path
  | .file path contents => ((around path).write path contents).toOption.getD (around path)
  | .link path target => ((around path).createLink path target).toOption.getD (around path)

/-- Removes what is at some paths. -/
def removeAll (d : Disk) (paths : List String) : Disk :=
  paths.foldl (fun d path => (d.remove path).toOption.getD d) d

/-- What is below the current directory, by the path from there. -/
def listing (d : Disk) : List (String × Item) :=
  d.items.toList.filterMap fun (place, item) =>
    if d.current.isPrefixOf place && place ≠ d.current then
      some ("/".intercalate (place.drop d.current.length), item)
    else none

end Disk
end Provision.Files
