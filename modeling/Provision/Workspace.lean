import Provision.Data.OrderedMap
import Provision.Fault

/-! Workspaces: what a run of a target reads from and writes to.

Scripts are read by their path below the model's sources, and generated files written by
their path below the target's output. A run acquires its output by `prepare` and gives
it up by `release`.

In a workspace in memory the sources are a fixed list of texts and the output is a map from
paths to texts. Which calls fail is part of the setup, and every call is noted before it
succeeds or fails. -/
namespace Provision

structure Workspace (m : Type → Type) where
  prepare : ExceptT Fault m Unit
  release : ExceptT Fault m Unit
  read : String → ExceptT Fault m String
  write : String → String → ExceptT Fault m Unit
  /-- Whether a tool is installed. -/
  hasTool : String → m Bool

/-- A path without the steps to the current directory at its start. -/
def dropCurrent : List Char → List Char
  | '.' :: '/' :: rest => dropCurrent rest
  | cs => cs

/-! ### In memory -/

namespace Memory

inductive Access where
  | prepare
  | release
  | read (path : String)
  | write (path : String)
  deriving DecidableEq, Repr

/-- A call as a line of a log. -/
def Access.text : Access → String
  | .prepare => "prepare"
  | .release => "release"
  | .read path => "read " ++ path
  | .write path => "write " ++ path

/-- What is fixed before a run. -/
structure Setup where
  sources : OrderedMap String String := .empty
  tools : List String := []
  /-- The paths that cannot be written. -/
  unwritable : List String := []
  failsToPrepare : Bool := false
  failsToRelease : Bool := false

/-- What a run leaves. -/
structure Store where
  calls : List Access := []
  files : OrderedMap String String := .empty
  deriving Inhabited

abbrev M := StateM Store

def note (a : Access) : ExceptT Fault M Unit :=
  modify fun s => { s with calls := s.calls ++ [a] }

def workspace (setup : Setup) : Workspace M where
  prepare := do
    note .prepare
    if setup.failsToPrepare then throw (.other "injected prepare failure")
  release := do
    note .release
    if setup.failsToRelease then throw (.other "injected release failure")
  read path := do
    note (.read path)
    let path := String.ofList (dropCurrent path.toList)
    match setup.sources.get? path with
    | some text => return text
    | none => throw (.unreadableFile path "not found")
  write path text := do
    note (.write path)
    if path ∈ setup.unwritable then throw (.unwritableFile path "injected I/O failure")
    modify fun s => { s with files := s.files.insert path text }
  hasTool tool := return decide (tool ∈ setup.tools)

end Memory
end Provision
