/-! Paths as texts.

A path is kept as it is written. Its parts are what stands between slashes; empty parts
and steps to the current directory do not count, except for one such step at the start
of a relative path. -/
namespace Provision.Files.Path

inductive Part where
  | root
  | current
  | up
  | name (s : String)
  deriving DecidableEq, Repr

/-- What stands between the slashes. -/
def pieces : List Char → List (List Char)
  | [] => [[]]
  | '/' :: rest => [] :: pieces rest
  | c :: rest =>
    match pieces rest with
    | p :: ps => (c :: p) :: ps
    | [] => [[c]]

/-- What a path starts with, if it counts: a slash or a step to the current directory. -/
def start : List Char → List Char
  | '/' :: _ => ['/']
  | ['.'] => ['.']
  | '.' :: '/' :: _ => ['.']
  | _ => []

/-- The pieces behind the start. -/
def body (cs : List Char) : List (List Char) := pieces (cs.drop (start cs).length)

def counts (piece : List Char) : Bool := piece ≠ [] && piece ≠ ['.']

def partOf (piece : List Char) : Part :=
  if piece = ['.', '.'] then .up else .name (String.ofList piece)

/-- The parts of a path. -/
def parts (path : String) : List Part :=
  let cs := path.toList
  let first : List Part :=
    match start cs with
    | ['/'] => [.root]
    | ['.'] => [.current]
    | _ => []
  first ++ ((body cs).filter counts).map partOf

/-- The pieces up to the last one that counts. -/
def dropUncounted (ps : List (List Char)) : List (List Char) :=
  (ps.reverse.dropWhile fun p => !counts p).reverse

def ofPieces (first : List Char) (ps : List (List Char)) : String :=
  String.ofList (first ++ ['/'].intercalate ps)

/-- The path without its last part. The root and the empty path have none. -/
def parent? (path : String) : Option String :=
  let cs := path.toList
  match (dropUncounted (body cs)).reverse with
  | _ :: before => some (ofPieces (start cs) (dropUncounted before.reverse))
  | [] => if start cs = ['.'] then some "" else none

/-- A path and the paths around it, at most `n` of them. -/
def ancestorsUpTo : Nat → String → List String
  | 0, _ => []
  | n + 1, path =>
    match parent? path with
    | some around => path :: ancestorsUpTo n around
    | none => [path]

/-- A path and all paths around it. -/
def ancestors (path : String) : List String := ancestorsUpTo (path.length + 1) path

/-- The last part, if it is a name. -/
def fileName? (path : String) : Option String :=
  match (parts path).getLast? with
  | some (.name s) => some s
  | _ => none

/-- The name without what follows its last point. A point at the start does not count. -/
def stem? (path : String) : Option String :=
  (fileName? path).map fun name =>
    match name.toList.reverse.dropWhile (· ≠ '.') with
    | '.' :: (c :: before) => String.ofList (c :: before).reverse
    | _ => name

def isAbsolute (path : String) : Bool := path.toList.head? = some '/'

/-- A path below another. An absolute path stands for itself. -/
def join (base path : String) : String :=
  if isAbsolute path then path
  else
    match base.toList.getLast? with
    | some c => if c = '/' then base ++ path else base ++ "/" ++ path
    | none => path

end Provision.Files.Path
