import Provision.Yaml.Fault
import Provision.Yaml.Token

/-! From tokens to a tree.

A tree is a document as it is written: aliases and tags stand where they were put and
every plain scalar is still a text. A text holds at most one document. Where a node may
be left out, an empty plain scalar takes its place. -/
namespace Provision.Yaml

/-- What may stand in front of a node. -/
structure Properties (α : Type) where
  anchor : Option α := none
  tag : Option Tag := none
  deriving Repr, Inhabited

/-- A tree whose anchors and aliases are of a type. -/
inductive Tree (α : Type) where
  | alias (anchor : α)
  | scalar (properties : Properties α) (text : String) (style : Style)
  | sequence (properties : Properties α) (items : List (Tree α))
  | mapping (properties : Properties α) (entries : List (Tree α × Tree α))
  deriving Inhabited

/-- The node that is left out. -/
def Tree.absent {α : Type} : Tree α := .scalar {} "" .plain

/-- Reading from what is left of the tokens. -/
abbrev Grammar := StateT (List Token) (Except Fault)

namespace Grammar

/-- The next token. Behind the last one the text stays at its end. -/
def next : Grammar Token := return (← get).headD .streamEnd

def skip : Grammar Unit := modify (List.drop 1)

/-- A node, left out if one of some tokens comes next. -/
def nodeUnless (closing : List Token) (node : Grammar (Tree String)) : Grammar (Tree String) := do
  if closing.contains (← next) then return .absent else node

/-! ### Directives -/

/-- What the handles of tags stand for. -/
abbrev Handles := List (String × Octets)

/-- The two handles that every document has. -/
def standardHandles : Handles := [("!", .ofString "!"), ("!!", .ofString Tag.corePrefix)]

/-- Reads the directives of a document. Each may be given once. -/
def directives : Nat → Bool → Handles → Grammar Handles
  | 0, _, handles => return handles
  | room + 1, versioned, handles => do
    match ← next with
    | .version major minor =>
      if versioned then throw .repeatedDirective
      if !(major = 1 && (minor = 1 || minor = 2)) then throw .unsupportedVersion
      skip
      directives room true handles
    | .tagHandle handle expansion =>
      if handles.any fun h => h.1 == handle then throw .repeatedDirective
      skip
      directives room versioned (handles ++ [(handle, expansion)])
    | _ => return handles

/-! ### Nodes -/

def resolveTag (handles : Handles) (handle : Option String) (suffix : Octets) : Grammar Tag :=
  match handle with
  | none => return .ofOctets suffix
  | some handle =>
    match handles.find? fun h => h.1 == handle with
    | some (_, expansion) => return .ofOctets (expansion.untilZero ++ suffix)
    | none => throw .unknownTagHandle

def anchor? : Grammar (Option String) := do
  match ← next with
  | .anchor name => do
    skip
    return some name
  | _ => return none

def tag? (handles : Handles) : Grammar (Option Tag) := do
  match ← next with
  | .tag handle suffix => do
    skip
    return some (← resolveTag handles handle suffix)
  | _ => return none

/-- An anchor and a tag, in either order. -/
def properties (handles : Handles) : Grammar (Properties String) := do
  match ← anchor? with
  | some anchor => return { anchor := some anchor, tag := ← tag? handles }
  | none =>
    match ← tag? handles with
    | some tag => return { anchor := ← anchor?, tag := some tag }
    | none => return {}

/-- A node of which only the properties are written. -/
def contentless (p : Properties String) : Grammar (Tree String) :=
  if p.anchor.isSome || p.tag.isSome then return .scalar p "" .plain else throw .missingContent

mutual

/-- A node. Block collections start only where they may, and the entries of a sequence
below a key need not be deeper than the key. -/
def node (handles : Handles) (block indentless : Bool) : Nat → Grammar (Tree String)
  | 0 => throw .missingContent
  | room + 1 => do
    if let .alias name ← next then
      skip
      return .alias name
    let p ← properties handles
    match ← next with
    | .scalar text style => do
      skip
      return .scalar p text style
    | .flowSequence => do
      skip
      return .sequence p (← flowItems handles true room)
    | .flowMapping => do
      skip
      return .mapping p (← flowPairs handles true room)
    | .blockEntry =>
      if indentless then return .sequence p (← indentlessItems handles room) else contentless p
    | .blockSequence =>
      if block then do
        skip
        return .sequence p (← blockItems handles room)
      else contentless p
    | .blockMapping =>
      if block then do
        skip
        return .mapping p (← blockPairs handles room)
      else contentless p
    | _ => contentless p

def blockItems (handles : Handles) : Nat → Grammar (List (Tree String))
  | 0 => throw .missingEntry
  | room + 1 => do
    match ← next with
    | .blockEntry => do
      skip
      let item ← nodeUnless [.blockEntry, .blockEnd] (node handles true false room)
      return item :: (← blockItems handles room)
    | .blockEnd => do
      skip
      return []
    | _ => throw .missingEntry

def indentlessItems (handles : Handles) : Nat → Grammar (List (Tree String))
  | 0 => throw .missingEntry
  | room + 1 => do
    match ← next with
    | .blockEntry => do
      skip
      let item ← nodeUnless [.blockEntry, .key, .value, .blockEnd] (node handles true false room)
      return item :: (← indentlessItems handles room)
    | _ => return []

def blockPairs (handles : Handles) : Nat → Grammar (List (Tree String × Tree String))
  | 0 => throw .missingKey
  | room + 1 => do
    match ← next with
    | .key => do
      skip
      let key ← nodeUnless [.key, .value, .blockEnd] (node handles true true room)
      let value ← blockValue handles room
      return (key, value) :: (← blockPairs handles room)
    | .blockEnd => do
      skip
      return []
    | _ => throw .missingKey

def blockValue (handles : Handles) : Nat → Grammar (Tree String)
  | 0 => throw .missingKey
  | room + 1 => do
    match ← next with
    | .value => do
      skip
      nodeUnless [.key, .value, .blockEnd] (node handles true true room)
    | _ => return .absent

/-- The items of a flow sequence. An item may be a single pair. -/
def flowItems (handles : Handles) (first : Bool) : Nat → Grammar (List (Tree String))
  | 0 => throw .unclosedFlow
  | room + 1 => do
    if (← next) = .flowSequenceEnd then
      skip
      return []
    if !first then
      if (← next) ≠ .flowEntry then throw .unclosedFlow
      skip
    match ← next with
    | .flowSequenceEnd => do
      skip
      return []
    | .key => do
      skip
      let key ← pairKey handles room
      let value ← flowValue handles [.flowEntry, .flowSequenceEnd] room
      return .mapping {} [(key, value)] :: (← flowItems handles false room)
    | _ => do
      let item ← node handles false false room
      return item :: (← flowItems handles false room)

/-- The key of a single pair. Where it is left out, the token after it is passed. -/
def pairKey (handles : Handles) : Nat → Grammar (Tree String)
  | 0 => throw .unclosedFlow
  | room + 1 => do
    if [Token.value, .flowEntry, .flowSequenceEnd].contains (← next) then
      skip
      return .absent
    else node handles false false room

/-- The value after a key of a flow collection, if there is one. -/
def flowValue (handles : Handles) (closing : List Token) : Nat → Grammar (Tree String)
  | 0 => throw .unclosedFlow
  | room + 1 => do
    match ← next with
    | .value => do
      skip
      nodeUnless closing (node handles false false room)
    | _ => return .absent

/-- The pairs of a flow mapping. A pair without sign is a key alone. -/
def flowPairs (handles : Handles) (first : Bool) : Nat → Grammar (List (Tree String × Tree String))
  | 0 => throw .unclosedFlow
  | room + 1 => do
    if (← next) = .flowMappingEnd then
      skip
      return []
    if !first then
      if (← next) ≠ .flowEntry then throw .unclosedFlow
      skip
    match ← next with
    | .flowMappingEnd => do
      skip
      return []
    | .key => do
      skip
      let key ← nodeUnless [.value, .flowEntry, .flowMappingEnd] (node handles false false room)
      let value ← flowValue handles [.flowEntry, .flowMappingEnd] room
      return (key, value) :: (← flowPairs handles false room)
    | _ => do
      let key ← node handles false false room
      return (key, .absent) :: (← flowPairs handles false room)

end

/-! ### Documents -/

def isDirective : Token → Bool
  | .version .. | .tagHandle .. => true
  | _ => false

/-- A document. Only its first line may be left out, and then it has no directives. -/
def document (room : Nat) : Grammar (Tree String) := do
  let first ← next
  if isDirective first || first = .documentStart then
    let handles ← directives room false []
    if (← next) ≠ .documentStart then throw .missingDocumentStart
    skip
    let handles := handles ++ standardHandles
    if isDirective (← next) then return .absent
    nodeUnless [.documentStart, .documentEnd, .streamEnd] (node handles true false room)
  else node standardHandles true false room

/-- The only document of a text, if it has one. -/
def stream (room : Nat) : Grammar (Option (Tree String)) := do
  if (← next) = .streamEnd then return none
  let tree ← document room
  modify (List.dropWhile (· = .documentEnd))
  if (← next) ≠ .streamEnd then throw .severalDocuments
  return some tree

end Grammar

/-- The document that a text holds, none if the text is empty. -/
def Tree.ofTokens (tokens : List Token) : Except Fault (Option (Tree String)) :=
  (Grammar.stream (4 * tokens.length + 8)).run' tokens

end Provision.Yaml
