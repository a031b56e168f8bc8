import Provision.Yaml.Tree

/-! Nodes: documents without aliases.

Every alias is replaced by the node that it stands for. An anchor gets as number how many
names are known when it is met, its own included if it is not new, and an alias stands
for the last node of the document that has the number its name had when the alias was
met. Nesting is limited, and so is the use of aliases, in proportion to the size of the
document. -/
namespace Provision.Yaml

inductive Node where
  | scalar (tag : Option Tag) (text : String) (style : Style)
  | sequence (tag : Option Tag) (items : List Node)
  | mapping (tag : Option Tag) (entries : List (Node × Node))
  deriving Inhabited

/-- How deep sequences and mappings may be nested. -/
def depthLimit : Nat := 128

/-- How often an alias may be used for each part of the document. -/
def aliasAllowance : Nat := 100

namespace Tree

variable {α : Type}

def anchor? : Tree α → Option α
  | .alias _ => none
  | .scalar p _ _ | .sequence p _ | .mapping p _ => p.anchor

/-! ### Size -/

mutual

/-- The parts of a document: every scalar and alias, and both ends of each collection. -/
def size : Tree α → Nat
  | .alias _ | .scalar .. => 1
  | .sequence _ items => 2 + sizeOfItems items
  | .mapping _ entries => 2 + sizeOfEntries entries

def sizeOfItems : List (Tree α) → Nat
  | [] => 0
  | t :: rest => t.size + sizeOfItems rest

def sizeOfEntries : List (Tree α × Tree α) → Nat
  | [] => 0
  | (k, v) :: rest => k.size + v.size + sizeOfEntries rest

end

/-! ### Numbers for anchors -/

/-- The names that are known, each with its number. -/
abbrev Numbering := StateT (List (String × Nat)) (Except Fault)

def numberAnchor (p : Properties String) : Numbering (Properties Nat) := do
  match p.anchor with
  | none => return { tag := p.tag }
  | some name =>
    let known ← get
    let number := known.length
    set ((name, number) :: known.filter fun k => k.1 ≠ name)
    return { anchor := some number, tag := p.tag }

def numberAlias (name : String) : Numbering (Tree Nat) := do
  match (← get).find? fun k => k.1 == name with
  | some (_, number) => return .alias number
  | none => throw .unknownAlias

mutual

def number : Tree String → Numbering (Tree Nat)
  | .alias name => numberAlias name
  | .scalar p text style => do return .scalar (← numberAnchor p) text style
  | .sequence p items => do
    let p ← numberAnchor p
    return .sequence p (← numberItems items)
  | .mapping p entries => do
    let p ← numberAnchor p
    return .mapping p (← numberEntries entries)

def numberItems : List (Tree String) → Numbering (List (Tree Nat))
  | [] => return []
  | t :: rest => do
    let t ← number t
    return t :: (← numberItems rest)

def numberEntries : List (Tree String × Tree String) → Numbering (List (Tree Nat × Tree Nat))
  | [] => return []
  | (k, v) :: rest => do
    let k ← number k
    let v ← number v
    return (k, v) :: (← numberEntries rest)

end

mutual

/-- The last node with a number. -/
def last? (n : Nat) : Tree Nat → Option (Tree Nat)
  | .alias _ => none
  | .scalar p text style => if p.anchor = some n then some (.scalar p text style) else none
  | .sequence p items =>
    (lastOfItems? n items).or (if p.anchor = some n then some (.sequence p items) else none)
  | .mapping p entries =>
    (lastOfEntries? n entries).or (if p.anchor = some n then some (.mapping p entries) else none)

def lastOfItems? (n : Nat) : List (Tree Nat) → Option (Tree Nat)
  | [] => none
  | t :: rest => (lastOfItems? n rest).or (t.last? n)

def lastOfEntries? (n : Nat) : List (Tree Nat × Tree Nat) → Option (Tree Nat)
  | [] => none
  | (k, v) :: rest => (lastOfEntries? n rest).or ((v.last? n).or (k.last? n))

end

/-! ### Expansion -/

/-- How often an alias was used. -/
abbrev Expansion := StateT Nat (Except Fault)

/-- The node that a tree of the document stands for. -/
def follow (document : Tree Nat) : Tree Nat → Expansion (Tree Nat)
  | .alias n => do
    let used := (← get) + 1
    if aliasAllowance * document.size < used then throw .tooManyAliases
    set used
    match document.last? n with
    | some t => return t
    | none => throw .unknownAlias
  | t => return t

/-- Replaces all aliases. Collections may be nested `room` deep. -/
def expand (document : Tree Nat) : Nat → Tree Nat → Expansion Node
  | 0, t => do
    match ← follow document t with
    | .scalar p text style => return .scalar p.tag text style
    | .alias _ => throw .unknownAlias
    | _ => throw .tooDeep
  | room + 1, t => do
    match ← follow document t with
    | .scalar p text style => return .scalar p.tag text style
    | .alias _ => throw .unknownAlias
    | .sequence p items => return .sequence p.tag (← items.mapM (expand document room))
    | .mapping p entries =>
      return .mapping p.tag (← entries.mapM fun (k, v) => do
        let k ← expand document room k
        let v ← expand document room v
        return (k, v))

end Tree

/-- The document as a node. -/
def Node.ofTree (t : Tree String) : Except Fault Node := do
  let document ← (t.number).run' []
  (document.expand depthLimit document).run' 0

end Provision.Yaml
