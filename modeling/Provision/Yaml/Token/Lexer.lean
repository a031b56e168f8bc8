import Provision.Yaml.Token.Scalar
import Provision.Yaml.Token.Tag

/-! From text to tokens.

The lexer keeps the columns of the block collections it is in, the flow collections it
is in, and for each of these the place where a simple key may have started. A simple key
is known as one only when the colon comes; then its token, and the start of the mapping
if it is the first key, are put in at that place. A key may not go beyond its line or
beyond 1024 octets. -/
namespace Provision.Yaml

/-- A place where a simple key may have started. -/
structure SimpleKey where
  /-- The number of the token at that place. -/
  token : Nat
  index : Nat
  line : Nat
  column : Nat
  /-- Whether nothing but a key can stand there. -/
  required : Bool

structure Lexer where
  cursor : Cursor
  tokens : Array Token := #[]
  /-- The column of the innermost block collection, negative outside of any. -/
  indent : Int := -1
  /-- The columns of the collections around it. -/
  indents : List Int := []
  /-- The possible simple key outside of flow collections. -/
  blockKey : Option SimpleKey := none
  /-- The possible simple keys in the flow collections, innermost first. -/
  flowKeys : List (Option SimpleKey) := []
  keyAllowed : Bool := true

namespace Lexer

def inFlow (l : Lexer) : Bool := !l.flowKeys.isEmpty

def emit (l : Lexer) (t : Token) : Lexer := { l with tokens := l.tokens.push t }

/-- Moves on by some characters of a line. -/
def pass (l : Lexer) (n : Nat) : Lexer := { l with cursor := l.cursor.advance n }

/-! ### Simple keys -/

def currentKey (l : Lexer) : Option SimpleKey :=
  match l.flowKeys with
  | k :: _ => k
  | [] => l.blockKey

def setKey (l : Lexer) (k : Option SimpleKey) : Lexer :=
  match l.flowKeys with
  | _ :: rest => { l with flowKeys := k :: rest }
  | [] => { l with blockKey := k }

/-- Gives up a possible key, which must not be required. -/
def giveUp (k : Option SimpleKey) : Except Fault (Option SimpleKey) :=
  match k with
  | some key => if key.required then .error .missingColon else .ok none
  | none => .ok none

def dropKey (l : Lexer) : Except Fault Lexer := do
  return l.setKey (← giveUp l.currentKey)

/-- Notes that a simple key may start here. -/
def noteKey (l : Lexer) : Except Fault Lexer :=
  if l.keyAllowed then do
    let l ← l.dropKey
    let c := l.cursor
    return l.setKey (some {
      token := l.tokens.size, index := c.index, line := c.line, column := c.column
      required := !l.inFlow && l.indent = c.column })
  else .ok l

/-- Gives up the keys that have become too long. -/
def dropStale (l : Lexer) : Except Fault Lexer := do
  let check (k : Option SimpleKey) : Except Fault (Option SimpleKey) :=
    match k with
    | some key =>
      if key.line < l.cursor.line || key.index + 1024 < l.cursor.index then giveUp k else .ok k
    | none => .ok none
  return { l with blockKey := ← check l.blockKey, flowKeys := ← l.flowKeys.mapM check }

/-! ### Indentation -/

/-- Starts a block collection at a column, unless the innermost one is that deep. The
token goes in front of token `at?`, or at the end. -/
def openBlock (l : Lexer) (column : Nat) (at? : Option Nat) (t : Token) : Lexer :=
  if l.inFlow || (column : Int) ≤ l.indent then l
  else
    { l with
      indents := l.indent :: l.indents
      indent := column
      tokens := l.tokens.insertIdxIfInBounds (at?.getD l.tokens.size) t }

/-- Ends the block collections that are deeper than a column. -/
def closeBlocks (column : Int) : List Int → Lexer → Lexer
  | [], l => l
  | outer :: rest, l =>
    if l.inFlow || l.indent ≤ column then l
    else closeBlocks column rest ({ l with indent := outer, indents := rest }.emit .blockEnd)

def unindent (l : Lexer) (column : Int) : Lexer := closeBlocks column l.indents l

/-! ### The way to the next token -/

/-- Passes blanks, comments and empty lines. -/
def skipToToken : Nat → Lexer → Lexer
  | 0, l => l
  | room + 1, l =>
    let c := if l.cursor.column = 0 && l.cursor.rest.head? = some '\ufeff'
      then l.cursor.advance 1 else l.cursor
    let c := c.skipWhile fun x => x = ' ' || ((l.inFlow || !l.keyAllowed) && x = '\t')
    let c := if c.rest.head? = some '#' then c.skipWhile fun x => !isBreak x else c
    match c.lineEnd? with
    | some (_, next) =>
      skipToToken room { l with cursor := next, keyAllowed := l.keyAllowed || !l.inFlow }
    | none => { l with cursor := c }

/-! ### Tokens -/

/-- What ends all block collections and every key: the end of the text, a document
marker, a directive. -/
def reset (l : Lexer) : Except Fault Lexer := do
  let l ← (l.unindent (-1)).dropKey
  return { l with keyAllowed := false }

def marker (l : Lexer) (t : Token) : Except Fault Lexer := do
  return ((← l.reset).emit t).pass 3

def directive (l : Lexer) : Except Fault Lexer := do
  let l ← l.reset
  let (t, c) ← readDirective l.cursor
  return { l.emit t with cursor := c }

def startFlow (l : Lexer) (t : Token) : Except Fault Lexer := do
  let l ← l.noteKey
  return { l.emit t with flowKeys := none :: l.flowKeys, keyAllowed := true }.pass 1

def endFlow (l : Lexer) (t : Token) : Except Fault Lexer := do
  let l ← l.dropKey
  return { l.emit t with flowKeys := l.flowKeys.drop 1, keyAllowed := false }.pass 1

def flowEntry (l : Lexer) : Except Fault Lexer := do
  let l ← l.dropKey
  return { l.emit .flowEntry with keyAllowed := true }.pass 1

def blockEntry (l : Lexer) : Except Fault Lexer := do
  if !l.inFlow && !l.keyAllowed then throw .misplacedEntry
  let l ← (l.openBlock l.cursor.column none .blockSequence).dropKey
  return { l.emit .blockEntry with keyAllowed := true }.pass 1

def key (l : Lexer) : Except Fault Lexer := do
  if !l.inFlow && !l.keyAllowed then throw .misplacedKey
  let l ← (l.openBlock l.cursor.column none .blockMapping).dropKey
  return { l.emit .key with keyAllowed := !l.inFlow }.pass 1

/-- A colon after a key. -/
def value (l : Lexer) : Except Fault Lexer :=
  match l.currentKey with
  | some k =>
    let l := { l with tokens := l.tokens.insertIdxIfInBounds k.token .key }
    let l := (l.openBlock k.column (some k.token) .blockMapping).setKey none
    return { l.emit .value with keyAllowed := false }.pass 1
  | none => do
    if !l.inFlow && !l.keyAllowed then throw .misplacedValue
    let l := l.openBlock l.cursor.column none .blockMapping
    return { l.emit .value with keyAllowed := !l.inFlow }.pass 1

/-- A token that may start a simple key. -/
def content (l : Lexer) (read : Cursor → Except Fault (Token × Cursor)) :
    Except Fault Lexer := do
  let l ← l.noteKey
  let (t, c) ← read l.cursor
  return { l.emit t with cursor := c, keyAllowed := false }

def quoted (l : Lexer) (single : Bool) : Except Fault Lexer :=
  l.content fun c => do
    let (text, c) ← readQuoted single c
    return (.scalar text (if single then .singleQuoted else .doubleQuoted), c)

def block (l : Lexer) (literal : Bool) : Except Fault Lexer := do
  let l ← l.dropKey
  let (text, c) ← readBlock literal l.indent l.cursor
  return { l.emit (.scalar text (if literal then .literal else .folded)) with
    cursor := c, keyAllowed := true }

def plain (l : Lexer) : Except Fault Lexer := do
  let l ← l.noteKey
  let (text, broken, c) ← readPlain l.inFlow (l.indent + 1) l.cursor
  return { l.emit (.scalar text .plain) with cursor := c, keyAllowed := broken }

/-- Whether a plain scalar may start with the first of these characters. -/
def startsPlain (flow : Bool) : List Char → Bool
  | [] => false
  | c :: rest =>
    !(separates c || "-?:,[]\x7b\x7d#&*!|>'\"%@`".toList.contains c) ||
      (c = '-' && !rest.head?.any isSpaceOrTab) ||
      (!flow && (c = '?' || c = ':') && !separated rest)

/-- Reads the token at the cursor, of which the text is not over yet. -/
def token (l : Lexer) (x : Char) (rest : List Char) : Except Fault Lexer :=
  let flow := l.inFlow
  if l.cursor.column = 0 && x = '%' then l.directive
  else if l.cursor.column = 0 && isMarker '-' (x :: rest) then l.marker .documentStart
  else if l.cursor.column = 0 && isMarker '.' (x :: rest) then l.marker .documentEnd
  else if x = '[' then l.startFlow .flowSequence
  else if x = '\x7b' then l.startFlow .flowMapping
  else if x = ']' then l.endFlow .flowSequenceEnd
  else if x = '\x7d' then l.endFlow .flowMappingEnd
  else if x = ',' then l.flowEntry
  else if x = '-' && separated rest then l.blockEntry
  else if x = '?' && (flow || separated rest) then l.key
  else if x = ':' && (flow || separated rest) then l.value
  else if x = '*' then
    l.content fun c => do
      let (name, c) ← readAnchor c
      return (.alias name, c)
  else if x = '&' then
    l.content fun c => do
      let (name, c) ← readAnchor c
      return (.anchor name, c)
  else if x = '!' then l.content (readTag flow)
  else if x = '|' && !flow then l.block true
  else if x = '>' && !flow then l.block false
  else if x = '\'' then l.quoted true
  else if x = '"' then l.quoted false
  else if startsPlain flow (x :: rest) then l.plain
  else .error .unexpectedCharacter

/-- Reads all tokens. -/
def run : Nat → Lexer → Except Fault Lexer
  | 0, l => .ok l
  | room + 1, l => do
    let l ← (skipToToken (l.cursor.rest.length + 1) l).dropStale
    let l := l.unindent l.cursor.column
    match l.cursor.rest with
    | [] => return (← l.reset).emit .streamEnd
    | x :: rest => run room (← l.token x rest)

end Lexer

/-- The tokens of a text. -/
def Token.scan (text : String) : Except Fault (List Token) := do
  let chars := text.toList
  if !chars.all isAllowed then throw .controlCharacter
  let l ← Lexer.run (chars.length + 1) { cursor := { rest := chars } }
  return l.tokens.toList

end Provision.Yaml
