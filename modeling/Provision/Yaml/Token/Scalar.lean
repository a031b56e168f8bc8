import Provision.Yaml.Cursor
import Provision.Yaml.Fault
import Provision.Yaml.Token

/-! Reading scalars.

A plain or quoted scalar is a series of runs without blanks. What stands between two
runs is a gap: blanks on a line are kept, a single line end becomes a space, and of
several line ends the first one is dropped. A block scalar is a series of lines at one
depth; its header says how its line ends are joined and how many of the last ones are
kept. -/
namespace Provision.Yaml

/-! ### Gaps -/

/-- What stands between two runs of a scalar. -/
structure Gap where
  blanks : List Char := []
  /-- Whether the gap goes beyond a line. -/
  broken : Bool := false
  /-- The first line end, none if it was escaped. -/
  first : Option Char := none
  /-- The other line ends. -/
  others : List Char := []
  deriving Inhabited

namespace Gap

/-- What a gap stands for within the scalar. -/
def text (g : Gap) : List Char :=
  if !g.broken then g.blanks
  else
    match g.first with
    | some '\n' => if g.others.isEmpty then [' '] else g.others
    | some b => b :: g.others
    | none => g.others

/-- Reads on to the next run. A tab may not stand in front of `column` on a new line. -/
def read (column : Int) : Nat → Gap → Cursor → Except Fault (Gap × Cursor)
  | 0, g, c => .ok (g, c)
  | room + 1, g, c =>
    match c.rest with
    | [] => .ok (g, c)
    | x :: _ =>
      if isSpaceOrTab x then
        if g.broken && c.column < column && x = '\t' then .error .tabIndentation
        else if g.broken then read column room g (c.advance 1)
        else read column room { g with blanks := g.blanks ++ [x] } (c.advance 1)
      else
        match c.lineEnd? with
        | none => .ok (g, c)
        | some (b, next) =>
          if g.broken then read column room { g with others := g.others ++ [b] } next
          else read column room { broken := true, first := some b } next

end Gap

/-! ### Plain scalars -/

def isFlowIndicator (c : Char) : Bool :=
  c = ',' || c = '[' || c = ']' || c = '\x7b' || c = '\x7d'

/-- The length of a run of a plain scalar. A colon ends it before a blank, and within a
flow collection the indicators of the collection end it. -/
def plainRun (flow : Bool) : List Char → Except Fault Nat
  | [] => .ok 0
  | c :: rest =>
    if separates c then .ok 0
    else if flow && c = ':' && rest.head?.any (fun x => isFlowIndicator x || x = '?') then
      .error .ambiguousColon
    else if c = ':' && separated rest then .ok 0
    else if flow && isFlowIndicator c then .ok 0
    else (plainRun flow rest).map (· + 1)

/-- A plain scalar read so far, its text backwards. -/
def readPlainFrom (flow : Bool) (column : Int) :
    Nat → Gap → List Char → Cursor → Except Fault (List Char × Gap × Cursor)
  | 0, g, acc, c => .ok (acc, g, c)
  | room + 1, g, acc, c =>
    if c.atMarker || c.rest.head? = some '#' then .ok (acc, g, c)
    else do
      let n ← plainRun flow c.rest
      if n = 0 then return (acc, g, c)
      let acc := (c.rest.take n).reverseAux (g.text.reverseAux acc)
      let c := c.advance n
      if c.rest.isEmpty || !separated c.rest then return (acc, {}, c)
      let (g, c) ← Gap.read column (c.rest.length + 1) {} c
      if !flow && c.column < column then return (acc, g, c)
      readPlainFrom flow column room g acc c

/-- Reads a plain scalar and says whether it ended beyond its last line. -/
def readPlain (flow : Bool) (column : Int) (c : Cursor) :
    Except Fault (String × Bool × Cursor) := do
  let (acc, g, c) ← readPlainFrom flow column (c.rest.length + 1) {} [] c
  return (String.ofList acc.reverse, g.broken, c)

/-! ### Quoted scalars -/

def hexValue? (c : Char) : Option Nat :=
  if c.isDigit then some (c.toNat - '0'.toNat)
  else if 'a' ≤ c && c ≤ 'f' then some (c.toNat - 'a'.toNat + 10)
  else if 'A' ≤ c && c ≤ 'F' then some (c.toNat - 'A'.toNat + 10)
  else none

/-- The character with the number that `n` hexadecimal digits give. -/
def codePoint (n : Nat) (cs : List Char) : Except Fault Char :=
  let digits := (cs.take n).filterMap hexValue?
  let value := digits.foldl (fun acc d => 16 * acc + d) 0
  if digits.length < n then .error .invalidEscape
  else if (0xD800 ≤ value && value ≤ 0xDFFF) || 0x10FFFF < value then .error .invalidEscape
  else .ok (Char.ofNat value)

/-- The characters with an escape of their own. -/
def namedEscapes : List (Char × Char) :=
  [('0', '\x00'), ('a', '\x07'), ('b', '\x08'), ('t', '\t'), ('\t', '\t'), ('n', '\n'),
    ('v', '\x0b'), ('f', '\x0c'), ('r', '\r'), ('e', '\x1b'), (' ', ' '), ('"', '"'),
    ('/', '/'), ('\\', '\\'), ('N', '\u0085'), ('_', '\u00a0'), ('L', '\u2028'),
    ('P', '\u2029')]

/-- The character that an escape stands for and the length of the escape, given what
follows the backslash. -/
def readEscape : List Char → Except Fault (Char × Nat)
  | [] => .error .invalidEscape
  | 'x' :: rest => (codePoint 2 rest).map (·, 3)
  | 'u' :: rest => (codePoint 4 rest).map (·, 5)
  | 'U' :: rest => (codePoint 8 rest).map (·, 9)
  | c :: _ =>
    match namedEscapes.find? fun e => e.1 = c with
    | some (_, x) => .ok (x, 1)
    | none => .error .invalidEscape

/-- Reads a run of a quoted scalar up to a blank, a line end, the closing quote or an
escaped line end; says whether it was the last of these. -/
def quotedRun (single : Bool) :
    Nat → List Char → Cursor → Except Fault (List Char × Bool × Cursor)
  | 0, acc, c => .ok (acc, false, c)
  | room + 1, acc, c =>
    match single, c.rest with
    | _, [] => .ok (acc, false, c)
    | true, '\'' :: '\'' :: _ => quotedRun single room ('\'' :: acc) (c.advance 2)
    | true, '\'' :: _ => .ok (acc, false, c)
    | false, '"' :: _ => .ok (acc, false, c)
    | false, '\\' :: rest =>
      if rest.head?.any isBreak then .ok (acc, true, (c.advance 1).skipLineEnd)
      else do
        let (x, n) ← readEscape rest
        quotedRun single room (x :: acc) (c.advance (n + 1))
    | _, x :: _ =>
      if separates x then .ok (acc, false, c)
      else quotedRun single room (x :: acc) (c.advance 1)

/-- Reads a quoted scalar behind its opening quote, its text backwards. -/
def readQuotedFrom (single : Bool) :
    Nat → List Char → Cursor → Except Fault (List Char × Cursor)
  | 0, _, _ => .error .unclosedQuote
  | room + 1, acc, c =>
    if c.atMarker then .error .documentMarkerInQuote
    else if c.rest.isEmpty then .error .unclosedQuote
    else do
      let (acc, escaped, c) ← quotedRun single (c.rest.length + 1) acc c
      if c.rest.head? = some (if single then '\'' else '"') then return (acc, c.advance 1)
      let (g, c) ← Gap.read 0 (c.rest.length + 1) { broken := escaped } c
      readQuotedFrom single room (g.text.reverseAux acc) c

def readQuoted (single : Bool) (c : Cursor) : Except Fault (String × Cursor) := do
  let (acc, c) ← readQuotedFrom single (c.rest.length + 2) [] (c.advance 1)
  return (String.ofList acc.reverse, c)

/-! ### Block scalars -/

/-- What happens to the line ends after the last line of a block scalar. -/
inductive Chomping where
  | strip
  | clip
  | keep
  deriving DecidableEq, Repr, Inhabited

def chomping? : List Char → Option (Chomping × List Char)
  | '+' :: rest => some (.keep, rest)
  | '-' :: rest => some (.strip, rest)
  | _ => none

def depthDigit? : List Char → Option (Nat × List Char)
  | c :: rest => if c.isDigit then some (c.toNat - '0'.toNat, rest) else none
  | [] => none

/-- The header of a block scalar: how to end it and how deep it is, in either order. -/
def readHeader (cs : List Char) : Except Fault (Chomping × Option Nat × List Char) := do
  let (chomping, depth, rest) :=
    match chomping? cs with
    | some (ch, rest) =>
      match depthDigit? rest with
      | some (d, rest) => (ch, some d, rest)
      | none => (ch, none, rest)
    | none =>
      match depthDigit? cs with
      | some (d, rest) =>
        match chomping? rest with
        | some (ch, rest) => (ch, some d, rest)
        | none => (.clip, some d, rest)
      | none => (.clip, none, cs)
  if depth = some 0 then throw .invalidBlockHeader
  return (chomping, depth, rest)

/-- Passes empty lines and indentation in front of the next line of a block scalar,
noting the line ends and the deepest column seen. -/
def readBlockGap (depth : Option Nat) :
    Nat → Nat → List Char → Cursor → Except Fault (Nat × List Char × Cursor)
  | 0, deepest, breaks, c => .ok (deepest, breaks, c)
  | room + 1, deepest, breaks, c =>
    let spaces := (c.rest.takeWhile (· = ' ')).length
    let c :=
      match depth with
      | none => c.advance spaces
      | some d => c.advance (min spaces (d - c.column))
    let deepest := max deepest c.column
    let shallow := depth.all fun d => c.column < d
    if shallow && c.rest.head? = some '\t' then .error .tabIndentation
    else
      match c.lineEnd? with
      | none => .ok (deepest, breaks, c)
      | some (b, next) => readBlockGap depth room deepest (breaks ++ [b]) next

/-- A block scalar read so far: its text backwards, the end of its last line, the ends
of the empty lines after it, and whether the last line started with a blank. -/
structure Block where
  text : List Char := []
  last : Option Char := none
  empty : List Char := []
  indented : Bool := false

/-- Joins the line ends before a line that starts with a blank or not. A folded line end
becomes a space, or nothing if empty lines follow. -/
def Block.join (literal : Bool) (b : Block) (indented : Bool) : List Char :=
  if !literal && b.last = some '\n' && !b.indented && !indented then
    if b.empty.isEmpty then [' '] else b.empty
  else b.last.toList ++ b.empty

/-- Reads the lines of a block scalar at a depth. -/
def readLines (literal : Bool) (depth : Nat) :
    Nat → Block → Cursor → Except Fault (Block × Cursor)
  | 0, b, c => .ok (b, c)
  | room + 1, b, c =>
    if c.column = depth && !c.rest.isEmpty then do
      let indented := c.rest.head?.any isSpaceOrTab
      let (line, c) := c.takeWhile fun x => !isBreak x
      let text := line.reverseAux ((b.join literal indented).reverseAux b.text)
      let (last, c) :=
        match c.lineEnd? with
        | some (x, next) => (some x, next)
        | none => (none, c)
      let (_, empty, c) ← readBlockGap (some depth) (c.rest.length + 1) 0 [] c
      readLines literal depth room { text, last, empty, indented } c
    else .ok (b, c)

/-- Reads a block scalar. `indent` is the column of the collection around it, negative
outside of any. -/
def readBlock (literal : Bool) (indent : Int) (c : Cursor) : Except Fault (String × Cursor) := do
  let c := c.advance 1
  let (chomping, depth, rest) ← readHeader c.rest
  let c := (c.advance (c.rest.length - rest.length)).skipRemark
  if !atLineEnd c.rest then throw .invalidBlockHeader
  let c := c.skipLineEnd
  let given := depth.map fun d => if 0 ≤ indent then indent.toNat + d else d
  let (deepest, empty, c) ← readBlockGap given (c.rest.length + 1) 0 [] c
  let depth := given.getD (max deepest (max (indent + 1).toNat 1))
  let (b, c) ← readLines literal depth (c.rest.length + 1) { empty } c
  let ending :=
    match chomping with
    | .strip => []
    | .clip => b.last.toList
    | .keep => b.last.toList ++ b.empty
  return (String.ofList (b.text.reverse ++ ending), c)

end Provision.Yaml
