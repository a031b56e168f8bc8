/-! Positions in a text.

A cursor is what is left of a text and where that starts: how many octets came before, on
which line it is and in which column. Besides the carriage return and the
line feed, alone or together, three more characters end a line. -/
namespace Provision.Yaml

/-! ### Characters -/

/-- The characters that may occur in a document. -/
def isAllowed (c : Char) : Bool :=
  let n := c.toNat
  n = 0x9 || n = 0xA || n = 0xD || (0x20 ≤ n && n ≤ 0x7E) || n = 0x85 ||
    (0xA0 ≤ n && n ≤ 0xD7FF) || (0xE000 ≤ n && n ≤ 0xFFFD) || 0x10000 ≤ n

def isBreak (c : Char) : Bool :=
  c = '\n' || c = '\r' || c = '\u0085' || c = '\u2028' || c = '\u2029'

def isSpaceOrTab (c : Char) : Bool := c = ' ' || c = '\t'

/-- Blanks and line ends. -/
def separates (c : Char) : Bool := isSpaceOrTab c || isBreak c

/-- The characters of anchors and of handles. -/
def isWordChar (c : Char) : Bool := c.isAlphanum || c = '_' || c = '-'

/-- Whether a text is over, or goes on with a blank or a line end. -/
def separated : List Char → Bool
  | [] => true
  | c :: _ => separates c

/-- Whether a text is over or at the end of its line. -/
def atLineEnd : List Char → Bool
  | [] => true
  | c :: _ => isBreak c

/-- Whether a line starts with three of a character and nothing attached to them. -/
def isMarker (c : Char) : List Char → Bool
  | x :: y :: z :: rest => x = c && y = c && z = c && separated rest
  | _ => false

/-! ### Cursors -/

structure Cursor where
  rest : List Char
  index : Nat := 0
  line : Nat := 0
  column : Nat := 0
  deriving Repr, Inhabited

namespace Cursor

/-- How many octets some characters take in UTF-8. -/
def octetsOf (chars : List Char) : Nat := chars.foldl (fun n c => n + c.utf8Size) 0

/-- Passes characters of one line. -/
def advance (c : Cursor) (n : Nat) : Cursor :=
  { c with
    rest := c.rest.drop n
    index := c.index + octetsOf (c.rest.take n)
    column := c.column + n }

/-- The characters up to the first that does not qualify, and the cursor behind them. -/
def takeWhile (c : Cursor) (p : Char → Bool) : List Char × Cursor :=
  let run := c.rest.takeWhile p
  (run, c.advance run.length)

def skipWhile (c : Cursor) (p : Char → Bool) : Cursor := (c.takeWhile p).2

/-- The start of the next line, `n` octets away. -/
def nextLine (c : Cursor) (n : Nat) (rest : List Char) : Cursor :=
  { rest, index := c.index + n, line := c.line + 1, column := 0 }

/-- The line end at the cursor, as a document keeps it, and the start of the next line. -/
def lineEnd? (c : Cursor) : Option (Char × Cursor) :=
  match c.rest with
  | '\r' :: '\n' :: rest => some ('\n', c.nextLine 2 rest)
  | b :: rest =>
    if isBreak b then
      some (if b = '\u2028' || b = '\u2029' then b else '\n', c.nextLine b.utf8Size rest)
    else none
  | [] => none

/-- Passes the line end at the cursor, if there is one. -/
def skipLineEnd (c : Cursor) : Cursor :=
  match c.lineEnd? with
  | some (_, next) => next
  | none => c

/-- Passes blanks and a comment, and stays on the line. -/
def skipRemark (c : Cursor) : Cursor :=
  let c := c.skipWhile isSpaceOrTab
  match c.rest with
  | '#' :: _ => c.skipWhile fun x => !isBreak x
  | _ => c

/-- Whether a document marker stands at the start of the line. -/
def atMarker (c : Cursor) : Bool :=
  c.column = 0 && (isMarker '-' c.rest || isMarker '.' c.rest)

end Cursor
end Provision.Yaml
