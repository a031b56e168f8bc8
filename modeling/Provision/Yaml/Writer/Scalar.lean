import Provision.Yaml.Cursor
import Provision.Yaml.Plain
import Provision.Yaml.Token

/-! Written strings.

A string is written plain where that reads back as the same string, else between quotes,
else with escapes; one with a line feed is written as a block of lines where possible.
Which of these it is depends on the string alone. -/
namespace Provision.Yaml

/-- Whether a plain scalar would be read as something else than a string, or looks like
a number. -/
def isAmbiguous (s : String) : Bool :=
  s.isEmpty || Plain.isNull s || (Plain.boolean? s).isSome ||
    (match Plain.integer? s.toList with
      | .ok i => i.isSome
      | .error _ => true) ||
    Plain.hasLeadingZero s.toList || (Plain.float? s).isSome

/-! ### What a string contains -/

/-- The characters that are written as they are. -/
def isPrintable (c : Char) : Bool :=
  let n := c.toNat
  n = 0xA || (0x20 ≤ n && n ≤ 0x7E) || (0xA0 ≤ n && n ≤ 0xD7FF) ||
    (0xE000 ≤ n && n ≤ 0xFFFD && n ≠ 0xFEFF) || 0x10000 ≤ n

/-- Whether a character of the first kind stands right before one of the second kind. -/
def hasPair (first second : Char → Bool) : List Char → Bool
  | a :: b :: rest => (first a && second b) || hasPair first second (b :: rest)
  | _ => false

/-- Characters that mean something at the start of a plain scalar, and characters that
do only before a blank. -/
def startsIndicator : List Char → Bool
  | [] => false
  | c :: rest =>
    "#,[]\x7b\x7d&*!|>'\"%@`".toList.contains c ||
      ("?:-".toList.contains c && separated rest) ||
      ['-', '-', '-'].isPrefixOf (c :: rest) || ['.', '.', '.'].isPrefixOf (c :: rest)

/-- A colon before a blank or at the end, or a number sign behind a blank, but for the
first character. -/
def hasIndicator : List Char → Bool
  | a :: b :: rest =>
    (b = ':' && separated rest) || (b = '#' && separates a) || hasIndicator (b :: rest)
  | _ => false

def isSpace (c : Char) : Bool := c = ' '

/-- Whether every character can be written as it is and no space stands before a line
end. -/
def isRegular (cs : List Char) : Bool := cs.all isPrintable && !hasPair isSpace isBreak cs

def allowsPlain (cs : List Char) : Bool :=
  cs.all (fun c => isPrintable c && !isBreak c) && !startsIndicator cs && !hasIndicator cs &&
    cs.head? ≠ some ' ' && cs.getLast? ≠ some ' '

def allowsQuotes (cs : List Char) : Bool := isRegular cs && !hasPair isBreak isSpace cs

def allowsLines (cs : List Char) : Bool := isRegular cs && cs.getLast? ≠ some ' '

/-- How a string is written. -/
def styleOf (s : String) : Style :=
  let cs := s.toList
  if cs.contains '\n' then if allowsLines cs then .literal else .doubleQuoted
  else if !isAmbiguous s && allowsPlain cs then .plain
  else if allowsQuotes cs then .singleQuoted
  else .doubleQuoted

/-! ### The styles -/

def spaces (n : Nat) : List Char := List.replicate n ' '

/-- Between single quotes. A line that follows a line end starts at a column. -/
def singleFrom (column : Nat) (broken : Bool) : List Char → List Char
  | [] => if broken then spaces column else []
  | c :: rest =>
    if isBreak c then c :: singleFrom column true rest
    else
      (if broken then spaces column else []) ++
        (if c = '\'' then ['\'', '\''] else [c]) ++ singleFrom column false rest

def upperHex (width n : Nat) : List Char :=
  let digits := (Nat.toDigits 16 n).map Char.toUpper
  List.replicate (width - digits.length) '0' ++ digits

/-- A character that is not written as it is. -/
def escapeOf (c : Char) : List Char :=
  let n := c.toNat
  if c = '\x00' then ['\\', '0']
  else if n = 0x7 then ['\\', 'a']
  else if n = 0x8 then ['\\', 'b']
  else if c = '\t' then ['\\', 't']
  else if c = '\n' then ['\\', 'n']
  else if n = 0xB then ['\\', 'v']
  else if n = 0xC then ['\\', 'f']
  else if c = '\r' then ['\\', 'r']
  else if n = 0x1B then ['\\', 'e']
  else if c = '"' then ['\\', '"']
  else if c = '\\' then ['\\', '\\']
  else if n = 0x85 then ['\\', 'N']
  else if n = 0xA0 then ['\\', '_']
  else if n = 0x2028 then ['\\', 'L']
  else if n = 0x2029 then ['\\', 'P']
  else if n ≤ 0xFF then '\\' :: 'x' :: upperHex 2 n
  else if n ≤ 0xFFFF then '\\' :: 'u' :: upperHex 4 n
  else '\\' :: 'U' :: upperHex 8 n

def doubled (c : Char) : List Char :=
  if !isPrintable c || isBreak c || c = '"' || c = '\\' then escapeOf c else [c]

/-- The lines of a block, each that is not empty at a column. -/
def blockFrom (column : Nat) (broken : Bool) : List Char → List Char
  | [] => []
  | c :: rest =>
    if isBreak c then c :: blockFrom column true rest
    else (if broken then spaces column else []) ++ c :: blockFrom column false rest

/-- The sign of a block: whether its depth is not seen from its first line, and how its
last line ends. -/
def blockSign (cs : List Char) : List Char :=
  let depth := if cs.head?.any fun c => c = ' ' || isBreak c then ['2'] else []
  let ending :=
    match cs.reverse with
    | last :: before =>
      if !isBreak last then ['-']
      else
        match before with
        | [] => ['+']
        | c :: _ => if isBreak c then ['+'] else []
    | [] => ['-']
  '|' :: depth ++ ending

/-- A string written at a place whose further lines start at a column. -/
def writeString (column : Nat) (s : String) : List Char :=
  let cs := s.toList
  match styleOf s with
  | .plain | .folded => cs
  | .singleQuoted => '\'' :: singleFrom column false cs ++ ['\'']
  | .doubleQuoted => '"' :: cs.flatMap doubled ++ ['"']
  | .literal => blockSign cs ++ '\n' :: blockFrom column true cs

end Provision.Yaml
