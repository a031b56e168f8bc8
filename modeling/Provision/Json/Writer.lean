import Provision.Json.Value

/-! Written JSON.

A value is written either on one line or with every member and item on a line of its
own, two spaces deeper than its container. Strings keep every character except the
quote, the backslash and the control characters. -/
namespace Provision.Json

def hexDigit (n : Nat) : Char := (Nat.toDigits 16 n).headD '0'

/-- A character within a string. -/
def escapeChar (c : Char) : String :=
  if c = '"' then "\\\""
  else if c = '\\' then "\\\\"
  else if c = '\n' then "\\n"
  else if c = '\r' then "\\r"
  else if c = '\t' then "\\t"
  else if c = '\x08' then "\\b"
  else if c = '\x0c' then "\\f"
  else if c.toNat < 0x20 then
    "\\u00" ++ String.ofList [hexDigit (c.toNat / 16), hexDigit (c.toNat % 16)]
  else c.toString

def quote (s : String) : String := "\"" ++ String.join (s.toList.map escapeChar) ++ "\""

/-- The text of a value that has no parts. -/
def leaf : Json → String
  | .null => "null"
  | .bool b => if b then "true" else "false"
  | .integer i => toString i
  | .double x => x.jsonText
  | .string s => quote s
  | .array _ => "[]"
  | .object _ => "\x7b\x7d"

/-! ### On one line -/

mutual

def compact : Json → String
  | .array items => "[" ++ ",".intercalate (compactItems items) ++ "]"
  | .object members => "\x7b" ++ ",".intercalate (compactMembers members) ++ "\x7d"
  | v => v.leaf

def compactItems : List Json → List String
  | [] => []
  | v :: rest => v.compact :: compactItems rest

def compactMembers : List (String × Json) → List String
  | [] => []
  | (k, v) :: rest => (quote k ++ ":" ++ v.compact) :: compactMembers rest

end

/-! ### On many lines -/

/-- A new line at a depth. -/
def newline (depth : Nat) : String := "\n" ++ String.ofList (List.replicate (2 * depth) ' ')

/-- Parts between brackets, each on its own line. -/
def bracketed (opening closing : String) (depth : Nat) (parts : List String) : String :=
  if parts.isEmpty then opening ++ closing
  else
    opening ++ newline (depth + 1) ++ ("," ++ newline (depth + 1)).intercalate parts ++
      newline depth ++ closing

mutual

def prettyAt (depth : Nat) : Json → String
  | .array items => bracketed "[" "]" depth (prettyItems (depth + 1) items)
  | .object members => bracketed "\x7b" "\x7d" depth (prettyMembers (depth + 1) members)
  | v => v.leaf

def prettyItems (depth : Nat) : List Json → List String
  | [] => []
  | v :: rest => v.prettyAt depth :: prettyItems depth rest

def prettyMembers (depth : Nat) : List (String × Json) → List String
  | [] => []
  | (k, v) :: rest => (quote k ++ ": " ++ v.prettyAt depth) :: prettyMembers depth rest

end

def pretty (v : Json) : String := v.prettyAt 0

end Provision.Json
