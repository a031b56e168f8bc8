import Provision.Yaml.Cursor
import Provision.Yaml.Fault
import Provision.Yaml.Token

/-! Reading anchors, tags and directives.

A tag is verbatim between angle brackets, or a handle and a suffix. Its characters are
those of an address; any other octet is written in hexadecimal digits behind a percent
sign. Such octets have to come in groups that look like characters in UTF-8. -/
namespace Provision.Yaml

/-! ### Addresses -/

def isUriChar (verbatim : Bool) (c : Char) : Bool :=
  isWordChar c || ";/?:@&=+$.!~*'()%".toList.contains c ||
    (verbatim && (c = ',' || c = '[' || c = ']'))

def octetDigit? (c : Char) : Option UInt8 :=
  let n := c.toNat.toUInt8
  if c.isDigit then some (n - 0x30)
  else if 'a' ≤ c && c ≤ 'f' then some (n - 0x61 + 10)
  else if 'A' ≤ c && c ≤ 'F' then some (n - 0x41 + 10)
  else none

/-- An octet behind a percent sign. -/
def readOctet (c : Cursor) : Except Fault (UInt8 × Cursor) :=
  match c.rest with
  | '%' :: x :: y :: _ =>
    match octetDigit? x, octetDigit? y with
    | some hi, some lo => .ok (16 * hi + lo, c.advance 3)
    | _, _ => .error .invalidTag
  | _ => .error .invalidTag

/-- How many octets follow the first one of a group. -/
def trailingCount? (lead : UInt8) : Option Nat :=
  if lead < 0x80 then some 0
  else if lead < 0xC0 then none
  else if lead < 0xE0 then some 1
  else if lead < 0xF0 then some 2
  else if lead < 0xF8 then some 3
  else none

/-- The octets that follow the first one of a group. -/
def readTrailing : Nat → Cursor → Except Fault (Octets × Cursor)
  | 0, c => .ok ([], c)
  | n + 1, c => do
    let (octet, c) ← readOctet c
    if octet < 0x80 || 0xC0 ≤ octet then throw .invalidTag
    let (octets, c) ← readTrailing n c
    return (octet :: octets, c)

/-- A group of octets. -/
def readGroup (c : Cursor) : Except Fault (Octets × Cursor) := do
  let (lead, c) ← readOctet c
  let some n := trailingCount? lead | throw .invalidTag
  let (octets, c) ← readTrailing n c
  return (lead :: octets, c)

/-- The octets of an address. -/
def readUriFrom (verbatim : Bool) : Nat → Cursor → Except Fault (Octets × Cursor)
  | 0, c => .ok ([], c)
  | room + 1, c =>
    match c.rest with
    | [] => .ok ([], c)
    | x :: _ =>
      if x = '%' then do
        let (octets, c) ← readGroup c
        let (rest, c) ← readUriFrom verbatim room c
        return (octets ++ rest, c)
      else if isUriChar verbatim x then do
        let (rest, c) ← readUriFrom verbatim room (c.advance 1)
        return (x.toNat.toUInt8 :: rest, c)
      else .ok ([], c)

/-- An address that goes on from `head`, whose first character does not belong to it. It
may only be empty if there is a head. -/
def readUri (verbatim : Bool) (head : List Char) (c : Cursor) :
    Except Fault (Octets × Cursor) := do
  let (octets, next) ← readUriFrom verbatim c.rest.length c
  if octets.isEmpty && head.isEmpty then throw .invalidTag
  return (Octets.ofString (String.ofList (head.drop 1)) ++ octets, next)

/-- A handle: an exclamation mark, or a word between two. In front of a tag it may turn
out to be the start of a suffix. -/
def readHandle (directive : Bool) (c : Cursor) : Except Fault (List Char × Cursor) := do
  if c.rest.head? ≠ some '!' then throw .invalidTag
  let (word, c) := (c.advance 1).takeWhile isWordChar
  if c.rest.head? = some '!' then return ('!' :: word ++ ['!'], c.advance 1)
  if directive && !word.isEmpty then throw .invalidDirective
  return ('!' :: word, c)

/-! ### Tags and anchors -/

def readTag (flow : Bool) (c : Cursor) : Except Fault (Token × Cursor) := do
  let (token, c) ←
    if c.rest[1]? = some '<' then do
      let (uri, c) ← readUri true [] (c.advance 2)
      if c.rest.head? ≠ some '>' then throw .invalidTag
      pure (Token.tag none uri, c.advance 1)
    else do
      let (handle, c) ← readHandle false c
      if 2 ≤ handle.length && handle.getLast? = some '!' then do
        let (suffix, c) ← readUri false [] c
        pure (Token.tag (some (String.ofList handle)) suffix, c)
      else do
        let (suffix, c) ← readUri false handle c
        pure (if suffix.untilZero.isEmpty then Token.tag none (.ofString "!")
          else Token.tag (some "!") suffix, c)
  if !(separated c.rest || (flow && c.rest.head? = some ',')) then throw .invalidTag
  return (token, c)

/-- The name of an anchor or alias, behind its sign. -/
def readAnchor (c : Cursor) : Except Fault (String × Cursor) := do
  let (name, c) := (c.advance 1).takeWhile isWordChar
  let closed := separated c.rest || c.rest.head?.any fun x => "?:,]\x7d%@`".toList.contains x
  if name.isEmpty || !closed then throw .invalidAnchor
  return (String.ofList name, c)

/-! ### Directives -/

/-- One part of a version number. -/
def readVersionPart (c : Cursor) : Except Fault (Nat × Cursor) := do
  let (digits, c) := c.takeWhile Char.isDigit
  if digits.isEmpty || 9 < digits.length then throw .invalidDirective
  return (digits.foldl (fun acc d => 10 * acc + (d.toNat - '0'.toNat)) 0, c)

def readDirective (c : Cursor) : Except Fault (Token × Cursor) := do
  let (name, c) := (c.advance 1).takeWhile isWordChar
  if name.isEmpty || !separated c.rest then throw .invalidDirective
  let (token, c) ←
    match String.ofList name with
    | "YAML" => do
      let (major, c) ← readVersionPart (c.skipWhile isSpaceOrTab)
      if c.rest.head? ≠ some '.' then throw .invalidDirective
      let (minor, c) ← readVersionPart (c.advance 1)
      pure (Token.version major minor, c)
    | "TAG" => do
      let (handle, c) ← readHandle true (c.skipWhile isSpaceOrTab)
      if !c.rest.head?.any isSpaceOrTab then throw .invalidDirective
      let (uri, c) ← readUri true [] (c.skipWhile isSpaceOrTab)
      if !separated c.rest then throw .invalidDirective
      pure (Token.tagHandle (String.ofList handle) uri, c)
    | _ => throw .invalidDirective
  let c := c.skipRemark
  if !atLineEnd c.rest then throw .invalidDirective
  return (token, c.skipLineEnd)

end Provision.Yaml
