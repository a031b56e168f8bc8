import Provision.Yaml.Tag

/-! The tokens of a document.

Tokens are the pieces in which a text is read. Indentation appears among them as the
start and end of block collections, and a key that is only recognised by the colon after
it has its token put in front of it. -/
namespace Provision.Yaml

/-- How a scalar is written. -/
inductive Style where
  | plain
  | singleQuoted
  | doubleQuoted
  | literal
  | folded
  deriving DecidableEq, Repr, Inhabited

inductive Token where
  | version (major minor : Nat)
  | tagHandle (handle : String) (expansion : Octets)
  | documentStart
  | documentEnd
  | blockSequence
  | blockMapping
  | blockEnd
  | flowSequence
  | flowSequenceEnd
  | flowMapping
  | flowMappingEnd
  | blockEntry
  | flowEntry
  | key
  | value
  | alias (name : String)
  | anchor (name : String)
  /-- A tag as written: a handle, none if the tag is verbatim, and the rest. -/
  | tag (handle : Option String) (suffix : Octets)
  | scalar (text : String) (style : Style)
  | streamEnd
  deriving DecidableEq, Repr, Inhabited

end Provision.Yaml
