/-! Tags.

The tag of a node is a sequence of octets that ends with the first zero. Four tags of the
core types force the meaning of a scalar. A tag that starts with an exclamation mark is
the document's own and is known by the text after the mark, if it is text at all; any
other tag means nothing here. -/
namespace Provision.Yaml

abbrev Octets := List UInt8

def Octets.ofString (s : String) : Octets := s.toUTF8.toList

/-- The octets in front of the first zero. -/
def Octets.untilZero (o : Octets) : Octets := o.takeWhile (· ≠ 0)

/-- The text that octets stand for, if they are well-formed UTF-8. -/
def Octets.text? (o : Octets) : Option String := String.fromUTF8? ⟨o.toArray⟩

inductive Tag where
  | null
  | boolean
  | integer
  | float
  | own (name : String)
  /-- A tag of the document's own that is not text. -/
  | nameless
  | foreign
  deriving DecidableEq, Repr, Inhabited

namespace Tag

/-- The prefix of the tags of the core types. -/
def corePrefix : String := "tag:yaml.org,2002:"

/-- The core types that force a meaning. -/
def coreTags : List (String × Tag) :=
  [("null", null), ("bool", boolean), ("int", integer), ("float", float)]

/-- The name of a tag without its mark. A second mark is dropped unless nothing else is
left. -/
def nameOf (text : String) : String :=
  match text.toList with
  | ['!'] => "!"
  | '!' :: rest => String.ofList rest
  | _ => text

/-- The octets of a tag with the one mark in front. If the mark is alone, it is the name. -/
def ofMarked (rest : Octets) : Tag :=
  match Octets.text? (if rest.isEmpty then .ofString "!" else rest) with
  | some text => .own (nameOf text)
  | none => .nameless

def ofOctets (o : Octets) : Tag :=
  match o.untilZero with
  | 0x21 :: rest => ofMarked rest
  | o => ((coreTags.find? fun t => Octets.ofString (corePrefix ++ t.1) == o).map Prod.snd).getD .foreign

end Tag
end Provision.Yaml
