/-! Why a text is not a document.

Faults of characters come from reading the text, faults of structure from putting
its pieces together, faults of value from giving plain scalars and tags a meaning. -/
namespace Provision.Yaml

inductive Fault where
  -- characters
  | controlCharacter
  | unexpectedCharacter
  | tabIndentation
  | invalidDirective
  | invalidTag
  | invalidAnchor
  | invalidBlockHeader
  | invalidEscape
  | unclosedQuote
  | documentMarkerInQuote
  | ambiguousColon
  | missingColon
  | misplacedEntry
  | misplacedKey
  | misplacedValue
  -- structure
  | missingDocumentStart
  | repeatedDirective
  | unsupportedVersion
  | unknownTagHandle
  | missingContent
  | missingEntry
  | missingKey
  | unclosedFlow
  | unknownAlias
  | severalDocuments
  -- values
  | tooDeep
  | tooManyAliases
  | repeatedKey
  | numberTooLarge
  | wrongTag (expected : String)
  | wrongShape (expected : String)
  | misplacedTag
  | repeatedField (name : String)
  deriving DecidableEq, Repr

def Fault.message : Fault → String
  | .controlCharacter => "control characters are not allowed"
  | .unexpectedCharacter => "a character cannot start any token"
  | .tabIndentation => "a tab stands where indentation is expected"
  | .invalidDirective => "a directive is not valid"
  | .invalidTag => "a tag is not valid"
  | .invalidAnchor => "an anchor or alias is not valid"
  | .invalidBlockHeader => "the header of a block scalar is not valid"
  | .invalidEscape => "an escape sequence is not valid"
  | .unclosedQuote => "a quoted scalar is not closed"
  | .documentMarkerInQuote => "a document marker stands inside a quoted scalar"
  | .ambiguousColon => "a colon stands before a flow indicator"
  | .missingColon => "a key is not followed by a colon"
  | .misplacedEntry => "block sequence entries are not allowed here"
  | .misplacedKey => "mapping keys are not allowed here"
  | .misplacedValue => "mapping values are not allowed here"
  | .missingDocumentStart => "a document does not start where it should"
  | .repeatedDirective => "a directive is repeated"
  | .unsupportedVersion => "the version of the document is not supported"
  | .unknownTagHandle => "a tag handle is not defined"
  | .missingContent => "a node has no content"
  | .missingEntry => "a block sequence lacks an entry"
  | .missingKey => "a block mapping lacks a key"
  | .unclosedFlow => "a flow collection is not closed"
  | .unknownAlias => "an alias has no anchor"
  | .severalDocuments => "there is more than one document"
  | .tooDeep => "the document is nested too deep"
  | .tooManyAliases => "aliases are repeated too often"
  | .repeatedKey => "a key is repeated"
  | .numberTooLarge => "a number is too large"
  | .wrongTag expected => "a tagged scalar is not " ++ expected
  | .wrongShape expected => "a value is not " ++ expected
  | .misplacedTag => "a tag stands where none is allowed"
  | .repeatedField name => "the field " ++ name ++ " is repeated"

end Provision.Yaml
