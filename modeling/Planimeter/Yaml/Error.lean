import Planimeter.Yaml.Source
/-!
# Errors in documents

A document breaks a rule at one place, while something that began at another is being read.
-/
namespace Planimeter.Yaml

/-- The rule that is broken. -/
inductive Problem where
  | strayCharacter
  | missingColon
  | blockEntryNotAllowed
  | mappingKeyNotAllowed
  | mappingValueNotAllowed
  | missingName
  | missingTagUri
  | missingTagClose
  | missingTagGap
  | missingTagMark
  | missingOctet
  | badLeadingOctet
  | badTrailingOctet
  | unknownDirective
  | missingDirectiveName
  | strayDirectiveCharacter
  | missingVersionPoint
  | longVersionNumber
  | missingVersionNumber
  | missingHandleGap
  | missingLineEnd
  | zeroIndentation
  | tabIndentation
  | tabInScalar
  | documentMarkInScalar
  | unfinishedScalar
  | unknownEscape
  | missingHexDigit
  | badCodePoint
  | strayColon
  | missingDocumentStart
  | repeatedVersion
  | badVersion
  | repeatedHandle
  | unknownHandle
  | missingContent
  | missingBlockEntry
  | missingBlockKey
  | missingSequenceSeparator
  | missingMappingSeparator
  deriving DecidableEq, Repr

def Problem.text : Problem → String
  | strayCharacter => "found character that cannot start any token"
  | missingColon => "could not find expected ':'"
  | blockEntryNotAllowed => "block sequence entries are not allowed in this context"
  | mappingKeyNotAllowed => "mapping keys are not allowed in this context"
  | mappingValueNotAllowed => "mapping values are not allowed in this context"
  | missingName => "did not find expected alphabetic or numeric character"
  | missingTagUri => "did not find expected tag URI"
  | missingTagClose => "did not find the expected '>'"
  | missingTagGap => "did not find expected whitespace or line break"
  | missingTagMark => "did not find expected '!'"
  | missingOctet => "did not find URI escaped octet"
  | badLeadingOctet => "found an incorrect leading UTF-8 octet"
  | badTrailingOctet => "found an incorrect trailing UTF-8 octet"
  | unknownDirective => "found unknown directive name"
  | missingDirectiveName => "could not find expected directive name"
  | strayDirectiveCharacter => "found unexpected non-alphabetical character"
  | missingVersionPoint => "did not find expected digit or '.' character"
  | longVersionNumber => "found extremely long version number"
  | missingVersionNumber => "did not find expected version number"
  | missingHandleGap => "did not find expected whitespace"
  | missingLineEnd => "did not find expected comment or line break"
  | zeroIndentation => "found an indentation indicator equal to 0"
  | tabIndentation => "found a tab character where an indentation space is expected"
  | tabInScalar => "found a tab character that violates indentation"
  | documentMarkInScalar => "found unexpected document indicator"
  | unfinishedScalar => "found unexpected end of stream"
  | unknownEscape => "found unknown escape character"
  | missingHexDigit => "did not find expected hexdecimal number"
  | badCodePoint => "found invalid Unicode character escape code"
  | strayColon => "found unexpected ':'"
  | missingDocumentStart => "did not find expected <document start>"
  | repeatedVersion => "found duplicate %YAML directive"
  | badVersion => "found incompatible YAML document"
  | repeatedHandle => "found duplicate %TAG directive"
  | unknownHandle => "found undefined tag handle"
  | missingContent => "did not find expected node content"
  | missingBlockEntry => "did not find expected '-' indicator"
  | missingBlockKey => "did not find expected key"
  | missingSequenceSeparator => "did not find expected ',' or ']'"
  | missingMappingSeparator => "did not find expected ',' or '\x7d'"

/-- What is being read when a rule is broken. -/
inductive Context where
  | nextToken
  | simpleKey
  | directive
  | versionDirective
  | handleDirective
  | handleOfDirective
  | markOfDirective
  | uriOfDirective
  | anchor
  | aliasName
  | tag
  | uriOfTag
  | blockScalar
  | quotedScalar
  | escape
  | plainScalar
  | node
  | blockNode
  | flowNode
  | blockCollection
  | blockMapping
  | flowSequence
  | flowMapping
  deriving DecidableEq, Repr

def Context.text : Context → String
  | nextToken => "while scanning for the next token"
  | simpleKey => "while scanning a simple key"
  | directive => "while scanning a directive"
  | versionDirective => "while scanning a %YAML directive"
  | handleDirective => "while scanning a %TAG directive"
  | handleOfDirective => "while scanning a tag directive"
  | markOfDirective => "while parsing a tag directive"
  | uriOfDirective => "while parsing a %TAG directive"
  | anchor => "while scanning an anchor"
  | aliasName => "while scanning an alias"
  | tag => "while scanning a tag"
  | uriOfTag => "while parsing a tag"
  | blockScalar => "while scanning a block scalar"
  | quotedScalar => "while scanning a quoted scalar"
  | escape => "while parsing a quoted scalar"
  | plainScalar => "while scanning a plain scalar"
  | node => "while parsing a node"
  | blockNode => "while parsing a block node"
  | flowNode => "while parsing a flow node"
  | blockCollection => "while parsing a block collection"
  | blockMapping => "while parsing a block mapping"
  | flowSequence => "while parsing a flow sequence"
  | flowMapping => "while parsing a flow mapping"

/-- A broken rule, its place, and what was being read with the place where that began. -/
structure SyntaxError where
  problem : Problem
  mark : Mark
  context : Option (Context × Mark) := none
  deriving DecidableEq, Repr

namespace SyntaxError

/-- A place is told unless it is the start of the text. -/
def placeText (m : Mark) : String :=
  if m.line = 0 ∧ m.column = 0 then "" else s!" at {m.text}"

/-- Tells what is wrong and where. The place where the context began is told if it is another. -/
def message (e : SyntaxError) : String :=
  let context := match e.context with
    | none => ""
    | some (context, start) =>
      let place := if start.line = e.mark.line ∧ start.column = e.mark.column then ""
        else placeText start
      s!", {context.text}{place}"
  s!"{e.problem.text}{placeText e.mark}{context}"

end SyntaxError

/-- What is read off the front of a text, and the rest of it. -/
abbrev Lexed (α : Type) := Except SyntaxError (α × Source)

/-- Fails at a place while something that began at `start` is read. -/
def failAt (context : Context) (start mark : Mark) (problem : Problem) : Except SyntaxError α :=
  .error ⟨problem, mark, some (context, start)⟩

end Planimeter.Yaml
