import Planimeter.Yaml.Source
/-!
# Tokens

The parts that a document is made of. Indentation is turned into tokens of its own: a block
collection has a token where it begins and one where it ends.
-/
namespace Planimeter.Yaml

/-- How a scalar is written: only a plain one can stand for anything but its own text. -/
inductive Style where
  | plain | quoted | block
  deriving DecidableEq, Repr

/-- What a tag is made of. Octets that are written by their numbers need not make up a text. -/
abbrev Octets := List UInt8

def Octets.ofText (text : String) : Octets := text.toUTF8.toList

/-- The text that octets make up, if they do. -/
def Octets.text? (octets : Octets) : Option String := String.fromUTF8? ⟨octets.toArray⟩

inductive Token where
  | versionDirective (major minor : Nat)
  | handleDirective (handle : List Char) (lead : Octets)
  | documentStart
  | documentEnd
  | blockSequenceStart
  | blockMappingStart
  | blockEnd
  | flowSequenceStart
  | flowSequenceEnd
  | flowMappingStart
  | flowMappingEnd
  | blockEntry
  | flowEntry
  | key
  | value
  | aliasOf (name : List Char)
  | anchor (name : List Char)
  | tag (handle : List Char) (suffix : Octets)
  | scalar (text : List Char) (style : Style)
  | finish
  deriving DecidableEq, Repr

/-- A token and the place where it begins. -/
structure Lexeme where
  token : Token
  mark : Mark
  deriving DecidableEq, Repr

end Planimeter.Yaml
