import Planimeter.Text.Digit
import Planimeter.Yaml.Error
import Planimeter.Yaml.Token
/-!
# Anchors, aliases and tags

The properties of a node, and the reference to a node with an anchor.
-/
namespace Planimeter.Yaml

/-- What may follow the name of an anchor or alias. -/
def endsName (c : Char) : Bool :=
  isGap c || c == '?' || c == ':' || c == ',' || c == ']' || c == '\x7d' || c == '%' || c == '@'
    || c == '\x60'

/-- Reads a name after the indicator in front. -/
def readName (context : Context) (s : Source) : Lexed (List Char) :=
  let name := s.behind.takeWhile isName
  let rest := s.behind.dropWhile isName
  if name.isEmpty || !endsName rest.front then failAt context s.mark rest.mark .missingName
  else .ok (name, rest)

/-- A part of a tag: in a tag, or in a directive that introduces a handle. -/
inductive TagPlace where
  | node | directive
  deriving DecidableEq, Repr

namespace TagPlace

def handle : TagPlace → Context
  | node => .tag
  | directive => .handleOfDirective

def uri : TagPlace → Context
  | node => .uriOfTag
  | directive => .uriOfDirective

end TagPlace

/-- The characters of a tag that stand for themselves. -/
def isTagCharacter (flowIndicators : Bool) (c : Char) : Bool :=
  isName c || c == ';' || c == '/' || c == '?' || c == ':' || c == '@' || c == '&' || c == '='
    || c == '+' || c == '$' || c == '.' || c == '!' || c == '~' || c == '*' || c == '\x27'
    || c == '(' || c == ')' || (flowIndicators && (c == ',' || c == '[' || c == ']'))

/-- The number of octets of a character whose first octet is given. -/
def octetCount? (octet : Nat) : Option Nat :=
  if octet < 0x80 then some 1
  else if octet < 0xC0 then none
  else if octet < 0xE0 then some 2
  else if octet < 0xF0 then some 3
  else if octet < 0xF8 then some 4
  else none

/-- Reads the text of a tag up to the first character that cannot be part of it. Other characters
than the plain ones are written as octets, each a percent sign and two digits; `left` octets of one
are still to come. `octets` are those so far, backwards. -/
def readUri (place : TagPlace) (flowIndicators : Bool) (start : Mark) (left : Nat)
    (octets : Octets) : Source → Lexed Octets
  | [] => .ok (octets.reverse, [])
  | g :: rest =>
    if g.char = '%' then
      match rest with
      | a :: b :: rest =>
        match Text.hexDigit? a.char, Text.hexDigit? b.char with
        | some high, some low =>
          let octet := 16 * high + low
          if left = 0 then
            match octetCount? octet with
            | none => failAt place.uri start g.mark .badLeadingOctet
            | some count =>
              readUri place flowIndicators start (count - 1) (.ofNat octet :: octets) rest
          else if octet / 0x40 ≠ 2 then failAt place.uri start g.mark .badTrailingOctet
          else readUri place flowIndicators start (left - 1) (.ofNat octet :: octets) rest
        | _, _ => failAt place.uri start g.mark .missingOctet
      | _ => failAt place.uri start g.mark .missingOctet
    else if left ≠ 0 then failAt place.uri start g.mark .missingOctet
    else if isTagCharacter flowIndicators g.char then
      readUri place flowIndicators start 0 (.ofNat g.char.toNat :: octets) rest
    else .ok (octets.reverse, g :: rest)

/-- Reads a text of a tag that must not be empty unless something stands before it. An octet zero
ends the text, whatever follows. -/
def readSuffix (place : TagPlace) (flowIndicators : Bool) (lead : List Char) (start : Mark)
    (s : Source) : Except SyntaxError (Octets × Source) := do
  let (octets, rest) ← readUri place flowIndicators start 0 [] s
  if lead.isEmpty && octets.isEmpty then failAt place.uri start rest.mark .missingTagUri
  return ((Octets.ofText (String.ofList lead.tail) ++ octets).takeWhile (· != 0), rest)

/-- Reads a handle: an exclamation mark, a name, and another mark, which may be missing in a tag
and after an empty name. -/
def readHandle (place : TagPlace) (start : Mark) (s : Source) : Lexed (List Char) :=
  if s.front ≠ '!' then failAt place.handle start s.mark .missingTagMark
  else
    let name := s.behind.takeWhile isName
    let rest := s.behind.dropWhile isName
    if rest.front = '!' then .ok ('!' :: name ++ ['!'], rest.behind)
    else if place = .directive ∧ !name.isEmpty then
      failAt .markOfDirective start rest.mark .missingTagMark
    else .ok ('!' :: name, rest)

/-- Reads a tag between angle brackets, which has no handle. -/
def readVerbatimTag (start : Mark) (s : Source) : Except SyntaxError (Token × Source) := do
  let (suffix, rest) ← readSuffix .node true [] start s
  if rest.front ≠ '>' then failAt .tag start rest.mark .missingTagClose
  return (.tag [] suffix, rest.behind)

/-- Reads a tag with a handle. A name with one mark only is no handle but part of the tag; a mark
alone is the tag itself. -/
def readShortTag (start : Mark) (s : Source) : Except SyntaxError (Token × Source) := do
  let (handle, rest) ← readHandle .node start s
  if 2 ≤ handle.length && handle.getLast? == some '!' then
    let (suffix, rest) ← readSuffix .node false [] start rest
    return (.tag handle suffix, rest)
  else
    let (suffix, rest) ← readSuffix .node false handle start rest
    return (if suffix.isEmpty then .tag [] (.ofText "!") else .tag ['!'] suffix, rest)

/-- Reads a tag off the front, which is an exclamation mark. -/
def readTag (inFlow : Bool) (s : Source) : Except SyntaxError (Token × Source) := do
  let start := s.mark
  let (token, rest) ← match s with
    | _ :: ⟨'<', _⟩ :: rest => readVerbatimTag start rest
    | _ => readShortTag start s
  if isGap rest.front || (inFlow && rest.front == ',') then return (token, rest)
  failAt .tag start rest.mark .missingTagGap

end Planimeter.Yaml
