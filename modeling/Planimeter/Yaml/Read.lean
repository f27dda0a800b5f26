import Planimeter.Text.Blank
import Planimeter.Yaml.Document
import Planimeter.Yaml.Schema
/-!
# Reading a table

A text whose first document is a mapping, or empty, is read as a table of values. An alias is read
as if the node it stands for were written in its place, within limits on how deeply collections are
nested and on how many aliases are followed.
-/
namespace Planimeter.Yaml

/-- The way from the root of a document to a node. -/
inductive Path where
  | root
  | item (parent : Path) (index : Nat)
  | entry (parent : Path) (key : String)
  /-- The value of a key that is not written in its place. -/
  | unknown (parent : Path)
  deriving DecidableEq, Repr

namespace Path

mutual

def text : Path → String
  | root => "."
  | item parent index => s!"{parent.lead}[{index}]"
  | entry parent key => s!"{parent.lead}{key}"
  | unknown parent => s!"{parent.lead}?"

/-- What stands before the last step below a node. -/
def lead : Path → String
  | root => ""
  | item parent index => s!"{parent.lead}[{index}]."
  | entry parent key => s!"{parent.lead}{key}."
  | unknown parent => s!"{parent.lead}?."

end

end Path

/-- A node is not what it should be. -/
inductive Mismatch where
  | notMap (found : Value)
  | keyNotString (found : Value)
  | badTruthValue (text : String)
  | badInteger (text : String)
  | badFloat (text : String)
  | badNull (text : String)
  | notNumber (found : Value)
  deriving Repr

/-- A number with a point. -/
def pointed (x : Binary64) : String :=
  if x.isNaN || x.isInfinite || x.text.contains '.' then x.text else s!"{x.text}.0"

/-- The kind of a value, and the value itself if it is a scalar. -/
def describe : Value → String
  | .null => "unit value"
  | .bool b => s!"boolean \x60{b}\x60"
  | .unsigned .w64 n => s!"integer \x60{n}\x60"
  | .unsigned .w128 n => s!"integer \x60{n}\x60 as u128"
  | .signed .w64 n => s!"integer \x60{n}\x60"
  | .signed .w128 n => s!"integer \x60{n}\x60 as i128"
  | .float x => s!"floating point \x60{pointed x}\x60"
  | .char c => s!"string {Text.quoted c.toString}"
  | .text s => s!"string {Text.quoted s}"
  | .list _ => "sequence"
  | .table _ => "map"

def Mismatch.text : Mismatch → String
  | notMap found => s!"invalid type: {describe found}, expected a map"
  | keyNotString found => s!"invalid type: {describe found}, expected a string"
  | badTruthValue text => s!"invalid value: string {Text.quoted text}, expected a boolean"
  | badInteger text => s!"invalid value: string {Text.quoted text}, expected an integer"
  | badFloat text => s!"invalid value: string {Text.quoted text}, expected a float"
  | badNull text => s!"invalid value: string {Text.quoted text}, expected null"
  | notNumber found =>
    s!"invalid type: {describe found}, expected a 64-bit metadata id integer"

inductive ReadError where
  | notText
  | controlCharacter (offset : Nat)
  | ended (b : Break)
  | mismatch (m : Mismatch) (path : Path) (mark : Mark)
  | tooDeep (mark : Mark)
  | tooManyAliases
  | severalDocuments
  deriving Repr

namespace ReadError

def message : ReadError → String
  | notText => "stream did not contain valid UTF-8"
  | controlCharacter offset =>
    let place := if offset = 0 then "" else s!" at position {offset}"
    s!"control characters are not allowed{place}"
  | ended (.malformed e) => e.message
  | ended (.unknownAnchor mark) => s!"unknown anchor{SyntaxError.placeText mark}"
  | mismatch m path mark =>
    let lead := if path = .root then "" else s!"{path.text}: "
    s!"{lead}{m.text}{SyntaxError.placeText mark}"
  | tooDeep mark => s!"recursion limit exceeded{SyntaxError.placeText mark}"
  | tooManyAliases => "repetition limit exceeded"
  | severalDocuments =>
    "deserializing from YAML containing more than one document is not supported"

end ReadError

/-- How many collections may lie inside each other. -/
def depthLimit : Nat := 128

/-- How many aliases may be followed for each event of a document. -/
def aliasLimit : Nat := 100

/-- A reader knows how many aliases were followed. -/
abbrev Reader := StateT Nat (Except ReadError)

def stop (e : ReadError) : Reader α := throw e

/-- The rest of the events of a document. -/
abbrev Events := List (PlacedEvent Nat)

namespace Document

/-- The events run out only where the document breaks off. -/
def breakOff (d : Document) : Reader α := stop (.ended (d.ended.getD (.unknownAnchor .zero)))

/-- Follows an alias. -/
def follow (d : Document) (number : Nat) : Reader Events := do
  let followed ← modifyGet fun n => (n + 1, n + 1)
  if aliasLimit * d.events.length < followed then stop .tooManyAliases
  return d.node number

/-- The exclamation mark that the tags of a document's own begin with. -/
def ownMark : UInt8 := 0x21

/-- The name of a tag that is the document's own: what follows its mark, or else the mark. Octets
that are no text name nothing. -/
def ownTag? (tag : Option Octets) : Option String := do
  let octets ← tag
  if octets.head? ≠ some ownMark then none
  Octets.text? (if octets.tail.isEmpty then octets else octets.tail)

/-- The names that the name of a tag consists of: its parts between points, up to an empty one. -/
def namesOfTag (name : String) : List String :=
  ((Text.pieces '.' name.toList).takeWhile fun part => !part.isEmpty).map String.ofList

/-- A value behind a tag: with one of the document's own, it is the only entry of a table, or of
tables inside each other if the tag consists of several names. -/
def behindTag (tag : Option Octets) (v : Value) : Value :=
  match ownTag? tag with
  | none => v
  | some name => (namesOfTag name).foldr (fun name v => .table [(name, v)]) v

/-- The value of a scalar with a tag that is not the document's own. -/
def tagged (tag : String) (text : String) : Except Mismatch Value :=
  match tag with
  | "tag:yaml.org,2002:bool" =>
    match Schema.bool? text with
    | some b => .ok (.bool b)
    | none => .error (.badTruthValue text)
  | "tag:yaml.org,2002:int" =>
    match Schema.integer? text.toList with
    | some v => .ok v
    | none => .error (.badInteger text)
  | "tag:yaml.org,2002:float" =>
    match Schema.float? text with
    | some x => .ok (.float x)
    | none => .error (.badFloat text)
  | "tag:yaml.org,2002:null" => if Schema.isNull text then .ok .null else .error (.badNull text)
  | _ => .ok (.text text)

/-- The value of a scalar. A tag of the document's own does not change it. -/
def scalar (tag : Option Octets) (text : String) (style : Style) : Except Mismatch Value :=
  let isUntyped := tag.all fun octets => octets.head? == some ownMark
  if isUntyped then .ok (if style = .plain then Schema.value text else .text text)
  else tagged ((tag.bind Octets.text?).getD "") text

def orStop (path : Path) (mark : Mark) : Except Mismatch α → Reader α
  | .ok a => return a
  | .error m => stop (.mismatch m path mark)

/-- Reads the key of an entry, which is the text of a scalar. -/
def key (d : Document) (path : Path) : Events → Reader (String × Events)
  | [] => d.breakOff
  | (.aliasOf number, _) :: rest => do
    let (text, _) ← shown path (← d.follow number)
    return (text, rest)
  | events => shown path events
where
  shown (path : Path) : Events → Reader (String × Events)
    | (.scalar _ text _, _) :: rest => return (String.ofList text, rest)
    | (.sequenceStart _, mark) :: _ => stop (.mismatch (.keyNotString (.list [])) path mark)
    | (.mappingStart _, mark) :: _ => stop (.mismatch (.keyNotString (.table [])) path mark)
    | _ => d.breakOff

/-- The path to the value of the key in front. -/
def valuePath (path : Path) (key : String) : Events → Path
  | (.aliasOf _, _) :: _ => .unknown path
  | _ => .entry path key

/-- Reads nodes up to the end of a sequence; `node` reads one. -/
def items (d : Document) (node : Path → Events → Reader (Value × Events)) (path : Path) :
    Nat → Nat → Events → Reader (List Value × Events)
  | _, _, (.sequenceEnd, _) :: rest => return ([], rest)
  | 0, _, _ => d.breakOff
  | _, _, [] => d.breakOff
  | steps + 1, index, events => do
    let (v, rest) ← node (.item path index) events
    let (vs, rest) ← items d node path steps (index + 1) rest
    return (v :: vs, rest)

/-- The key of an entry that takes the place of the table around it. -/
def substituteKey : String := "___figment_value_value"

/-- The key of an entry that numbers the table around it. -/
def numberKey : String := "___figment_value_id"

/-- Reads the number of a table, which is of no use afterwards. -/
def tableNumber (d : Document) (path : Path) : Events → Reader Events
  | [] => d.breakOff
  | (.aliasOf number, _) :: rest => do
    let _ ← shown path (← d.follow number)
    return rest
  | events => shown path events
where
  shown (path : Path) : Events → Reader Events
    | (.scalar p text style, mark) :: rest => do
      match ← orStop path mark (scalar p.tag (String.ofList text) style) with
      | .unsigned .w64 _ => return rest
      | found => stop (.mismatch (.notNumber found) path mark)
    | (.sequenceStart _, mark) :: _ => stop (.mismatch (.notNumber (.list [])) path mark)
    | (.mappingStart _, mark) :: _ => stop (.mismatch (.notNumber (.table [])) path mark)
    | _ => d.breakOff

/-- Reads keys and nodes up to the end of a mapping; of two equal keys the later counts. Only a
mapping inside another node may have a number. -/
def entries (d : Document) (isInside : Bool) (node : Path → Events → Reader (Value × Events))
    (path : Path) (table : List (String × Value)) :
    Nat → Events → Reader (List (String × Value) × Events)
  | _, (.mappingEnd, _) :: rest => return (table, rest)
  | 0, _ => d.breakOff
  | _, [] => d.breakOff
  | steps + 1, events => do
    let (key, rest) ← d.key path events
    let there := valuePath path key events
    if isInside ∧ key = numberKey then
      entries d isInside node path table steps (← d.tableNumber there rest)
    else
      let (v, rest) ← node there rest
      entries d isInside node path (setEntry table key v) steps rest

/-- Reads a node that is no alias. `inside` reads the nodes of a collection, if one may stand
here. -/
def content (d : Document) (inside : Option (Path → Events → Reader (Value × Events)))
    (path : Path) : Events → Reader (Value × Events)
  | (.scalar p text style, mark) :: rest => do
    let v ← orStop path mark (scalar p.tag (String.ofList text) style)
    return (behindTag p.tag v, rest)
  | (.sequenceStart p, mark) :: rest => do
    let some node := inside | stop (.tooDeep mark)
    let (vs, rest) ← d.items node path rest.length 0 rest
    return (behindTag p.tag (.list vs), rest)
  | (.mappingStart p, mark) :: rest => do
    let some node := inside | stop (.tooDeep mark)
    let (table, rest) ← d.entries true node path [] rest.length rest
    return (behindTag p.tag ((table.lookup substituteKey).getD (.table table)), rest)
  | _ => d.breakOff

/-- Reads a node in which collections may lie inside each other up to a depth. -/
def value (d : Document) : Nat → Path → Events → Reader (Value × Events)
  | depth, path, events => do
    let inside := match depth with
      | 0 => none
      | depth + 1 => some (d.value depth)
    match events with
    | (.aliasOf number, _) :: rest =>
      let (v, _) ← d.content inside path (← d.follow number)
      return (v, rest)
    | _ => d.content inside path events

/-- Reads the whole document, which must be a mapping or empty. -/
def table (d : Document) : Reader (List (String × Value)) := do
  match d.events with
  | (.mappingStart _, _) :: rest =>
    return (← d.entries false (d.value (depthLimit - 1)) .root [] rest.length rest).1
  | (.sequenceStart _, mark) :: _ => stop (.mismatch (.notMap (.list [])) .root mark)
  | (.scalar p text style, mark) :: _ =>
    if text.isEmpty ∧ style = .plain then return []
    let found ← orStop .root mark (scalar p.tag (String.ofList text) style)
    stop (.mismatch (.notMap found) .root mark)
  | _ => if d.ended.isNone then return [] else d.breakOff

end Document

/-- The number of bytes before the first character that a document may not contain. -/
def firstForbidden? (offset : Nat) : List Char → Option Nat
  | [] => none
  | c :: cs => if isForbidden c then some offset else firstForbidden? (offset + c.utf8Size) cs

/-- Reads the table that a text holds. What is wrong inside the first document comes before what is
wrong at its end, and that before a further document. -/
def read (text : String) : Except ReadError (List (String × Value)) := do
  if let some offset := firstForbidden? 0 text.toList then throw (.controlCharacter offset)
  let stream := Stream.ofSource (.ofText text.toList)
  let (table, _) ← stream.first.table.run 0
  if let some b := stream.first.ended then throw (.ended b)
  if stream.hasMore then throw .severalDocuments
  return table

/-- Reads the table that a file holds. -/
def readFile (bytes : ByteArray) : Except ReadError (List (String × Value)) :=
  match String.fromUTF8? bytes with
  | some text => read text
  | none => .error .notText

end Planimeter.Yaml
