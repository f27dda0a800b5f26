import Planimeter.Yaml.Error
import Planimeter.Yaml.Token
/-!
# Events

The structure of a document, in the order of the text: where collections begin and end, and the
scalars and references in them. The tokens are read with a stack of what is expected next, whose top
alone decides, together with at most two tokens, what happens.
-/
namespace Planimeter.Yaml

/-- What may be told about a node besides its content. -/
structure Properties where
  anchor : Option (List Char) := none
  tag : Option Octets := none
  deriving DecidableEq, Repr

/-- An event; `ref` is what an alias refers to a node by. -/
inductive Event (ref : Type) where
  | aliasOf (target : ref)
  | scalar (properties : Properties) (text : List Char) (style : Style)
  | sequenceStart (properties : Properties)
  | sequenceEnd
  | mappingStart (properties : Properties)
  | mappingEnd
  | documentEnd
  deriving DecidableEq, Repr

/-- An event and its place. -/
abbrev PlacedEvent (ref : Type) := Event ref × Mark

/-- What is expected next. A collection is told apart by the place where it begins. -/
inductive Expected where
  | document (isFirst : Bool)
  | documentContent
  | documentEnd
  /-- A node; block collections may stand here, and so may a sequence whose hyphens are not
  indented. -/
  | node (block unindented : Bool)
  | blockEntry (start : Mark)
  | unindentedEntry
  | blockKey (start : Mark)
  | blockValue
  | flowEntry (start : Mark) (isFirst : Bool)
  | pairKey
  | pairValue
  | pairEnd
  | flowKey (start : Mark) (isFirst : Bool)
  | flowValue (isEmpty : Bool)
  deriving DecidableEq, Repr

namespace Event

/-- The handles of tags, and what each stands for. -/
abbrev Handles := List (List Char × Octets)

/-- Two handles that need no directive. -/
def defaultHandles : Handles :=
  [(['!'], .ofText "!"), (['!', '!'], .ofText "tag:yaml.org,2002:")]

/-- What becomes of an expectation: events, further expectations, and the tokens that are left. -/
structure Move where
  events : List (PlacedEvent (List Char))
  next : List Expected
  handles : Handles
  tokens : List Lexeme

/-- Reading stops: at an error in the structure, or because the tokens ran out. -/
abbrev Halt := Option SyntaxError

def haltAt (mark : Mark) (problem : Problem) : Except Halt α := .error (some ⟨problem, mark, none⟩)

def haltIn (context : Context) (start mark : Mark) (problem : Problem) : Except Halt α :=
  .error (some ⟨problem, mark, some (context, start)⟩)

/-- The token in front. -/
def peek : List Lexeme → Except Halt Lexeme
  | [] => .error none
  | l :: _ => .ok l

/-- A node that is not written. -/
def emptyScalar (mark : Mark) : PlacedEvent (List Char) := (.scalar {} [] .plain, mark)

/-- A tag as it is written, and its place. -/
structure WrittenTag where
  handle : List Char
  suffix : Octets
  mark : Mark

/-- Reads the properties in front of a node, in either order. -/
def properties : List Lexeme → Option (List Char) × Option WrittenTag × List Lexeme
  | ⟨.anchor a, _⟩ :: ⟨.tag h s, m⟩ :: rest => (some a, some ⟨h, s, m⟩, rest)
  | ⟨.anchor a, _⟩ :: rest => (some a, none, rest)
  | ⟨.tag h s, m⟩ :: ⟨.anchor a, _⟩ :: rest => (some a, some ⟨h, s, m⟩, rest)
  | ⟨.tag h s, m⟩ :: rest => (none, some ⟨h, s, m⟩, rest)
  | rest => (none, none, rest)

/-- The tag that is meant: its handle is replaced by what that stands for. -/
def resolveTag (handles : Handles) (start : Mark) :
    Option WrittenTag → Except Halt (Option Octets)
  | none => .ok none
  | some t =>
    if t.handle.isEmpty then .ok (some t.suffix)
    else match handles.lookup t.handle with
      | some lead => .ok (some (lead ++ t.suffix))
      | none => haltIn .node start t.mark .unknownHandle

def nodeMove (block unindented : Bool) (handles : Handles) (tokens : List Lexeme) :
    Except Halt Move := do
  let first ← peek tokens
  let start := first.mark
  match tokens with
  | ⟨.aliasOf name, _⟩ :: rest => return ⟨[(.aliasOf name, start)], [], handles, rest⟩
  | _ =>
    let (anchor, tag, rest) := properties tokens
    let front ← peek rest
    let tag ← resolveTag handles start tag
    let move (event : Event (List Char)) (next : List Expected) (tokens : List Lexeme) :
        Except Halt Move := .ok ⟨[(event, start)], next, handles, tokens⟩
    match front.token with
    | .scalar text style =>
      move (.scalar ⟨anchor, tag⟩ text style) [] rest.tail
    | .flowSequenceStart =>
      move (.sequenceStart ⟨anchor, tag⟩) [.flowEntry front.mark true] rest.tail
    | .flowMappingStart =>
      move (.mappingStart ⟨anchor, tag⟩) [.flowKey front.mark true] rest.tail
    | token =>
      if unindented ∧ token = .blockEntry then
        move (.sequenceStart ⟨anchor, tag⟩) [.unindentedEntry] rest
      else if block ∧ token = .blockSequenceStart then
        move (.sequenceStart ⟨anchor, tag⟩) [.blockEntry front.mark] rest.tail
      else if block ∧ token = .blockMappingStart then
        move (.mappingStart ⟨anchor, tag⟩) [.blockKey front.mark] rest.tail
      else if anchor.isSome ∨ tag.isSome then move (.scalar ⟨anchor, tag⟩ [] .plain) [] rest
      else haltIn (if block then .blockNode else .flowNode) start front.mark .missingContent

/-- Expects a node, or puts an empty one here if the token in front belongs to what follows. -/
def nodeUnless (ends : List Token) (block unindented : Bool) (next : List Expected)
    (handles : Handles) (tokens : List Lexeme) : Except Halt Move := do
  let front ← peek tokens
  if front.token ∈ ends then return ⟨[emptyScalar front.mark], next, handles, tokens⟩
  return ⟨[], .node block unindented :: next, handles, tokens⟩

/-- Reads the directives of a document. -/
def directives (hasVersion : Bool) (handles : Handles) :
    List Lexeme → Except Halt (Handles × List Lexeme)
  | ⟨.versionDirective major minor, m⟩ :: rest =>
    if hasVersion then haltAt m .repeatedVersion
    else if major ≠ 1 ∨ (minor ≠ 1 ∧ minor ≠ 2) then haltAt m .badVersion
    else directives true handles rest
  | ⟨.handleDirective handle lead, m⟩ :: rest =>
    if (handles.lookup handle).isSome then haltAt m .repeatedHandle
    else directives hasVersion (handles ++ [(handle, lead)]) rest
  | rest => .ok (handles, rest)

/-- The tokens with which a document announces itself. -/
def announces : Token → Bool
  | .versionDirective _ _ | .handleDirective _ _ | .documentStart => true
  | _ => false

def documentMove (isFirst : Bool) (tokens : List Lexeme) : Except Halt Move := do
  let tokens := if isFirst then tokens else tokens.dropWhile fun l => l.token = .documentEnd
  let front ← peek tokens
  if front.token = .finish then return ⟨[], [], [], []⟩
  if isFirst ∧ !announces front.token then
    return ⟨[], [.node true false, .documentEnd, .document false], defaultHandles, tokens⟩
  let (handles, tokens) ← directives false [] tokens
  let front ← peek tokens
  if front.token ≠ .documentStart then haltAt front.mark .missingDocumentStart
  return ⟨[], [.documentContent, .documentEnd, .document false], handles ++ defaultHandles,
    tokens.tail⟩

def contentMove (handles : Handles) (tokens : List Lexeme) : Except Halt Move := do
  let front ← peek tokens
  if announces front.token ∨ front.token = .documentEnd ∨ front.token = .finish then
    return ⟨[emptyScalar front.mark], [], handles, tokens⟩
  return ⟨[], [.node true false], handles, tokens⟩

def documentEndMove (handles : Handles) (tokens : List Lexeme) : Except Halt Move := do
  let front ← peek tokens
  let rest := if front.token = .documentEnd then tokens.tail else tokens
  return ⟨[(.documentEnd, front.mark)], [], handles, rest⟩

def blockEntryMove (start : Mark) (handles : Handles) (tokens : List Lexeme) :
    Except Halt Move := do
  let front ← peek tokens
  match front.token with
  | .blockEntry =>
    nodeUnless [.blockEntry, .blockEnd] true false [.blockEntry start] handles tokens.tail
  | .blockEnd => return ⟨[(.sequenceEnd, front.mark)], [], handles, tokens.tail⟩
  | _ => haltIn .blockCollection start front.mark .missingBlockEntry

def unindentedEntryMove (handles : Handles) (tokens : List Lexeme) : Except Halt Move := do
  let front ← peek tokens
  if front.token = .blockEntry then
    nodeUnless [.blockEntry, .key, .value, .blockEnd] true false [.unindentedEntry] handles
      tokens.tail
  else return ⟨[(.sequenceEnd, front.mark)], [], handles, tokens⟩

def blockKeyMove (start : Mark) (handles : Handles) (tokens : List Lexeme) : Except Halt Move := do
  let front ← peek tokens
  match front.token with
  | .key =>
    nodeUnless [.key, .value, .blockEnd] true true [.blockValue, .blockKey start] handles
      tokens.tail
  | .blockEnd => return ⟨[(.mappingEnd, front.mark)], [], handles, tokens.tail⟩
  | _ => haltIn .blockMapping start front.mark .missingBlockKey

/-- Reads a value, which is empty if there is no indicator. -/
def valueMove (ends : List Token) (block : Bool) (handles : Handles) (tokens : List Lexeme) :
    Except Halt Move := do
  let front ← peek tokens
  if front.token = .value then nodeUnless ends block block [] handles tokens.tail
  else return ⟨[emptyScalar front.mark], [], handles, tokens⟩

/-- Reads the separator before an entry that is not the first. -/
def separator (context : Context) (problem : Problem) (start : Mark) (isFirst : Bool)
    (tokens : List Lexeme) : Except Halt (List Lexeme) := do
  if isFirst then return tokens
  let front ← peek tokens
  if front.token = .flowEntry then return tokens.tail
  haltIn context start front.mark problem

/-- Reads an entry of a flow sequence. An entry that begins with a key is a mapping of one pair. -/
def flowEntryMove (start : Mark) (isFirst : Bool) (handles : Handles) (tokens : List Lexeme) :
    Except Halt Move := do
  let front ← peek tokens
  if front.token = .flowSequenceEnd then
    return ⟨[(.sequenceEnd, front.mark)], [], handles, tokens.tail⟩
  let tokens ← separator .flowSequence .missingSequenceSeparator start isFirst tokens
  let front ← peek tokens
  match front.token with
  | .key => return ⟨[(.mappingStart {}, front.mark)],
      [.pairKey, .pairValue, .pairEnd, .flowEntry start false], handles, tokens.tail⟩
  | .flowSequenceEnd => return ⟨[(.sequenceEnd, front.mark)], [], handles, tokens.tail⟩
  | _ => return ⟨[], [.node false false, .flowEntry start false], handles, tokens⟩

/-- Reads the key of a pair. An empty key takes the token behind it along. -/
def pairKeyMove (handles : Handles) (tokens : List Lexeme) : Except Halt Move := do
  let front ← peek tokens
  match front.token with
  | .value | .flowEntry | .flowSequenceEnd =>
    return ⟨[emptyScalar front.mark], [], handles, tokens.tail⟩
  | _ => return ⟨[], [.node false false], handles, tokens⟩

def pairEndMove (handles : Handles) (tokens : List Lexeme) : Except Halt Move := do
  let front ← peek tokens
  return ⟨[(.mappingEnd, front.mark)], [], handles, tokens⟩

def flowKeyMove (start : Mark) (isFirst : Bool) (handles : Handles) (tokens : List Lexeme) :
    Except Halt Move := do
  let front ← peek tokens
  if front.token = .flowMappingEnd then
    return ⟨[(.mappingEnd, front.mark)], [], handles, tokens.tail⟩
  let tokens ← separator .flowMapping .missingMappingSeparator start isFirst tokens
  let front ← peek tokens
  match front.token with
  | .key =>
    nodeUnless [.value, .flowEntry, .flowMappingEnd] false false
      [.flowValue false, .flowKey start false] handles tokens.tail
  | .flowMappingEnd => return ⟨[(.mappingEnd, front.mark)], [], handles, tokens.tail⟩
  | _ => return ⟨[], [.node false false, .flowValue true, .flowKey start false], handles, tokens⟩

def flowValueMove (isEmpty : Bool) (handles : Handles) (tokens : List Lexeme) :
    Except Halt Move := do
  let front ← peek tokens
  if isEmpty then return ⟨[emptyScalar front.mark], [], handles, tokens⟩
  valueMove [.flowEntry, .flowMappingEnd] false handles tokens

/-- Reads on with the first of the things expected. -/
def step (handles : Handles) (tokens : List Lexeme) : Expected → Except Halt Move
  | .document isFirst => documentMove isFirst tokens
  | .documentContent => contentMove handles tokens
  | .documentEnd => documentEndMove handles tokens
  | .node block unindented => nodeMove block unindented handles tokens
  | .blockEntry start => blockEntryMove start handles tokens
  | .unindentedEntry => unindentedEntryMove handles tokens
  | .blockKey start => blockKeyMove start handles tokens
  | .blockValue => valueMove [.key, .value, .blockEnd] true handles tokens
  | .flowEntry start isFirst => flowEntryMove start isFirst handles tokens
  | .pairKey => pairKeyMove handles tokens
  | .pairValue => valueMove [.flowEntry, .flowSequenceEnd] false handles tokens
  | .pairEnd => pairEndMove handles tokens
  | .flowKey start isFirst => flowKeyMove start isFirst handles tokens
  | .flowValue isEmpty => flowValueMove isEmpty handles tokens

/-- Reads on until nothing is expected or reading halts. `events` are those so far, backwards. -/
def run : Nat → List (PlacedEvent (List Char)) → List Expected → Handles → List Lexeme →
    List (PlacedEvent (List Char)) × Except Halt Unit
  | 0, events, _, _, _ => (events.reverse, .error none)
  | _, events, [], _, _ => (events.reverse, .ok ())
  | steps + 1, events, expected :: stack, handles, tokens =>
    match step handles tokens expected with
    | .error halt => (events.reverse, .error halt)
    | .ok m => run steps (m.events.reverse ++ events) (m.next ++ stack) m.handles m.tokens

/-- The events of a list of tokens, and the error that ends them, if there is one. A list that ends
early does so because of `failure`. -/
def ofTokens (tokens : List Lexeme) (failure : Option SyntaxError) :
    List (PlacedEvent (List Char)) × Option SyntaxError :=
  match run (8 * tokens.length + 8) [] [.document true] defaultHandles tokens with
  | (events, .ok ()) => (events, none)
  | (events, .error halt) => (events, halt <|> failure)

end Event

end Planimeter.Yaml
