import Planimeter.Yaml.Scalar.Block
import Planimeter.Yaml.Scalar.Plain
import Planimeter.Yaml.Scalar.Quoted
import Planimeter.Yaml.Token.Directive
/-!
# The tokens of a document

Tokens are read from the front of the text. A key of a mapping needs no indicator before it; that a
node was a key is known only when a colon follows, and the tokens of the key and of its mapping are
then put in front of the node. Up to then the node is a candidate, and what stands behind it waits.
-/
namespace Planimeter.Yaml

/-- A node that is a key if a colon follows. -/
structure Candidate where
  /-- The number of tokens before the node. -/
  before : Nat
  mark : Mark
  /-- The node stands where only a key may stand. -/
  required : Bool
  deriving DecidableEq, Repr

/-- A key without an indicator is on one line and begins at most so many bytes before its colon. -/
def keyLength : Nat := 1024

namespace Candidate

/-- A colon at this place comes too late. -/
def isExpired (front : Mark) (c : Candidate) : Bool :=
  c.mark.line < front.line || c.mark.index + keyLength < front.index

/-- Gives up a candidate, which must not have been a required key. -/
def giveUp (front : Mark) (c : Candidate) : Except SyntaxError Unit :=
  if c.required then failAt .simpleKey c.mark front .missingColon else .ok ()

end Candidate

/-- A document that is partly read. -/
structure Scan where
  /-- The text that is not read yet. -/
  source : Source
  /-- The tokens so far, the last one first. -/
  tokens : List Lexeme
  /-- The columns of the open block collections, the innermost first. -/
  columns : List Nat
  /-- The candidate outside flow collections or in the innermost one. -/
  candidate : Option Candidate
  /-- The candidates outside and in those around the innermost flow collection. -/
  outer : List (Option Candidate)
  /-- A key without an indicator may begin here. -/
  keyAllowed : Bool
  deriving Repr

namespace Scan

def ofSource (source : Source) : Scan := ⟨source, [], [], none, [], true⟩

def inFlow (s : Scan) : Bool := !s.outer.isEmpty

def mark (s : Scan) : Mark := s.source.mark

/-- Adds a token that begins at the front of the text. -/
def emit (token : Token) (s : Scan) : Scan :=
  { s with tokens := ⟨token, s.mark⟩ :: s.tokens }

/-- Goes on at a later place in the text. -/
def goOn (source : Source) (s : Scan) : Scan := { s with source }

/-- Adds a token of `width` characters and goes on behind it. -/
def take (width : Nat) (token : Token) (s : Scan) : Scan :=
  (s.emit token).goOn (s.source.drop width)

/-- A block collection at a column would lie inside the innermost open one. -/
def isInside (column : Nat) (s : Scan) : Bool :=
  match s.columns with
  | [] => true
  | innermost :: _ => innermost < column

/-- Opens a block collection at the front of the text, if it lies inside the open ones. -/
def openBlock (token : Token) (s : Scan) : Scan :=
  if !s.inFlow && s.isInside s.source.column then
    { s.emit token with columns := s.source.column :: s.columns }
  else s

/-- Closes the open block collections from the innermost outwards, up to one whose column does not
satisfy `closes`. -/
def closeBlocks (closes : Nat → Bool) (s : Scan) : Scan :=
  if s.inFlow then s
  else
    let columns := s.columns.dropWhile closes
    let ends := List.replicate (s.columns.length - columns.length) ⟨.blockEnd, s.mark⟩
    { s with columns, tokens := ends ++ s.tokens }

/-- Gives up the candidates that a colon would come too late for. -/
def expire (s : Scan) : Except SyntaxError Scan := do
  let keep (c : Option Candidate) : Except SyntaxError (Option Candidate) := do
    match c with
    | none => return none
    | some c =>
      if c.isExpired s.mark then
        c.giveUp s.mark
        return none
      return some c
  let outer ← s.outer.mapM keep
  let candidate ← keep s.candidate
  return { s with candidate, outer }

/-- Gives up the candidate at the innermost level. -/
def dropCandidate (s : Scan) : Except SyntaxError Scan := do
  if let some c := s.candidate then c.giveUp s.mark
  return { s with candidate := none }

/-- Notes that the node at the front of the text is a candidate. -/
def noteCandidate (s : Scan) : Except SyntaxError Scan := do
  if !s.keyAllowed then return s
  let s ← s.dropCandidate
  let required := !s.inFlow && s.columns.head? == some s.source.column
  return { s with candidate := some ⟨s.tokens.length, s.mark, required⟩ }

/-- Makes a candidate a key: its tokens go in front of the node. -/
def acceptCandidate (c : Candidate) (s : Scan) : Scan :=
  let opens := !s.inFlow && s.isInside c.mark.column
  let later := s.tokens.length - c.before
  { s with
    tokens := s.tokens.take later ++ ⟨.key, c.mark⟩ ::
      ((if opens then [⟨.blockMappingStart, c.mark⟩] else []) ++ s.tokens.drop later)
    columns := if opens then c.mark.column :: s.columns else s.columns
    candidate := none }

/-- Reads what stands between two lines of content and is no token. A new line outside flow
collections may begin with a key; a tab must not stand where one may begin. A line may begin with
a byte order mark. -/
def skip (inFlow : Bool) (inComment keyAllowed : Bool) : Source → Bool × Source
  | [] => (keyAllowed, [])
  | g :: rest =>
    if isBreak g.char then skip inFlow false (keyAllowed || !inFlow) rest
    else if isFinish g.char then (keyAllowed, g :: rest)
    else if inComment || g.char == '#' then skip inFlow true keyAllowed rest
    else if g.char == ' ' || (g.char == '\t' && (inFlow || !keyAllowed))
        || (g.char == '\ufeff' && g.mark.column == 0) then
      skip inFlow false keyAllowed rest
    else (keyAllowed, g :: rest)

/-- The end of the text counts as the start of a line. -/
def endMark (m : Mark) : Mark := if m.column = 0 then m else ⟨m.index, m.line + 1, 0⟩

/-- Ends the document; no text is left. -/
def atFinish (s : Scan) : Except SyntaxError Scan := do
  let s := s.goOn [⟨finish, endMark s.mark⟩]
  let s ← (s.closeBlocks fun _ => true).dropCandidate
  let s ← (s.emit .finish).expire
  return s.goOn []

/-- Reads a token that ends all open block collections. -/
def atDocument (read : Source → Except SyntaxError (Token × Source)) (s : Scan) :
    Except SyntaxError Scan := do
  let s ← (s.closeBlocks fun _ => true).dropCandidate
  let (token, rest) ← read s.source
  return { (s.emit token).goOn rest with keyAllowed := false }

def atFlowStart (token : Token) (s : Scan) : Except SyntaxError Scan := do
  let s ← s.noteCandidate
  return { s.take 1 token with
    candidate := none, outer := s.candidate :: s.outer, keyAllowed := true }

def atFlowEnd (token : Token) (s : Scan) : Except SyntaxError Scan := do
  let s ← s.dropCandidate
  let s := { s.take 1 token with keyAllowed := false }
  match s.outer with
  | [] => return s
  | candidate :: outer => return { s with candidate, outer }

def atFlowEntry (s : Scan) : Except SyntaxError Scan := do
  let s ← s.dropCandidate
  return { s.take 1 .flowEntry with keyAllowed := true }

def atBlockEntry (s : Scan) : Except SyntaxError Scan := do
  if !s.inFlow && !s.keyAllowed then throw { problem := .blockEntryNotAllowed, mark := s.mark }
  let s ← (s.openBlock .blockSequenceStart).dropCandidate
  return { s.take 1 .blockEntry with keyAllowed := true }

def atKey (s : Scan) : Except SyntaxError Scan := do
  if !s.inFlow && !s.keyAllowed then throw { problem := .mappingKeyNotAllowed, mark := s.mark }
  let s ← (s.openBlock .blockMappingStart).dropCandidate
  return { s.take 1 .key with keyAllowed := !s.inFlow }

def atValue (s : Scan) : Except SyntaxError Scan := do
  match s.candidate with
  | some c => return { (s.acceptCandidate c).take 1 .value with keyAllowed := false }
  | none =>
    if !s.inFlow && !s.keyAllowed then throw { problem := .mappingValueNotAllowed, mark := s.mark }
    return { (s.openBlock .blockMappingStart).take 1 .value with keyAllowed := !s.inFlow }

/-- Reads a token that belongs to a node on one line. -/
def atNode (read : Source → Except SyntaxError (Token × Source)) (s : Scan) :
    Except SyntaxError Scan := do
  let s ← s.noteCandidate
  let (token, rest) ← read s.source
  return { (s.emit token).goOn rest with keyAllowed := false }

def atBlockScalar (layout : BlockScalar.Layout) (s : Scan) : Except SyntaxError Scan := do
  let s ← s.dropCandidate
  let (text, rest) ← BlockScalar.read layout s.columns.head? s.source
  return { (s.emit (.scalar text .block)).goOn rest with keyAllowed := true }

def atPlainScalar (s : Scan) : Except SyntaxError Scan := do
  let s ← s.noteCandidate
  let (scalar, rest) ← PlainScalar.read s.inFlow ((s.columns.head?.map (· + 1)).getD 0) s.source
  return { (s.emit (.scalar scalar.text .plain)).goOn rest with keyAllowed := scalar.crossedLine }

def readQuoted (quote : Quote) (s : Source) : Except SyntaxError (Token × Source) :=
  (QuotedScalar.read quote s).map fun (text, rest) => (.scalar text .quoted, rest)

def readNamed (context : Context) (token : List Char → Token) (s : Source) :
    Except SyntaxError (Token × Source) :=
  (readName context s).map fun (name, rest) => (token name, rest)

/-- The characters that no plain scalar begins with, unless what follows makes them part of it. -/
def isIndicator (c : Char) : Bool :=
  c == '-' || c == '?' || c == ':' || c == '#' || c == '&' || c == '*' || c == '!' || c == '|'
    || c == '>' || c == '\x27' || c == '\x22' || c == '%' || c == '@' || c == '\x60'
    || isFlowIndicator c

def beginsPlain (inFlow : Bool) (c after : Char) : Bool :=
  !(isGap c || isIndicator c) || (c == '-' && !isBlank after)
    || (!inFlow && (c == '?' || c == ':') && !isGap after)

/-- Reads the token at the front of the text. -/
def dispatch (s : Scan) : Except SyntaxError Scan :=
  let c := s.source.front
  let after := s.source.behind.front
  if isFinish c then s.atFinish
  else if s.source.column == 0 && c == '%' then s.atDocument readDirective
  else if s.source.isDocumentMark then
    s.atDocument fun source =>
      .ok (if c == '-' then .documentStart else .documentEnd, source.drop 3)
  else if c == '[' then s.atFlowStart .flowSequenceStart
  else if c == '\x7b' then s.atFlowStart .flowMappingStart
  else if c == ']' then s.atFlowEnd .flowSequenceEnd
  else if c == '\x7d' then s.atFlowEnd .flowMappingEnd
  else if c == ',' then s.atFlowEntry
  else if c == '-' && isGap after then s.atBlockEntry
  else if c == '?' && (s.inFlow || isGap after) then s.atKey
  else if c == ':' && (s.inFlow || isGap after) then s.atValue
  else if c == '*' then s.atNode (readNamed .aliasName .aliasOf)
  else if c == '&' then s.atNode (readNamed .anchor .anchor)
  else if c == '!' then s.atNode (readTag s.inFlow)
  else if c == '|' && !s.inFlow then s.atBlockScalar .literal
  else if c == '>' && !s.inFlow then s.atBlockScalar .folded
  else if c == '\x27' then s.atNode (readQuoted .single)
  else if c == '\x22' then s.atNode (readQuoted .double)
  else if beginsPlain s.inFlow c after then s.atPlainScalar
  else failAt .nextToken s.mark s.mark .strayCharacter

/-- Reads one more token, with those that indentation adds before it. -/
def step (s : Scan) : Except SyntaxError Scan := do
  let (keyAllowed, source) := skip s.inFlow false s.keyAllowed s.source
  let s ← { s with keyAllowed, source }.expire
  let s ← (s.closeBlocks (s.source.column < ·)).dispatch
  s.expire

/-- The tokens that no candidate holds up. -/
def settled (s : Scan) : List Lexeme :=
  let held := (s.candidate :: s.outer).filterMap fun c => c.map Candidate.before
  s.tokens.reverse.take (held.foldl min s.tokens.length)

/-- Reads tokens up to the end or to an error; of those before an error only the settled ones
count. -/
def run : Nat → Scan → List Lexeme × Option SyntaxError
  | 0, s => (s.settled, none)
  | steps + 1, s =>
    match s.step with
    | .error e => (s.settled, some e)
    | .ok s => if s.source.isEmpty then (s.tokens.reverse, none) else run steps s

end Scan

/-- The tokens of a text, and the error that ends them, if there is one. -/
def tokens (source : Source) : List Lexeme × Option SyntaxError :=
  Scan.run source.length (.ofSource source)

end Planimeter.Yaml
