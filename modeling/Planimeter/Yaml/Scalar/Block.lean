import Planimeter.Yaml.Error
/-!
# Block scalars

A block scalar is introduced by a header, and its content is the lines below that are indented far
enough. A literal scalar keeps its line breaks, a folded one joins lines that do not begin with a
blank. The header tells what becomes of the breaks after the last line, and may tell the
indentation; otherwise the first line that is not empty tells it.
-/
namespace Planimeter.Yaml.BlockScalar

inductive Layout where
  | literal | folded
  deriving DecidableEq, Repr

/-- What is kept of the line breaks after the last line: none, one, or all. -/
inductive Chomping where
  | strip | clip | keep
  deriving DecidableEq, Repr

/-- What a header tells; no increment means that the content tells the indentation. -/
structure Header where
  chomping : Chomping := .clip
  increment : Option Nat := none
  deriving DecidableEq, Repr

def chomping? : Char → Option Chomping
  | '+' => some .keep
  | '-' => some .strip
  | _ => none

/-- Reads an indentation off the front, if there is one. -/
def increment (start : Mark) (s : Source) : Lexed (Option Nat) :=
  if s.front = '0' then failAt .blockScalar start s.mark .zeroIndentation
  else if s.front.isDigit then .ok (some (s.front.toNat - '0'.toNat), s.behind)
  else .ok (none, s)

/-- Reads the two indicators, in either order. -/
def indicators (start : Mark) (s : Source) : Except SyntaxError (Header × Source) := do
  match chomping? s.front with
  | some chomping =>
    let (increment, s) ← increment start s.behind
    return (⟨chomping, increment⟩, s)
  | none =>
    let (increment, s) ← increment start s
    match increment, chomping? s.front with
    | some n, some chomping => return (⟨chomping, some n⟩, s.behind)
    | _, _ => return (⟨.clip, increment⟩, s)

/-- Reads a header with the rest of its line. -/
def header (start : Mark) (s : Source) : Except SyntaxError (Header × Source) := do
  let (header, s) ← indicators start s
  let s := s.skipComment
  if isBreak s.front then return (header, s.behind)
  if isFinish s.front then return (header, s)
  failAt .blockScalar start s.mark .missingLineEnd

/-- Reads the empty lines before a content whose indentation is not known, and finds the longest
run of spaces among them and before what follows. -/
def leadingBreaks (start : Mark) (breaks : List Char) (longest : Nat) :
    Source → Lexed (List Char × Nat)
  | [] => .ok ((breaks.reverse, longest), [])
  | g :: rest =>
    if g.char = ' ' then leadingBreaks start breaks longest rest
    else
      let longest := max longest g.mark.column
      if g.char = '\t' then failAt .blockScalar start g.mark .tabIndentation
      else if isBreak g.char then leadingBreaks start (g.char :: breaks) longest rest
      else .ok ((breaks.reverse, longest), g :: rest)

/-- What was read since the last line with content: the break that ended it, and those that ended
empty lines, the last one first. -/
structure Pause where
  ending : List Char
  empty : List Char
  /-- The line began with a blank. -/
  afterBlank : Bool
  deriving Repr

namespace Pause

/-- What stands between two lines, the second of which begins with `first`. -/
def text (layout : Layout) (first : Char) (p : Pause) : List Char :=
  let empty := p.empty.reverse
  if layout = .folded ∧ p.ending = ['\n'] ∧ !p.afterBlank ∧ !isBlank first then
    if empty.isEmpty then [' '] else empty
  else p.ending ++ empty

/-- What stands after the last line. -/
def chomp (chomping : Chomping) (p : Pause) : List Char :=
  match chomping with
  | .strip => []
  | .clip => p.ending
  | .keep => p.ending ++ p.empty.reverse

end Pause

/-- What is being read: a line with content, which may begin with a blank, or what follows one. -/
inductive Stage where
  | line (beginsBlank : Bool)
  | pause (pause : Pause)
  deriving Repr

/-- How a block scalar is read. -/
structure Rules where
  layout : Layout
  chomping : Chomping
  indent : Nat
  start : Mark
  deriving Repr

/-- Reads on inside the content. `text` is the text so far, backwards. -/
def scan (r : Rules) (stage : Stage) (text : List Char) : Source → Lexed (List Char)
  | [] => .ok (text.reverse, [])
  | g :: rest =>
    match stage with
    | .line beginsBlank =>
      if isFinish g.char then .ok (text.reverse, g :: rest)
      else if isBreak g.char then scan r (.pause ⟨[g.char], [], beginsBlank⟩) text rest
      else scan r (.line beginsBlank) (g.char :: text) rest
    | .pause p =>
      if g.mark.column < r.indent && g.char == ' ' then scan r (.pause p) text rest
      else if g.mark.column < r.indent && g.char == '\t' then
        failAt .blockScalar r.start g.mark .tabIndentation
      else if isBreak g.char then
        scan r (.pause { p with empty := g.char :: p.empty }) text rest
      else if g.mark.column == r.indent && !isFinish g.char then
        scan r (.line (isBlank g.char)) (g.char :: ((p.text r.layout g.char).reverse ++ text)) rest
      else .ok (text.reverse ++ p.chomp r.chomping, g :: rest)

/-- Reads a block scalar off the front, which is its indicator. `parent` is the column of the
surrounding block collection, if there is one. -/
def read (layout : Layout) (parent : Option Nat) (s : Source) :
    Except SyntaxError (List Char × Source) := do
  let start := s.mark
  let (header, s) ← header start s.behind
  let first (empty : List Char) : Stage := .pause ⟨[], empty.reverse, false⟩
  match header.increment with
  | some n =>
    scan ⟨layout, header.chomping, parent.getD 0 + n, start⟩ (first []) [] s
  | none =>
    let ((empty, longest), s) ← leadingBreaks start [] 0 s
    let indent := max (max longest ((parent.map (· + 1)).getD 0)) 1
    scan ⟨layout, header.chomping, indent, start⟩ (first empty) [] s

end Planimeter.Yaml.BlockScalar
