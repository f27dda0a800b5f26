import Planimeter.Yaml.Scalar.Gap
/-!
# Plain scalars

A scalar without quotes ends before a colon or number sign that means something, before a flow
indicator inside a flow collection, and before a line that is indented less than its surroundings
ask for.
-/
namespace Planimeter.Yaml

/-- The surroundings of a plain scalar. -/
structure PlainContext where
  /-- The scalar stands inside a flow collection. -/
  inFlow : Bool
  /-- The least column of a further line, outside flow collections. -/
  indent : Nat
  /-- The place where the scalar begins. -/
  start : Mark
  deriving Repr

/-- A plain scalar that was read. -/
structure PlainScalar where
  text : List Char
  /-- A line break follows the scalar. -/
  crossedLine : Bool
  deriving DecidableEq, Repr

namespace PlainScalar

/-- A colon in a flow collection right before one of these is an error. -/
def isAfterStrayColon (c : Char) : Bool := isFlowIndicator c || c == '?'

/-- A word ends before a colon with a gap behind it and, in a flow collection, before one of its
indicators. -/
def endsWord (inFlow : Bool) (c after : Char) : Bool :=
  (c == ':' && isGap after) || (inFlow && isFlowIndicator c)

/-- The scalar whose text is, backwards, `text`. A gap after it is no part of it. -/
def ofReversed (gap : Option Gap) (text : List Char) : PlainScalar :=
  ⟨text.reverse, (gap.map Gap.crossesLine).getD false⟩

/-- Reads on inside a word, or inside a gap after a word. `text` is the text so far, backwards. -/
def scan (ctx : PlainContext) (gap : Option Gap) (text : List Char) : Source → Lexed PlainScalar
  | [] => .ok (⟨text.reverse, false⟩, [])
  | g :: rest =>
    if isBlank g.char then
      let gap := gap.getD (.blanks [])
      if gap.crossesLine && g.mark.column < ctx.indent && g.char == '\t' then
        failAt .plainScalar ctx.start g.mark .tabInScalar
      else scan ctx (some (gap.addBlank g.char)) text rest
    else if isBreak g.char then
      scan ctx (some ((gap.getD (.blanks [])).addBreak g.char)) text rest
    else if isFinish g.char || gap.isSome && ((!ctx.inFlow && g.mark.column < ctx.indent)
        || Source.isDocumentMark (g :: rest) || g.char == '#') then
      .ok (ofReversed gap text, g :: rest)
    else if ctx.inFlow && g.char == ':' && isAfterStrayColon (Source.front rest) then
      failAt .plainScalar ctx.start g.mark .strayColon
    else if endsWord ctx.inFlow g.char (Source.front rest) then
      .ok (ofReversed gap text, g :: rest)
    else
      let gapText := (gap.map Gap.text).getD []
      scan ctx none (g.char :: (gapText.reverse ++ text)) rest

/-- Reads a plain scalar off the front. -/
def read (inFlow : Bool) (indent : Nat) (s : Source) : Lexed PlainScalar :=
  scan ⟨inFlow, indent, s.mark⟩ none [] s

end PlainScalar

end Planimeter.Yaml
