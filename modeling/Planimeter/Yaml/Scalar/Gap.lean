import Planimeter.Yaml.Error
/-!
# Gaps between words

A scalar that runs over several lines is a list of words with gaps between them. A gap on one line
stands for its blanks. A gap with line breaks is folded: one break stands for a space, more stand
for all but the first. A break that is escaped stands for nothing.
-/
namespace Planimeter.Yaml

/-- A gap so far; the last character comes first. -/
inductive Gap where
  | blanks (run : List Char)
  | folded (breaks : List Char)
  | joined (breaks : List Char)
  deriving DecidableEq, Repr

/-- What line breaks stand for, in their order: a first line feed is dropped, unless it would leave
nothing. -/
def foldBreaks : List Char → List Char
  | ['\n'] => [' ']
  | '\n' :: breaks => breaks
  | breaks => breaks

namespace Gap

def addBlank (c : Char) : Gap → Gap
  | blanks run => blanks (c :: run)
  | gap => gap

def addBreak (c : Char) : Gap → Gap
  | blanks _ => folded [c]
  | folded breaks => folded (c :: breaks)
  | joined breaks => joined (c :: breaks)

/-- The gap contains a line break. -/
def crossesLine : Gap → Bool
  | blanks _ => false
  | _ => true

/-- What the gap stands for. -/
def text : Gap → List Char
  | blanks run => run.reverse
  | folded breaks => foldBreaks breaks.reverse
  | joined breaks => breaks.reverse

end Gap

end Planimeter.Yaml
