/-!
# Laid out text

A document is read as a list of characters, each with its place. Every kind of line break but the
two Unicode separators is laid out as a line feed, and a null character marks the end, so that a
reader can always look at the next character.
-/
namespace Planimeter.Yaml

/-- A place in a text: the number of bytes before it, and its line and column from 0. -/
structure Mark where
  index : Nat
  line : Nat
  column : Nat
  deriving DecidableEq, Repr, Inhabited

namespace Mark

def zero : Mark := ⟨0, 0, 0⟩

/-- The place after a character that ends no line. -/
def next (m : Mark) (c : Char) : Mark :=
  { m with index := m.index + c.utf8Size, column := m.column + 1 }

/-- The place after a line break of `width` bytes. -/
def nextLine (m : Mark) (width : Nat) : Mark := ⟨m.index + width, m.line + 1, 0⟩

def text (m : Mark) : String := s!"line {m.line + 1} column {m.column + 1}"

end Mark

/-- Marks the end of a text; no document contains it. -/
def finish : Char := '\x00'

def isFinish (c : Char) : Bool := c == finish

/-- The two separators of Unicode, which end a line and are kept as they are. -/
def isSeparator (c : Char) : Bool := c == '\u2028' || c == '\u2029'

/-- The characters that end a line and are read as a line feed. -/
def isLineEnd (c : Char) : Bool := c == '\n' || c == '\r' || c == '\u0085'

def isBreak (c : Char) : Bool := isLineEnd c || isSeparator c

def isBlank (c : Char) : Bool := c == ' ' || c == '\t'

/-- No part of a word: a blank, a line break or the end. -/
def isGap (c : Char) : Bool := isBlank c || isBreak c || isFinish c

/-- The characters of names: ASCII letters and digits, hyphen and underscore. -/
def isName (c : Char) : Bool := c.isAlphanum || c == '_' || c == '-'

/-- The characters that structure a flow collection. -/
def isFlowIndicator (c : Char) : Bool :=
  c == ',' || c == '[' || c == ']' || c == '\x7b' || c == '\x7d'

/-- The control characters, other than tabs and line breaks, and the two last places of the basic
plane: what a document may not contain. -/
def isForbidden (c : Char) : Bool :=
  let n := c.toNat
  !(n == 0x09 || n == 0x0A || n == 0x0D || (0x20 ≤ n && n ≤ 0x7E) || n == 0x85
    || (0xA0 ≤ n && n ≤ 0xFFFD) || 0x10000 ≤ n)

/-- A character in its place. -/
structure Glyph where
  char : Char
  mark : Mark
  deriving DecidableEq, Repr

abbrev Source := List Glyph

namespace Source

/-- Lays out a text from a place on. -/
def place (m : Mark) : List Char → Source
  | [] => [⟨finish, m⟩]
  | '\r' :: '\n' :: cs => ⟨'\n', m⟩ :: place (m.nextLine 2) cs
  | c :: cs =>
    if isLineEnd c then ⟨'\n', m⟩ :: place (m.nextLine c.utf8Size) cs
    else if isSeparator c then ⟨c, m⟩ :: place (m.nextLine c.utf8Size) cs
    else ⟨c, m⟩ :: place (m.next c) cs

def ofText (cs : List Char) : Source := place .zero cs

/-- The character in front. -/
def front : Source → Char
  | [] => finish
  | g :: _ => g.char

/-- The text after the character in front. -/
def behind : Source → Source
  | [] => []
  | _ :: rest => rest

/-- The place of the character in front. -/
def mark : Source → Mark
  | [] => .zero
  | g :: _ => g.mark

/-- The place on its line of the character in front. -/
def column (s : Source) : Nat := s.mark.column

/-- The characters in front that satisfy `p`. -/
def takeWhile (p : Char → Bool) (s : Source) : List Char :=
  (List.takeWhile (fun g => p g.char) s).map Glyph.char

/-- What follows the characters in front that satisfy `p`. -/
def dropWhile (p : Char → Bool) (s : Source) : Source := List.dropWhile (fun g => p g.char) s

/-- The text starts with three hyphens or three points at the start of a line, followed by a gap. -/
def isDocumentMark (s : Source) : Bool :=
  match s with
  | a :: b :: c :: rest =>
    a.mark.column == 0 && (a.char == '-' || a.char == '.') && b.char == a.char && c.char == a.char
      && isGap (front rest)
  | _ => false

/-- Skips the rest of a line after a token: blanks, and then a comment, if there is one. -/
def skipComment (s : Source) : Source :=
  let s := s.dropWhile isBlank
  if s.front == '#' then s.dropWhile fun c => !(isBreak c || isFinish c) else s

end Source

end Planimeter.Yaml
