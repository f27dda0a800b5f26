/-!
# Readers

A reader takes a value off the front of a text and leaves the rest, or fails.
-/
namespace Planimeter.Text

abbrev Reader := StateT (List Char) Option

namespace Reader

def fail : Reader α := fun _ => none

/-- Reads with the first of two readers that does not fail. -/
def or (r s : Reader α) : Reader α := fun cs => (r cs).orElse fun _ => s cs

/-- The character in front, which stays there. -/
def peek? : Reader (Option Char) := fun cs => some (cs.head?, cs)

/-- Reads the given character. -/
def char (c : Char) : Reader Unit
  | [] => none
  | c' :: rest => if c' = c then some ((), rest) else none

/-- Reads any character. -/
def anyChar : Reader Char
  | [] => none
  | c :: rest => some (c, rest)

/-- Reads the characters in front that satisfy `p`. -/
def takeWhile (p : Char → Bool) : Reader (List Char) :=
  fun cs => some (cs.takeWhile p, cs.dropWhile p)

def ofOption : Option α → Reader α
  | some a => pure a
  | none => fail

/-- The value of a reader that takes the whole text. -/
def whole? (r : Reader α) (cs : List Char) : Option α :=
  match r cs with
  | some (a, []) => some a
  | _ => none

end Reader

end Planimeter.Text
