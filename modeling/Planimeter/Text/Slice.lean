import Planimeter.Fault
/-!
# Parts of a text

A position in a text is the number of bytes before it, of which a character has one to four. There
is no part between two positions if one of them lies inside a character.
-/
namespace Planimeter.Text

/-- The number of bytes of some characters. -/
def byteCount : List Char → Nat
  | [] => 0
  | c :: cs => c.utf8Size + byteCount cs

/-- Splits a text, before which there are `before` bytes, after `count` bytes or at its end. Fails
with the character that the split would go through, and the number of bytes before that. -/
def splitBytes (before count : Nat) :
    List Char → Except (Char × Nat) (List Char × List Char)
  | [] => .ok ([], [])
  | c :: cs =>
    if count = 0 then .ok ([], c :: cs)
    else if count < c.utf8Size then .error (c, before)
    else do
      let (taken, rest) ← splitBytes (before + c.utf8Size) (count - c.utf8Size) cs
      return (c :: taken, rest)

/-- The part of a text from a position on. -/
def sliceFrom (start : Nat) (cs : List Char) : Except Fault (List Char) :=
  match splitBytes 0 start cs with
  | .ok (_, rest) => .ok rest
  | .error (c, before) => .error (.splitCharacter .start start c before)

/-- The part of a text between two positions. -/
def slice (start stop : Nat) (cs : List Char) : Except Fault (List Char) := do
  let rest ← sliceFrom start cs
  match splitBytes start (stop - start) rest with
  | .ok (part, _) => .ok part
  | .error (c, before) => .error (.splitCharacter .stop stop c before)

end Planimeter.Text
