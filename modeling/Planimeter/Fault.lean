import Planimeter.Text.Quoted
/-!
# Faults

What stops the whole program: arithmetic that leaves its range, and a part of a text that would
begin or end inside a character.
-/
namespace Planimeter

/-- One of the two ends of a part of a text. -/
inductive Edge where
  | start | stop
  deriving DecidableEq, Repr

def Edge.name : Edge → String
  | .start => "start"
  | .stop => "end"

inductive Fault where
  | durationOverflow
  | attemptOverflow
  /-- An edge lies inside a character that has `before` bytes before it. -/
  | splitCharacter (edge : Edge) (position : Nat) (c : Char) (before : Nat)
  deriving DecidableEq, Repr

def Fault.message : Fault → String
  | .durationOverflow => "overflow when multiplying duration by scalar"
  | .attemptOverflow => "attempt to add with overflow"
  | .splitCharacter edge position c before =>
    let shown := String.ofList (Text.escape c)
    let after := before + c.utf8Size
    s!"{edge.name} byte index {position} is not a char boundary; it is inside '{shown}' "
      ++ s!"(bytes {before}..{after} of string)"

end Planimeter
