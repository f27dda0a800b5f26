/-!
# Text for a terminal

A terminal shows some parts of a text in a style, which sequences of control characters switch on
and off. Written elsewhere, a text loses all such sequences, those of a style and any others that it
happens to hold, and of the control characters it keeps only blanks and line breaks.
-/
namespace Planimeter.Text.Terminal

/-- What a terminal is in the middle of. -/
inductive State where
  | ground
  /-- Behind an escape character, and behind characters that belong to it. -/
  | escape
  | escapeMiddle
  /-- In a control sequence, which a letter ends. -/
  | control
  /-- In front of a string for a device, by what was met of its head. -/
  | deviceStart
  | deviceParameter
  | deviceMiddle
  /-- In a string, which the octet `0x9C` ends, also as part of a character. -/
  | string
  /-- In a command to the system, which a bell ends. -/
  | command
  deriving DecidableEq, Repr

/-- Ends a string. -/
def stringEnd : UInt8 := 0x9C

/-- A blank or line break of ASCII other than the space. -/
def isLayout (c : Char) : Bool := c == '\t' || c == '\n' || c == '\x0c' || c == '\r'

namespace State

/-- The state behind a character. An escape character begins anew wherever it stands, and two other
control characters end whatever was begun. -/
def next (s : State) (c : Char) : State :=
  let n := c.toNat
  if n = 0x1B then escape
  else if n = 0x18 ∨ n = 0x1A then ground
  else if 0x80 ≤ n then
    if s = string ∧ c.toString.toUTF8.toList.contains stringEnd then ground else s
  else if n = 0x7F ∨ (n < 0x20 ∧ (s ≠ command ∨ n ≠ 0x07)) then s
  else
    match s with
    | ground => ground
    | escape =>
      if n < 0x30 then escapeMiddle
      else match c with
        | '[' => control
        | ']' => command
        | 'P' => deviceStart
        | 'X' | '^' | '_' => string
        | _ => ground
    | escapeMiddle => if n < 0x30 then escapeMiddle else ground
    | control => if n < 0x40 then control else ground
    | deviceStart =>
      if n < 0x30 then deviceMiddle else if n < 0x40 then deviceParameter else string
    | deviceParameter =>
      if n < 0x30 then deviceMiddle else if n < 0x3C then deviceParameter else string
    | deviceMiddle => if n < 0x30 then deviceMiddle else string
    | string => string
    | command => if n = 0x07 then ground else command

/-- A character shows. Blanks and line breaks do so in the middle of a sequence as well. -/
def shows (s : State) (c : Char) : Bool :=
  match s with
  | ground => isLayout c || (0x20 ≤ c.toNat && c.toNat != 0x7F)
  | escape | escapeMiddle | control => isLayout c
  | _ => false

end State

/-- The characters of a text that show. Once one shows, so do those behind it, up to a control
character, where a sequence goes on that it may have stood in. -/
def shownChars (s : State) (isShowing : Bool) : List Char → List Char
  | [] => []
  | c :: cs =>
    if (if isShowing then State.ground else s).shows c then
      c :: shownChars (if c.toNat < 0x80 then s else .ground) true cs
    else shownChars (s.next c) false cs

/-- What is left of a text that is written elsewhere than to a terminal. -/
def shown (text : String) : String := String.ofList (shownChars .ground false text.toList)

/-- A text in a style. -/
def styled (text : String) : String := "\x1b[1m" ++ text ++ "\x1b[0m"

end Planimeter.Text.Terminal
