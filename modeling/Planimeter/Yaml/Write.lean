import Planimeter.Text.Blank
import Planimeter.Text.Digit
/-!
# Writing scalars

A text is written as a plain scalar if that reads back to it, as far as its characters alone can
tell. A long one is folded, one with several lines is a literal block scalar, and any other is put
between quotes.
-/
namespace Planimeter.Yaml.Write

/-- The words that some reader takes for a truth value, in lower case. -/
def truthWords : List String := ["true", "false", "yes", "no", "y", "n", "on", "off"]

/-- The other words that some reader takes for something else than a text, in lower case. -/
def reservedWords : List String :=
  ["~", "null", "nan", "inf", "+inf", "-inf", ".inf", "+.inf", "-.inf", ".nan", "+.nan", "-.nan"]

/-- A text that some reader takes for a truth value, which may have blanks around it, or for another
word with a meaning. -/
def isReserved (cs : List Char) : Bool :=
  let word (cs : List Char) := String.ofList (cs.map Char.toLower)
  truthWords.contains (word (Text.trim cs)) || reservedWords.contains (word cs)

/-- Digits of a base and underscores, at least one of them. -/
def isDigits (base : Nat) (cs : List Char) : Bool :=
  !cs.isEmpty && cs.all fun c => (Text.digit? base c).isSome || c == '_'

/-- A part of a decimal other than its first digit. -/
def isFigure (c : Char) : Bool := c.isDigit || c == '_'

/-- What follows a digit and further digits or underscores, if there is one in front. -/
def afterDigits? : List Char → Option (List Char)
  | [] => none
  | c :: cs => if c.isDigit then some (cs.dropWhile isFigure) else none

/-- Nothing, or an exponent. -/
def isExponent : List Char → Bool
  | [] => true
  | c :: cs =>
    let digits := match cs with
      | '+' :: cs => cs
      | '-' :: cs => cs
      | cs => cs
    (c == 'e' || c == 'E') && afterDigits? digits == some []

/-- An integer or decimal without a sign. An underscore does not come first, save behind the letter
of a base or behind a point that follows digits. -/
def isUnsignedNumber : List Char → Bool
  | '0' :: 'x' :: cs => isDigits 16 cs
  | '0' :: 'o' :: cs => isDigits 8 cs
  | '0' :: 'b' :: cs => isDigits 2 cs
  | '.' :: cs => (afterDigits? cs).any isExponent
  | cs =>
    match afterDigits? cs with
    | none => false
    | some ('.' :: cs) => isExponent (cs.dropWhile isFigure)
    | some cs => isExponent cs

/-- A text that some reader takes for a number. -/
def isNumber : List Char → Bool
  | '+' :: cs => isUnsignedNumber cs
  | '-' :: cs => isUnsignedNumber cs
  | cs => isUnsignedNumber cs

/-- The characters that no plain text begins with. -/
def isFirstIndicator (c : Char) : Bool :=
  " -?:[]\x7b\x7d#&*!|>\x27\x22%@\x60".toList.contains c

/-- The control characters of ASCII and Latin-1. -/
def isControl (c : Char) : Bool := c.toNat < 0x20 || (0x7F ≤ c.toNat && c.toNat < 0xA0)

/-- The characters that no plain text contains. -/
def isExcluded (c : Char) : Bool := ",[]\x7b\x7d#".toList.contains c || isControl c

def hasColonGap : List Char → Bool
  | ':' :: ' ' :: _ => true
  | _ :: cs => hasColonGap cs
  | [] => false

/-- The text may stand without quotes. -/
def isPlain (cs : List Char) : Bool :=
  match cs with
  | [] => false
  | first :: _ =>
    !(isReserved cs || isNumber cs || isFirstIndicator first || hasColonGap cs
      || (Text.trim cs).getLast? == some ':' || cs.any isExcluded)

/-- A number below 256 as two digits. -/
def octet (n : Nat) : List Char := (Nat.toDigits 16 (0x100 + n)).tail.map Char.toUpper

def escape (c : Char) : List Char :=
  match c with
  | '\\' => ['\\', '\\']
  | '\x22' => ['\\', '\x22']
  | '\x00' => ['\\', '0']
  | '\x07' => ['\\', 'a']
  | '\x08' => ['\\', 'b']
  | '\t' => ['\\', 't']
  | '\n' => ['\\', 'n']
  | '\x0b' => ['\\', 'v']
  | '\x0c' => ['\\', 'f']
  | '\r' => ['\\', 'r']
  | '\x1b' => ['\\', 'e']
  | '\u0085' => ['\\', 'N']
  | '\u2028' => ['\\', 'L']
  | '\u2029' => ['\\', 'P']
  | '\ufeff' => "\\uFEFF".toList
  | c => if isControl c then '\\' :: 'x' :: octet c.toNat else [c]

/-- The text between quotes. -/
def quote (cs : List Char) : List Char := '\x22' :: cs.flatMap escape ++ ['\x22']

/-- The texts of one character that stand between single quotes. -/
def isLoneMark (cs : List Char) : Bool := cs == ['-'] || cs == ['#'] || cs == ['.']

/-- The indentation of the lines of a block scalar. -/
def margin : List Char := [' ', ' ', ' ', ' ']

def line (cs : List Char) : List Char := margin ++ cs ++ ['\n']

/-- The number of line feeds at the end. -/
def trailingBreaks (cs : List Char) : Nat := (cs.reverse.takeWhile (· == '\n')).length

/-- The text without the line feeds at its end. -/
def trimBreaks (cs : List Char) : List Char := (cs.reverse.dropWhile (· == '\n')).reverse

/-- A literal block scalar; each line feed at the end after the first is a line of its own. -/
def literal (cs : List Char) : List Char :=
  let breaks := trailingBreaks cs
  let indicator := match breaks with
    | 0 => ['|', '-']
    | 1 => ['|']
    | _ => ['|', '+']
  let lines := Text.pieces '\n' (trimBreaks cs) ++ List.replicate (breaks - 1) []
  indicator ++ '\n' :: lines.flatMap line

/-- The length of a line beyond which it is broken. -/
def lineLength : Nat := 80

/-- A text of more bytes is folded. -/
def foldLength : Nat := 80

/-- Breaks a text into lines. `line` is the line so far, backwards, and `word` the number of its
characters behind its last blank, if it has one. `column` tells when the line is too long; what a
line has already when the line before it is broken does not count. Blanks are taken together. -/
def fold (line : List Char) (column : Nat) (word : Option Nat) : List Char → List (List Char)
  | [] => [line.reverse]
  | c :: cs =>
    let line := c :: line
    let column := column + 1
    let word := if Text.isBlank c then some 0 else word.map (· + 1)
    let isInGap := Text.isBlank c && cs.head?.any Text.isBlank
    match if isInGap || column ≤ lineLength then none else word with
    | none => fold line column word cs
    | some length => (line.drop (length + 1)).reverse :: fold (line.take length) 0 none cs

/-- A folded block scalar: a line is broken at its last blank, which the break stands for. -/
def folded (cs : List Char) : List Char :=
  '>' :: '-' :: '\n' :: (fold [] 0 none cs).flatMap line

/-- A text as the value of a key two levels down, with the line feed that ends it. -/
def scalar (cs : List Char) : List Char :=
  if cs.contains '\n' then
    let flat := (trimBreaks cs).map fun c => if c = '\n' then ' ' else c
    if isPlain flat then literal cs else quote cs ++ ['\n']
  else if isLoneMark cs then '\x27' :: cs ++ ['\x27', '\n']
  else if !isPlain cs then quote cs ++ ['\n']
  else if foldLength < (String.ofList cs).utf8ByteSize then folded cs
  else cs ++ ['\n']

end Planimeter.Yaml.Write
