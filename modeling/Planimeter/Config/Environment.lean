import Planimeter.Config.Layer
import Planimeter.Text.Blank
import Planimeter.Text.Reader
import Planimeter.Text.Slice
/-!
# Settings from the environment

A variable whose name begins as agreed sets the value that the rest of its name leads to. Its text
is read as a truth value, a table, a list, a quoted text, a character in quotes, or a number; any
other text stands for itself.
-/
namespace Planimeter.Environment

open Text (Reader)

def isSpace (c : Char) : Bool :=
  c == ' ' || c == '\t' || c == '\n' || c == '\x0c' || c == '\r'

def skipSpaces : Reader Unit := do
  let _ ← Reader.takeWhile isSpace

/-- The characters of a name without quotes. -/
def isBare (c : Char) : Bool := c.isAlphanum || c == '_' || c == '-'

/-- The characters that end a value without quotes. -/
def isDelimiter (c : Char) : Bool :=
  c == ',' || c == '\x7b' || c == '\x7d' || c == '[' || c == ']'

/-- The characters with an escape of one letter. -/
def escaped? : Char → Option Char
  | '\x22' => some '\x22'
  | '\\' => some '\\'
  | 'b' => some '\x08'
  | 'f' => some '\x0c'
  | 'n' => some '\n'
  | 'r' => some '\r'
  | 't' => some '\t'
  | _ => none

/-- The character with a code point of `width` hexadecimal digits, and what follows them. -/
def codePoint? (width : Nat) (cs : List Char) : Option Char := do
  let digits := cs.take width
  if digits.length < width then none
  let n ← Text.natural? 16 digits
  if h : n.isValidChar then some (.ofNatAux n h) else none

/-- A character that stands for itself between quotes. -/
def isQuotable (c : Char) : Bool := c == '\t' || (0x20 ≤ c.toNat && c.toNat != 0x7F)

/-- A reader of values may also stop at a fault. -/
abbrev ValueReader := StateT (List Char) (OptionT (Except Fault))

instance : MonadLift Reader ValueReader where
  monadLift r := fun cs => OptionT.mk (pure (r cs))

/-- A quoted text whose escapes are resolved up to a character. -/
structure Unescaping where
  /-- The text between the quotes. -/
  whole : List Char
  /-- The number of its characters so far. -/
  count : Nat := 0
  /-- The result so far, backwards, if there was an escape. -/
  resolved : Option (List Char) := none
  deriving Repr

namespace Unescaping

/-- Goes on behind `count` characters that stand for one. -/
def take (c : Char) (count : Nat) (u : Unescaping) : Unescaping :=
  { u with count := u.count + count, resolved := u.resolved.map (c :: ·) }

/-- Notes that an escape begins. What precedes the first one is cut off the text at the position
whose number is the count of its characters, so that of a text with longer characters only a part
is kept, and there is a fault if that ends inside a character. -/
def atEscape (u : Unescaping) : Except Fault Unescaping := do
  let lead ← Text.slice 0 u.count u.whole
  return { u with resolved := some (u.resolved.getD lead.reverse) }

/-- Resolves the rest. `skip` characters of it belong to an escape before. -/
def rest (skip : Nat) (isEscape : Bool) (u : Unescaping) :
    List Char → OptionT (Except Fault) (List Char)
  | [] => do
    if isEscape then failure
    return (u.resolved.map List.reverse).getD u.whole
  | c :: cs => do
    if 0 < skip then rest (skip - 1) false u cs
    else if isEscape then
      match escaped? c with
      | some c => rest 0 false (u.take c 2) cs
      | none =>
        let width ← if c = 'u' then pure 4 else if c = 'U' then pure 8 else failure
        let some c := codePoint? width cs | failure
        rest width false (u.take c (2 + width)) cs
    else if c = '\\' then rest 0 true (← u.atEscape) cs
    else if isQuotable c then rest 0 false (u.take c 1) cs
    else failure

end Unescaping

/-- Resolves the escapes of a text between quotes. -/
def unescape (inside : List Char) : OptionT (Except Fault) (List Char) :=
  Unescaping.rest 0 false { whole := inside } inside

/-- The characters up to a quote that no backslash escapes. -/
def untilQuote (isEscape : Bool) : List Char → List Char × List Char
  | [] => ([], [])
  | c :: cs =>
    if c = '\x22' ∧ !isEscape then ([], c :: cs)
    else
      let (inside, rest) := untilQuote (c = '\\' && !isEscape) cs
      (c :: inside, rest)

def quotedText : ValueReader String := do
  Reader.char '\x22'
  let inside ← fun cs => OptionT.mk (pure (some (untilQuote false cs)))
  Reader.char '\x22'
  return String.ofList (← (unescape inside : OptionT (Except Fault) (List Char)))

/-- The name of an entry of a table. -/
def name : ValueReader String := do
  skipSpaces
  let text ← do
    if (← Reader.peek?) = some '\x22' then quotedText
    else
      let cs ← Reader.takeWhile isBare
      if cs.isEmpty then Reader.fail
      pure (String.ofList cs)
  skipSpaces
  return text

/-- The value of a text without quotes: a number with a point, an integer of 64 bits, or the
text. -/
def plain (text : String) : Value :=
  let float? : Option Binary64 := if text.contains '.' then (Binary.ofText text).toOption else none
  match float?, text.toList with
  | some x, _ => .float x
  | none, '-' :: digits =>
    match Text.natural? 10 digits with
    | some n => if n ≤ Width.w64.size / 2 then .signed .w64 (-n) else .text text
    | none => .text text
  | none, cs =>
    match Text.natural? 10 (Numeral.splitSign cs).2 with
    | some n => if n < Width.w64.size then .unsigned .w64 n else .text text
    | none => .text text

/-- Reads a given word. -/
def word (cs : List Char) : Reader Unit := cs.forM Reader.char

/-- Reads items with commas between them up to a closing character, which may follow a comma. -/
def items (read : ValueReader α) (closing : Char) : Nat → ValueReader (List α)
  | 0 => failure
  | steps + 1 => do
    if (← Reader.peek?) = some closing then
      Reader.char closing
      return []
    let a ← read
    if (← Reader.peek?) = some ',' then
      Reader.char ','
      return a :: (← items read closing steps)
    Reader.char closing
    return [a]

/-- Reads items between two characters. -/
def bracketed (opening closing : Char) (read : ValueReader α) : ValueReader (List α) := do
  Reader.char opening
  fun cs => items read closing (cs.length + 1) cs

/-- Reads an entry of a table; `value` reads its value. -/
def entry (value : ValueReader Value) : ValueReader (String × Value) := do
  let name ← name
  Reader.char '='
  return (name, ← value)

def character : Reader Char := do
  Reader.char '\x27'
  let c ← Reader.anyChar
  Reader.char '\x27'
  return c

/-- Reads a value that is no truth value; `value` reads the values in it. -/
def other (value : ValueReader Value) : ValueReader Value := do
  match ← Reader.peek? with
  | some '\x7b' =>
    let entries ← bracketed '\x7b' '\x7d' (entry value)
    return .table (entries.foldl (fun table (name, v) => setEntry table name v) [])
  | some '[' => return .list (← bracketed '[' ']' value)
  | some '\x22' => return .text (← quotedText)
  | some '\x27' => return .char (← character)
  | _ =>
    let cs ← Reader.takeWhile fun c => !isDelimiter c
    return plain (String.ofList (Text.trim cs))

def truthValue : ValueReader Value :=
  (do word "true".toList; return .bool true) <|> (do word "false".toList; return .bool false)

/-- Reads a value with spaces around it. Lists and tables may lie inside each other up to a
depth. -/
def value : (depth : Nat) → ValueReader Value
  | 0 => failure
  | depth + 1 => do
    skipSpaces
    let v ← truthValue <|> other (value depth)
    skipSpaces
    return v

/-- The value of a variable. A text that is not read to its end stands for itself. -/
def valueOf (text : String) : Except Fault Value := do
  match ← (value (text.length + 1) text.toList).run with
  | some (v, []) => return v
  | _ => return .text text

/-- How the names of variables for the service begin. -/
def namePrefix : String := "AREA_CALCULATOR__"

/-- Puts a point for each pair of underscores. -/
def pointed : List Char → List Char
  | '_' :: '_' :: cs => '.' :: pointed cs
  | c :: cs => c :: pointed cs
  | [] => []

/-- The path that a variable leads to, if it is one for the service; case does not matter. -/
def path? (name : String) : Option (List String) := do
  let cs := Text.trim name.toList
  let lead := namePrefix.toList
  if (cs.take lead.length).map Char.toLower ≠ lead.map Char.toLower then none
  let names := Text.pieces '.' (Text.trim (pointed (cs.drop lead.length)))
  if names.any List.isEmpty then none
  return names.map fun cs => String.ofList (cs.map Char.toLower)

/-- The settings of an environment, a later variable laid over an earlier one. -/
def settings (environment : List (String × String)) : Except Fault Setting :=
  environment.foldlM (fun below (name, text) => do
    match path? name with
    | some path => return below.overlay (Setting.atPath .environment (← valueOf text) path)
    | none => return below) (.table .environment [])

/-- The variables after each was set in turn. One that is set again keeps its place. -/
def assigned (entries : List (String × String)) : List (String × String) :=
  entries.foldl (fun environment (name, text) => setEntry environment name text) []

/-- The entries as a program that is started with them finds them: in the order of their names. -/
def inherited (entries : List (String × String)) : List (String × String) :=
  (assigned entries).mergeSort fun a b => a.1 ≤ b.1

end Planimeter.Environment
