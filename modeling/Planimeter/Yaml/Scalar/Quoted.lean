import Planimeter.Text.Digit
import Planimeter.Yaml.Scalar.Gap
/-!
# Quoted scalars

Between single quotes only the quote itself is written in another way, twice. Between double quotes
a backslash begins an escape. Gaps are folded in both.
-/
namespace Planimeter.Yaml

inductive Quote where
  | single | double
  deriving DecidableEq, Repr

namespace Quote

def char : Quote → Char
  | single => '\x27'
  | double => '\x22'

end Quote

namespace QuotedScalar

/-- The characters with an escape of one letter. -/
def escaped? : Char → Option Char
  | '0' => some '\x00'
  | 'a' => some '\x07'
  | 'b' => some '\x08'
  | 't' | '\t' => some '\t'
  | 'n' => some '\n'
  | 'v' => some '\x0b'
  | 'f' => some '\x0c'
  | 'r' => some '\r'
  | 'e' => some '\x1b'
  | ' ' => some ' '
  | '\x22' => some '\x22'
  | '/' => some '/'
  | '\\' => some '\\'
  | 'N' => some '\u0085'
  | '_' => some '\u00a0'
  | 'L' => some '\u2028'
  | 'P' => some '\u2029'
  | _ => none

/-- The number of hexadecimal digits after a letter that announces a code point. -/
def hexWidth? : Char → Option Nat
  | 'x' => some 2
  | 'u' => some 4
  | 'U' => some 8
  | _ => none

/-- The character with a code point; a half of a pair of surrogates is none. -/
def ofCodePoint? (n : Nat) : Option Char :=
  if h : n.isValidChar then some (.ofNatAux n h) else none

/-- What is being read inside a quoted scalar. -/
inductive Stage where
  | word
  | gap (gap : Gap)
  /-- After a quote that may be the first of two. -/
  | quote
  /-- After a backslash. -/
  | escape (backslash : Mark)
  /-- Inside a code point, `left` digits before its end. -/
  | codePoint (left value : Nat) (first : Mark)
  deriving Repr

/-- Reads one more character of a word. -/
def wordStage (quote : Quote) (g : Glyph) : Option Stage :=
  if g.char = quote.char then some .quote
  else if quote = .double ∧ g.char = '\\' then some (.escape g.mark)
  else if isBlank g.char then some (.gap (.blanks [g.char]))
  else if isBreak g.char then some (.gap (.folded [g.char]))
  else none

/-- Reads on after the opening quote. `text` is the text so far, backwards. -/
def scan (quote : Quote) (start : Mark) (stage : Stage) (text : List Char) :
    Source → Lexed (List Char)
  | [] => failAt .quotedScalar start .zero .unfinishedScalar
  | g :: rest =>
    let word (text : List Char) : Lexed (List Char) :=
      if isFinish g.char then failAt .quotedScalar start g.mark .unfinishedScalar
      else match wordStage quote g with
        | some .quote =>
          if quote = .double then .ok (text.reverse, rest) else scan quote start .quote text rest
        | some stage => scan quote start stage text rest
        | none => scan quote start .word (g.char :: text) rest
    match stage with
    | .word => word text
    | .gap gap =>
      if isBlank g.char then scan quote start (.gap (gap.addBlank g.char)) text rest
      else if isBreak g.char then scan quote start (.gap (gap.addBreak g.char)) text rest
      else if Source.isDocumentMark (g :: rest) then
        failAt .quotedScalar start g.mark .documentMarkInScalar
      else word (gap.text.reverse ++ text)
    | .quote =>
      if g.char = quote.char then scan quote start .word (g.char :: text) rest
      else .ok (text.reverse, g :: rest)
    | .escape backslash =>
      if isBreak g.char then scan quote start (.gap (.joined [])) text rest
      else match escaped? g.char, hexWidth? g.char with
        | some c, _ => scan quote start .word (c :: text) rest
        | none, some width =>
          scan quote start (.codePoint width 0 (Source.mark rest)) text rest
        | none, none => failAt .escape start backslash .unknownEscape
    | .codePoint left value first =>
      match Text.hexDigit? g.char with
      | none => failAt .escape start first .missingHexDigit
      | some digit =>
        let value := 16 * value + digit
        if 1 < left then scan quote start (.codePoint (left - 1) value first) text rest
        else match ofCodePoint? value with
          | some c => scan quote start .word (c :: text) rest
          | none => failAt .escape start first .badCodePoint

/-- Reads a quoted scalar off the front, which is the opening quote. -/
def read (quote : Quote) (s : Source) : Lexed (List Char) :=
  scan quote s.mark .word [] s.behind

end QuotedScalar

end Planimeter.Yaml
