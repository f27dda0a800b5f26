import Planimeter.Text.Digit
import Planimeter.Yaml.Token.Property
/-!
# Directives

Lines before a document that tell its version or introduce a handle for tags.
-/
namespace Planimeter.Yaml

/-- Version numbers have at most nine digits. -/
def versionDigits : Nat := 9

def readVersionNumber (start : Mark) (s : Source) : Lexed Nat :=
  let digits := s.takeWhile Char.isDigit
  let rest := s.dropWhile Char.isDigit
  if versionDigits < digits.length then
    failAt .versionDirective start { s.mark with
      index := s.mark.index + versionDigits, column := s.column + versionDigits } .longVersionNumber
  else match Text.natural? 10 digits with
    | none => failAt .versionDirective start rest.mark .missingVersionNumber
    | some n => .ok (n, rest)

def readVersion (start : Mark) (s : Source) : Except SyntaxError (Token × Source) := do
  let (major, s) ← readVersionNumber start (s.dropWhile isBlank)
  if s.front ≠ '.' then failAt .versionDirective start s.mark .missingVersionPoint
  let (minor, s) ← readVersionNumber start s.behind
  return (.versionDirective major minor, s)

def readHandleDirective (start : Mark) (s : Source) : Except SyntaxError (Token × Source) := do
  let (handle, s) ← readHandle .directive start (s.dropWhile isBlank)
  if !isBlank s.front then failAt .handleDirective start s.mark .missingHandleGap
  let (lead, s) ← readSuffix .directive true [] start (s.dropWhile isBlank)
  if !isGap s.front then failAt .handleDirective start s.mark .missingTagGap
  return (.handleDirective handle lead, s)

/-- Reads a directive and the rest of its line off the front, which is a percent sign. -/
def readDirective (s : Source) : Except SyntaxError (Token × Source) := do
  let start := s.mark
  let name := s.behind.takeWhile isName
  let s := s.behind.dropWhile isName
  if name.isEmpty then failAt .directive start s.mark .missingDirectiveName
  if !isGap s.front then failAt .directive start s.mark .strayDirectiveCharacter
  let (token, s) ←
    if name = ['Y', 'A', 'M', 'L'] then readVersion start s
    else if name = ['T', 'A', 'G'] then readHandleDirective start s
    else failAt .directive start s.mark .unknownDirective
  let s := s.skipComment
  if isBreak s.front then return (token, s.behind)
  if isFinish s.front then return (token, s)
  failAt .directive start s.mark .missingLineEnd

end Planimeter.Yaml
