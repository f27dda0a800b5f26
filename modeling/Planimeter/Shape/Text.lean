import Planimeter.Binary.Decimal
import Planimeter.Shape.Basic
import Planimeter.Text.Blank
/-!
# The text form of a shape

A shape is written `kind=dimension,dimension,…`. Reading forgives blanks around the kind and the
dimensions and the case of the kind, and counts the dimensions before it reads any of them.
-/
namespace Planimeter.Shape

/-- Why a text is no shape. -/
inductive TextError where
  | missingSeparator (text : String)
  | unknownKind (name : String)
  | arity (kind : Kind) (actual : Nat)
  | invalidNumber (value : String) (cause : NumeralError)
  deriving DecidableEq, Repr

def TextError.message : TextError → String
  | .missingSeparator text => s!"missing '=' in '{text}', expected <kind>=<dimensions>"
  | .unknownKind name => s!"unknown shape kind '{name}'"
  | .arity kind actual => s!"{kind.name} takes {kind.arity} dimension(s), got {actual}"
  | .invalidNumber value cause => s!"invalid dimension '{value}': {cause.message}"

/-- Reads one dimension from a trimmed piece. -/
def readDim (piece : List Char) : Except TextError Binary32 :=
  let value := String.ofList piece
  (Binary.ofText value).mapError (TextError.invalidNumber value)

/-- Reads a shape from its text form. -/
def ofText (text : String) : Except TextError Shape := do
  let some (before, after) := Text.cut? '=' text.toList | throw (.missingSeparator text)
  let name := Text.lower (String.ofList (Text.trim before))
  let some kind := Kind.ofName? name | throw (.unknownKind name)
  let pieces := (Text.pieces ',' after).map Text.trim
  if pieces.length ≠ kind.arity then throw (.arity kind pieces.length)
  let dims ← pieces.mapM readDim
  let some shape := ofDims? kind dims | throw (.arity kind dims.length)
  return shape

/-- The text form of a shape. -/
def text (s : Shape) : String :=
  s.kind.name ++ "=" ++ ",".intercalate (s.dims.map Binary.text)

/-- The text of a shape that may be missing. -/
def textOrUnrecognized : Option Shape → String
  | some s => s.text
  | none => "<unrecognized>"

end Planimeter.Shape
