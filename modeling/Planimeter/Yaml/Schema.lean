import Planimeter.Value
/-!
# The values of plain scalars

A scalar without quotes stands for the value that its text writes: nothing, a truth value, an
integer in one of four bases, a finite or special floating-point number, or else the text itself.
-/
namespace Planimeter.Yaml.Schema

def isNull (text : String) : Bool :=
  text == "null" || text == "Null" || text == "NULL" || text == "~"

def bool? (text : String) : Option Bool :=
  if text == "true" || text == "True" || text == "TRUE" then some true
  else if text == "false" || text == "False" || text == "FALSE" then some false
  else none

/-- Digits that begin with a zero are no number. -/
def isZeroPadded (cs : List Char) : Bool :=
  match (Numeral.splitSign cs).2 with
  | '0' :: c :: rest => (c :: rest).all Char.isDigit
  | _ => false

/-- The magnitude of an integer in another base than ten. -/
def radix? : List Char → Option Nat
  | '0' :: 'x' :: digits => Text.natural? 16 digits
  | '0' :: 'o' :: digits => Text.natural? 8 digits
  | '0' :: 'b' :: digits => Text.natural? 2 digits
  | _ => none

/-- The magnitude of an integer. -/
def magnitude? (cs : List Char) : Option Nat :=
  radix? cs <|> if isZeroPadded cs then none else Text.natural? 10 cs

/-- The integer that a text writes, if it is one of at most 128 bits. Only a text with a minus is
signed. -/
def integer? : List Char → Option Value
  | '-' :: cs => do
    let n ← magnitude? cs
    if n ≤ Width.w64.size / 2 then some (.signed .w64 (-n))
    else if n ≤ Width.w128.size / 2 then some (.signed .w128 (-n))
    else none
  | cs => do
    let n ← magnitude? (Numeral.splitSign cs).2
    if n < Width.w64.size then some (.unsigned .w64 n)
    else if n < Width.w128.size then some (.unsigned .w128 n)
    else none

def specialFloat? (text : String) : Option Binary64 :=
  match text with
  | ".inf" | ".Inf" | ".INF" | "+.inf" | "+.Inf" | "+.INF" => some (.infinite false)
  | "-.inf" | "-.Inf" | "-.INF" => some (.infinite true)
  | ".nan" | ".NaN" | ".NAN" => some (.nan false)
  | _ => none

/-- The floating-point number that a text writes; a numeral too large for a finite one is none. -/
def float? (text : String) : Option Binary64 :=
  specialFloat? text <|>
    match (Binary.ofText text : Except NumeralError Binary64) with
    | .ok x => if x.isNaN || x.isInfinite then none else some x
    | .error _ => none

/-- The value of a plain scalar. -/
def value (text : String) : Value :=
  if text.isEmpty || isNull text then .null
  else match bool? text, integer? text.toList with
    | some b, _ => .bool b
    | none, some v => v
    | none, none =>
      if isZeroPadded text.toList then .text text
      else match float? text with
        | some x => .float x
        | none => .text text

end Planimeter.Yaml.Schema
