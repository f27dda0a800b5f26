import Planimeter.Binary.Basic
/-!
# Decimal text of binary data

Reading takes a decimal numeral of any length to the nearest datum, in one rounding from the exact
rational. Writing takes a datum to the fewest digits that read back to it, the nearest such digits,
laid out without an exponent.
-/
namespace Planimeter

/-- An unsigned numeral: a name of a special datum, or digits scaled by a power of ten. -/
inductive Numeral where
  | infinite
  | notANumber
  | decimal (digits : Nat) (exponent : Int)
  deriving DecidableEq, Repr

/-- Why a text is no numeral. -/
inductive NumeralError where
  | empty
  | malformed
  deriving DecidableEq, Repr

def NumeralError.message : NumeralError → String
  | .empty => "cannot parse float from empty string"
  | .malformed => "invalid float literal"

namespace Numeral

/-- The number that decimal digits write. -/
def ofDigits (digits : List Char) : Nat :=
  digits.foldl (fun n c => 10 * n + (c.toNat - '0'.toNat)) 0

/-- The digits of an exponent; those that follow a prior value of 65536 or more are ignored. -/
def exponentOfDigits (digits : List Char) : Nat :=
  digits.foldl (fun n c => if n < 65536 then 10 * n + (c.toNat - '0'.toNat) else n) 0

/-- Splits a sign off a text; no sign counts as plus. -/
def splitSign : List Char → Bool × List Char
  | '-' :: cs => (true, cs)
  | '+' :: cs => (false, cs)
  | cs => (false, cs)

/-- What may follow the digits of a numeral: nothing, or an exponent with at least one digit. -/
def exponent? : List Char → Option Int
  | [] => some 0
  | c :: cs =>
    let (negative, digits) := splitSign cs
    if (c = 'e' || c = 'E') && !digits.isEmpty && digits.all Char.isDigit then
      let n : Int := exponentOfDigits digits
      some (if negative then -n else n)
    else none

/-- Reads digits with at most one point among or around them, then an optional exponent. -/
def decimal? (cs : List Char) : Option Numeral :=
  let whole := cs.takeWhile Char.isDigit
  let (fraction, rest) := match cs.dropWhile Char.isDigit with
    | '.' :: r => (r.takeWhile Char.isDigit, r.dropWhile Char.isDigit)
    | r => ([], r)
  if whole.isEmpty && fraction.isEmpty then none
  else (exponent? rest).map fun e => decimal (ofDigits (whole ++ fraction)) (e - fraction.length)

def ofChars? (cs : List Char) : Option Numeral :=
  match String.ofList (cs.map Char.toLower) with
  | "inf" | "infinity" => some infinite
  | "nan" => some notANumber
  | _ => decimal? cs

end Numeral

namespace Binary

variable {F : Format}

/-- The datum nearest to plus or minus `digits * 10 ^ exponent`. -/
def ofDecimal (negative : Bool) (digits : Nat) (exponent : Int) : Binary F :=
  rounded negative (digits * Nat.pow 10 exponent.toNat * Nat.pow 2 F.scale)
    (Nat.pow 10 (-exponent).toNat)

def ofNumeral (negative : Bool) : Numeral → Binary F
  | .infinite => infinite negative
  | .notANumber => nan negative
  | .decimal digits exponent => ofDecimal negative digits exponent

/-- Reads an optional sign and a numeral that fill the text. -/
def ofText (text : String) : Except NumeralError (Binary F) :=
  let (negative, body) := Numeral.splitSign text.toList
  if text.isEmpty then .error .empty
  else match Numeral.ofChars? body with
    | some numeral => .ok (ofNumeral negative numeral)
    | none => .error .malformed

end Binary

/-- Digits scaled by a power of ten. -/
structure Decimal where
  digits : Nat
  exponent : Int
  deriving DecidableEq, Repr

namespace Format

/-- Whether a decimal grid point rounds to the rank. Twice the point, in units scaled up to a power
of ten, is held against the sums of the rank's magnitude with its two neighbours; a tie rounds to
the rank if it is even. -/
def readsBack (F : Format) (rank point : Nat) : Bool :=
  let low := (F.units (rank - 1) + F.units rank) * Nat.pow 5 F.scale
  let high := (F.units rank + F.units (rank + 1)) * Nat.pow 5 F.scale
  if rank % 2 = 0 then low ≤ 2 * point && 2 * point ≤ high
  else low < 2 * point && 2 * point < high

/-- The coarsest of the grids of `10 ^ places` and finer that has a point reading back to the rank,
and its point nearest to the magnitude, the upper one of two equally near. -/
def coarsest (F : Format) (rank : Nat) : Nat → Decimal
  | 0 => ⟨F.units rank * Nat.pow 5 F.scale, -F.scale⟩
  | places + 1 =>
    let exact := F.units rank * Nat.pow 5 F.scale
    let grid := Nat.pow 10 (places + 1)
    let below := exact / grid
    let exponent : Int := (places + 1 : Nat) - F.scale
    match F.readsBack rank (below * grid), F.readsBack rank ((below + 1) * grid) with
    | true, true => ⟨if 2 * (exact % grid) < grid then below else below + 1, exponent⟩
    | true, false => ⟨below, exponent⟩
    | false, true => ⟨below + 1, exponent⟩
    | false, false => F.coarsest rank places

/-- The fewest digits that read back to a finite rank other than zero. The search starts at a grid
too coarse to have a point below twice the magnitude. -/
def shortest (F : Format) (rank : Nat) : Decimal :=
  F.coarsest rank ((F.units rank * Nat.pow 5 F.scale).log2 / 3 + 2)

end Format

/-- The digits with the point in its place and no exponent. -/
def Decimal.layout (d : Decimal) : List Char :=
  let digits := Nat.toDigits 10 d.digits
  let places := (-d.exponent).toNat
  if places = 0 then digits ++ List.replicate d.exponent.toNat '0'
  else if places < digits.length then
    digits.take (digits.length - places) ++ '.' :: digits.drop (digits.length - places)
  else '0' :: '.' :: List.replicate (places - digits.length) '0' ++ digits

namespace Binary

variable {F : Format}

/-- The text of a datum: the sign of all but NaN, and the shortest digits that read back. -/
def text (x : Binary F) : String :=
  if x.isNaN then "NaN"
  else
    let magnitude :=
      if x.isInfinite then ['i', 'n', 'f']
      else if x.isZero then ['0']
      else (F.shortest x.rank).layout
    String.ofList (if x.negative then '-' :: magnitude else magnitude)

end Binary

end Planimeter
