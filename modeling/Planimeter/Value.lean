import Planimeter.Binary.Decimal
import Planimeter.Text.Quoted
/-!
# Values

What a source of settings holds before it is given a meaning: scalars of several kinds, lists, and
tables of named values. An integer keeps whether it was read as unsigned or signed, in 64 bits or,
if it does not fit, in 128.
-/
namespace Planimeter

inductive Width where
  | w64 | w128
  deriving DecidableEq, Repr

/-- The number of integers of a width. -/
def Width.size : Width → Nat
  | .w64 => UInt64.size
  | .w128 => UInt64.size * UInt64.size

inductive Value where
  | null
  | bool (b : Bool)
  | unsigned (width : Width) (n : Nat)
  | signed (width : Width) (n : Int)
  | float (x : Binary64)
  | char (c : Char)
  | text (s : String)
  | list (items : List Value)
  | table (entries : List (String × Value))
  deriving Repr

/-- A table with one more entry, which takes the place of one with the same name. -/
def setEntry (entries : List (String × α)) (name : String) (value : α) : List (String × α) :=
  match entries with
  | [] => [(name, value)]
  | (other, v) :: rest =>
    if other = name then (name, value) :: rest else (other, v) :: setEntry rest name value

end Planimeter
