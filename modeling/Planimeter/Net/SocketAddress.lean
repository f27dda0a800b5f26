import Planimeter.Text.Digit
import Planimeter.Text.Reader
/-!
# Socket addresses

An address of version 4 or 6 with a port. A text of an address may write zeros and embed an address
of version 4 in several ways; the canonical text is one of them.
-/
namespace Planimeter

/-- An address of version 4. -/
structure Ipv4 where
  a : Fin 256
  b : Fin 256
  c : Fin 256
  d : Fin 256
  deriving DecidableEq, Repr

/-- A sixteenth of an address of version 6. -/
abbrev Group := Fin 65536

/-- An address of version 6. -/
structure Ipv6 where
  groups : List Group
  length_groups : groups.length = 8
  deriving DecidableEq, Repr

inductive SocketAddress where
  | v4 (address : Ipv4) (port : Fin 65536)
  | v6 (address : Ipv6) (scope : Fin UInt32.size) (port : Fin 65536)
  deriving DecidableEq, Repr

namespace SocketAddress

open Text (Reader)

/-- Reads the digits in front as a number below `bound`; there may be at most `most` of them. -/
def number (base bound : Nat) (most : Option Nat) : Reader (Fin bound) := do
  let digits ← Reader.takeWhile fun c => (Text.digit? base c).isSome
  if most.any (· < digits.length) then Reader.fail
  let n ← Reader.ofOption (Text.natural? base digits)
  if h : n < bound then return ⟨n, h⟩ else Reader.fail

/-- A number of an address of version 4 has at most three digits and no needless zero in front. -/
def byte : Reader (Fin 256) := fun cs => do
  let (n, rest) ← number 10 256 (some 3) cs
  if cs.head? = some '0' ∧ rest.length + 1 < cs.length then none else some (n, rest)

def ipv4 : Reader Ipv4 := do
  let a ← byte
  Reader.char '.'
  let b ← byte
  Reader.char '.'
  let c ← byte
  Reader.char '.'
  let d ← byte
  return ⟨a, b, c, d⟩

/-- Two bytes as a group. -/
def group (high low : Fin 256) : Group := ⟨256 * high + low, by omega⟩

/-- Reads something that follows a colon, unless it is the first. -/
def separated (isFirst : Bool) (r : Reader α) : Reader α := do
  if !isFirst then Reader.char ':'
  r

/-- Reads up to `most` groups, the last two of which may be written as an address of version 4;
tells whether they are. -/
def groups : (most : Nat) → (isFirst : Bool) → List Char → (List Group × Bool) × List Char
  | 0, _, cs => (([], false), cs)
  | most + 1, isFirst, cs =>
    match if most = 0 then none else separated isFirst ipv4 cs with
    | some (x, rest) => (([group x.a x.b, group x.c x.d], true), rest)
    | none =>
      match separated isFirst (number 16 65536 (some 4)) cs with
      | some (g, rest) =>
        let ((gs, embeds), rest) := groups most false rest
        ((g :: gs, embeds), rest)
      | none => (([], false), cs)

/-- Two lists of groups with zeros between them, if together they have at most eight. -/
def ofParts? (head tail : List Group) : Option Ipv6 :=
  if h : head.length + tail.length ≤ 8 then
    some ⟨head ++ List.replicate (8 - head.length - tail.length) 0 ++ tail, by simp; omega⟩
  else none

/-- Reads eight groups, or fewer with two colons for at least one group of zeros. -/
def ipv6 : Reader Ipv6 := do
  let (head, embeds) ← fun cs => some (groups 8 true cs)
  if head.length = 8 then Reader.ofOption (ofParts? head [])
  else if embeds then Reader.fail
  else
    Reader.char ':'
    Reader.char ':'
    let (tail, _) ← fun cs => some (groups (7 - head.length) true cs)
    Reader.ofOption (ofParts? head tail)

/-- Reads the zone of an address, which is zero if there is none. -/
def scope : Reader (Fin UInt32.size) :=
  Reader.or (do Reader.char '%'; number 10 UInt32.size none) (return 0)

def port : Reader (Fin 65536) := do
  Reader.char ':'
  number 10 65536 none

def readV4 : Reader SocketAddress := return v4 (← ipv4) (← port)

def readV6 : Reader SocketAddress := do
  Reader.char '['
  let address ← ipv6
  let scope ← scope
  Reader.char ']'
  return v6 address scope (← port)

/-- The address that a text denotes. -/
def parse? (text : String) : Option SocketAddress :=
  (Reader.or readV4 readV6).whole? text.toList

end SocketAddress

namespace Ipv4

def text (x : Ipv4) : String := s!"{x.a}.{x.b}.{x.c}.{x.d}"

end Ipv4

namespace Ipv6

/-- The address of version 4 that is embedded after five zeros and a group of ones. -/
def mapped? (x : Ipv6) : Option Ipv4 :=
  match x.groups with
  | [0, 0, 0, 0, 0, 65535, g, h] =>
    some ⟨.ofNat 256 (g / 256), .ofNat 256 (g % 256), .ofNat 256 (h / 256), .ofNat 256 (h % 256)⟩
  | _ => none

/-- The start and length of the first longest run of zeros. -/
def longestZeros : List Group → Nat × Nat
  | [] => (0, 0)
  | g :: gs =>
    let here := ((g :: gs).takeWhile (· = 0)).length
    let (start, length) := longestZeros gs
    if length ≤ here then (0, here) else (start + 1, length)

def groupsText (gs : List Group) : String := ":".intercalate (gs.map fun g => Text.hex g.val)

/-- The groups between colons; a run of two or more zeros is left out. -/
def text (x : Ipv6) : String :=
  match x.mapped? with
  | some v4 => s!"::ffff:{v4.text}"
  | none =>
    let (start, length) := longestZeros x.groups
    if 2 ≤ length then
      s!"{groupsText (x.groups.take start)}::{groupsText (x.groups.drop (start + length))}"
    else groupsText x.groups

end Ipv6

namespace SocketAddress

/-- The canonical text. -/
def text : SocketAddress → String
  | v4 address port => s!"{address.text}:{port}"
  | v6 address scope port =>
    if scope = 0 then s!"[{address.text}]:{port}" else s!"[{address.text}%{scope}]:{port}"

end SocketAddress

end Planimeter
