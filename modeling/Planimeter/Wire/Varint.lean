import Planimeter.Wire.Input
/-!
# Variable-length integers

A number below two to the power of 64 is written in groups of seven bits, the lowest group first,
each in a byte whose high bit says that another follows. Reading takes at most ten bytes, and of the
tenth only its lowest bit.
-/
namespace Planimeter.Wire

/-- The bytes of a number. -/
def encodeVarint (n : Nat) : List UInt8 :=
  if n < 128 then [.ofNat n] else .ofNat (n % 128 + 128) :: encodeVarint (n / 128)

/-- Reads a number of at most `groups` bytes, the last of which may only hold one bit. -/
def readGroups : (groups : Nat) → (i : Input) → Option (Nat × i.Shorter)
  | 0, _ => none
  | groups + 1, i => do
    let (b, ⟨r, hr⟩) ← i.next?
    if b < 128 then
      if groups = 0 && 1 < b then none else some (b.toNat, ⟨r, hr⟩)
    else
      let (high, ⟨s, hs⟩) ← readGroups groups r
      some (b.toNat - 128 + 128 * high, ⟨s, Nat.lt_trans hs hr⟩)

def readVarint (i : Input) : Option (Nat × i.Shorter) := readGroups 10 i

end Planimeter.Wire
