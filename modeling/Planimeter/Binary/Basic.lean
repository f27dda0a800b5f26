/-!
# Binary floating point

A datum of a binary interchange format is a sign and a *rank*. Ranks count the magnitudes of the
format from zero upwards, subnormals first; the rank after the largest finite magnitude is infinity
and the ranks above that are NaNs. Read as a word, the rank is the stored exponent and fraction, so
a datum is its word and equality of data is equality of bits. Every finite magnitude is a whole
number of *units*, the unit being the least positive magnitude: exact arithmetic on data is
arithmetic on naturals, and rounding is the choice of a rank.
-/
namespace Planimeter

/-- A binary interchange format, given by the widths of its two stored fields. -/
structure Format where
  fractionBits : Nat
  exponentBits : Nat
  deriving DecidableEq, Repr

namespace Format

def single : Format := ⟨23, 8⟩

def double : Format := ⟨52, 11⟩

/-- The number of ranks in one binade. -/
def binade (F : Format) : Nat := Nat.pow 2 F.fractionBits

/-- The rank of infinity, the first one above all finite magnitudes. -/
def infinity (F : Format) : Nat := (Nat.pow 2 F.exponentBits - 1) * F.binade

/-- The number of ranks, which is the weight of the sign in a word. -/
def signWeight (F : Format) : Nat := Nat.pow 2 F.exponentBits * F.binade

/-- The unit is two to the power of minus this number. -/
def scale (F : Format) : Nat := Nat.pow 2 (F.exponentBits - 1) - 2 + F.fractionBits

theorem binade_pos (F : Format) : 0 < F.binade := Nat.two_pow_pos _

theorem infinity_add_binade (F : Format) : F.infinity + F.binade = F.signWeight := by
  have h : 0 < Nat.pow 2 F.exponentBits := Nat.two_pow_pos _
  rw [infinity, signWeight, ← Nat.succ_mul, Nat.succ_eq_add_one, Nat.sub_add_cancel h]

theorem infinity_lt (F : Format) : F.infinity < F.signWeight := by
  have := F.infinity_add_binade
  have := F.binade_pos
  omega

/-- The magnitude of a rank, in units. Infinity gets the magnitude that a next binade would open
with, which is what the rounding of an overflowing value is measured against. -/
def units (F : Format) (rank : Nat) : Nat :=
  let exponent := rank / F.binade
  let fraction := rank % F.binade
  if exponent = 0 then fraction else (F.binade + fraction) * Nat.pow 2 (exponent - 1)

/-- The rank nearest to `num / den` units, the even one of two equally near, and infinity from the
middle between the last finite magnitude and the binade after it. -/
def nearest (F : Format) (num den : Nat) : Nat :=
  let shift := (num / den).log2 - F.fractionBits
  let step := den * Nat.pow 2 shift
  let floor := num / step
  let rest := num % step
  let up := if step < 2 * rest then 1 else if 2 * rest = step then floor % 2 else 0
  min (shift * F.binade + floor + up) F.infinity

theorem nearest_le (F : Format) (num den : Nat) : F.nearest num den ≤ F.infinity :=
  Nat.min_le_right _ _

end Format

/-- A datum of the format. -/
structure Binary (F : Format) where
  negative : Bool
  rank : Nat
  rank_lt : rank < F.signWeight
  deriving DecidableEq, Repr

abbrev Binary32 := Binary Format.single

abbrev Binary64 := Binary Format.double

namespace Binary

variable {F : Format}

def isNaN (x : Binary F) : Bool := F.infinity < x.rank

def isInfinite (x : Binary F) : Bool := x.rank == F.infinity

def isZero (x : Binary F) : Bool := x.rank == 0

/-- The datum stored as a word; higher bits are ignored. -/
def ofBits (word : Nat) : Binary F where
  negative := word / F.signWeight % 2 == 1
  rank := word % F.signWeight
  rank_lt := Nat.mod_lt _ (Nat.zero_lt_of_lt F.infinity_lt)

/-- The word that stores a datum. -/
def toBits (x : Binary F) : Nat := (if x.negative then F.signWeight else 0) + x.rank

def zero : Binary F := ⟨false, 0, Nat.zero_lt_of_lt F.infinity_lt⟩

def infinite (negative : Bool) : Binary F := ⟨negative, F.infinity, F.infinity_lt⟩

/-- The quiet NaN without a payload. -/
def nan (negative : Bool) : Binary F where
  negative := negative
  rank := F.infinity + F.binade / 2
  rank_lt := by
    have := F.infinity_add_binade
    have := F.binade_pos
    omega

/-- The datum nearest to plus or minus `num / den` units. -/
def rounded (negative : Bool) (num den : Nat) : Binary F where
  negative := negative
  rank := F.nearest num den
  rank_lt := Nat.lt_of_le_of_lt (F.nearest_le num den) F.infinity_lt

instance : Inhabited (Binary F) := ⟨zero⟩

def neg (x : Binary F) : Binary F := { x with negative := !x.negative }

/-- A finite datum in units. -/
def toUnits (x : Binary F) : Int :=
  if x.negative then -(F.units x.rank : Int) else F.units x.rank

/-- A NaN with its quiet bit set. -/
def quiet (x : Binary F) : Binary F :=
  if h : x.rank < F.infinity + F.binade / 2 then
    { x with
      rank := x.rank + F.binade / 2
      rank_lt := by
        have := F.infinity_add_binade
        have := F.binade_pos
        omega }
  else x

/-- Takes every NaN to the one without sign and payload, and leaves all else. -/
def canonical (x : Binary F) : Binary F := if x.isNaN then nan false else x

/-- Turns a negative zero into a positive one and leaves all else. -/
def unsignZero (x : Binary F) : Binary F := if x.isZero then zero else x

end Binary

end Planimeter
