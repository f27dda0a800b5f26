import Planimeter.Binary.Arithmetic
import Planimeter.Proofs.Binary.Nearest
/-!
# Exact arithmetic, rounded once

What a datum stands for is a real number with a sign of its own, an infinity, or no number at all.
On these an operation is exact, and the result of the operation on data is the exact one rounded to
the nearest datum. The main statements say so for each operation on all data: subnormal ones, zeros
of either sign, infinities and NaNs included.
-/
namespace Planimeter

/-- The numbers that data stand for. Zero has a sign as every other number has. -/
inductive Exact where
  | nan
  | infinite (negative : Bool)
  | finite (negative : Bool) (magnitude : ℝ)

namespace Exact

/-- A magnitude with its sign as one real number. -/
def signed (negative : Bool) (magnitude : ℝ) : ℝ := if negative then -magnitude else magnitude

/-- A real number; the sign of zero is given apart. -/
noncomputable def ofReal (zeroNegative : Bool) (r : ℝ) : Exact :=
  .finite (if r = 0 then zeroNegative else decide (r < 0)) |r|

def neg : Exact → Exact
  | nan => nan
  | infinite n => infinite (!n)
  | finite n m => finite (!n) m

/-- A sum of zero is negative only if both terms are. -/
noncomputable def add : Exact → Exact → Exact
  | nan, _ => nan
  | _, nan => nan
  | infinite n, infinite n' => if n = n' then infinite n else nan
  | infinite n, finite _ _ => infinite n
  | finite _ _, infinite n' => infinite n'
  | finite n m, finite n' m' => ofReal (n && n') (signed n m + signed n' m')

noncomputable def sub (x y : Exact) : Exact := x.add y.neg

noncomputable def mul : Exact → Exact → Exact
  | nan, _ => nan
  | _, nan => nan
  | infinite n, infinite n' => infinite (n != n')
  | infinite n, finite n' m' => if m' = 0 then nan else infinite (n != n')
  | finite n m, infinite n' => if m = 0 then nan else infinite (n != n')
  | finite n m, finite n' m' => finite (n != n') (m * m')

noncomputable def half : Exact → Exact
  | nan => nan
  | infinite n => infinite n
  | finite n m => finite n (m / (2 : Nat))

/-- The root of a zero is that zero, and no other negative number has one. -/
noncomputable def sqrt : Exact → Exact
  | nan => nan
  | infinite n => if n then nan else infinite n
  | finite n m => if m = 0 then finite n 0 else if n then nan else finite n (√m)

/-- A datum that an exact number rounds to. Every NaN will do for no number. -/
def Rounds {F : Format} : Exact → Binary F → Prop
  | nan, x => x.isNaN
  | infinite n, x => x = .infinite n
  | finite n m, x => x.negative = n ∧ F.IsNearest m x.rank

end Exact

namespace Binary

variable {F : Format}

/-- What a datum stands for. -/
noncomputable def exact (x : Binary F) : Exact :=
  if x.isNaN then .nan
  else if x.isInfinite then .infinite x.negative
  else .finite x.negative (F.magnitude x.rank)

/-- Neither infinite nor a NaN. -/
def IsFinite (x : Binary F) : Prop := x.rank < F.infinity

instance (x : Binary F) : Decidable x.IsFinite := Nat.decLt _ _

@[simp] theorem IsFinite.isNaN {x : Binary F} (h : x.IsFinite) : x.isNaN = false := by
  simpa [Binary.isNaN] using Nat.le_of_lt h

@[simp] theorem IsFinite.isInfinite {x : Binary F} (h : x.IsFinite) : x.isInfinite = false := by
  simpa [Binary.isInfinite] using Nat.ne_of_lt h

theorem exact_of_isFinite {x : Binary F} (h : x.IsFinite) :
    x.exact = .finite x.negative (F.magnitude x.rank) := by
  simp [exact, h]

theorem exact_of_isNaN {x : Binary F} (h : x.isNaN) : x.exact = .nan := by
  simp [exact, h]

@[simp] theorem exact_infinite (n : Bool) : (infinite n : Binary F).exact = .infinite n := by
  simp [exact, infinite, isNaN, isInfinite]

/-- What is no NaN is an infinity or finite. -/
theorem infinite_or_isFinite {x : Binary F} (h : x.isNaN = false) :
    (∃ n, x = .infinite n) ∨ x.IsFinite := by
  obtain ⟨n, rank, hlt⟩ := x
  have hle : rank ≤ F.infinity := by simpa [isNaN] using h
  rcases Nat.eq_or_lt_of_le hle with rfl | hfinite
  · exact .inl ⟨n, rfl⟩
  · exact .inr hfinite

theorem isNaN_nan (hF : 0 < F.fractionBits) (n : Bool) : (nan n : Binary F).isNaN := by
  have hbinade : 2 ≤ F.binade := Nat.le_self_pow (Nat.pos_iff_ne_zero.1 hF) 2
  have hlt : F.infinity < F.infinity + F.binade / 2 := by omega
  exact decide_eq_true hlt

theorem isNaN_quiet {x : Binary F} (h : x.isNaN) : x.quiet.isNaN := by
  simp only [isNaN, decide_eq_true_eq] at h
  unfold quiet
  split
  · simp only [isNaN, decide_eq_true_eq]
    omega
  · simpa [isNaN] using h

/-- The datum without the payload of a NaN stands for the same. -/
theorem exact_canonical (hF : 0 < F.fractionBits) (x : Binary F) :
    x.canonical.exact = x.exact := by
  unfold canonical
  split
  · next h => rw [exact_of_isNaN h, exact_of_isNaN (isNaN_nan hF _)]
  · rfl

theorem exact_neg {x : Binary F} (h : x.isNaN = false) : x.neg.exact = x.exact.neg := by
  have hneg : x.neg.isNaN = false := h
  unfold exact
  rw [h, hneg]
  change (if x.isInfinite = true then _ else _) = _
  split <;> rfl

end Binary

namespace Exact

variable {F : Format} {e : Exact} {x y : Binary F}

@[simp] theorem add_nan (e : Exact) : e.add nan = nan := by
  cases e <;> rfl

@[simp] theorem mul_nan (e : Exact) : e.mul nan = nan := by
  cases e <;> rfl

/-- A number rounds to one datum only, NaNs not told apart. -/
theorem Rounds.canonical_eq (h : e.Rounds x) (h' : e.Rounds y) : x.canonical = y.canonical := by
  cases e with
  | nan =>
    simp only [Rounds] at h h'
    simp [Binary.canonical, h, h']
  | infinite n =>
    simp only [Rounds] at h h'
    rw [h, h']
  | finite n m =>
    obtain ⟨nx, rx, hx⟩ := x
    obtain ⟨ny, ry, hy⟩ := y
    obtain ⟨hnx, hrx⟩ := h
    obtain ⟨hny, hry⟩ := h'
    obtain rfl : nx = n := hnx
    obtain rfl : ny = nx := hny
    obtain rfl : rx = ry := hrx.eq hry
    rfl

/-- Which NaN a number rounds to is left open. -/
theorem rounds_canonical_iff (hF : 0 < F.fractionBits) : e.Rounds x.canonical ↔ e.Rounds x := by
  by_cases h : x.isNaN
  · have hnan := Binary.isNaN_nan hF false
    rw [Binary.canonical, if_pos h]
    cases e with
    | nan => simp [Rounds, h, hnan]
    | infinite n =>
      have hne {y : Binary F} (hy : y.isNaN) : ¬y = .infinite n := by
        rintro rfl
        simp [Binary.isNaN, Binary.infinite] at hy
      simp [Rounds, hne h, hne hnan]
    | finite n m =>
      have hne {y : Binary F} (hy : y.isNaN) : ¬F.IsNearest m y.rank := fun hm => by
        simp only [Binary.isNaN, decide_eq_true_eq] at hy
        exact absurd hm.le_infinity (Nat.not_le.2 hy)
      simp [Rounds, hne h, hne hnan]
  · rw [Binary.canonical, if_neg h]

end Exact

theorem floorSqrt_bounds (n : Nat) :
    floorSqrt n * floorSqrt n ≤ n ∧ n < (floorSqrt n + 1) * (floorSqrt n + 1) := by
  induction n using Nat.strongRecOn with
  | ind n ih =>
    unfold floorSqrt
    split
    · next h => simp [h]
    · next h =>
      -- the root of a quarter lies between two neighbours, its double between every other one
      obtain ⟨hle, hlt⟩ := ih (n / 4) (by omega)
      have hroot : 4 * (floorSqrt (n / 4) * floorSqrt (n / 4)) ≤ n := by omega
      have hnext : n < 4 * ((floorSqrt (n / 4) + 1) * (floorSqrt (n / 4) + 1)) := by omega
      generalize floorSqrt (n / 4) = root at *
      dsimp only
      split
      · next hodd => exact ⟨hodd, by linarith⟩
      · next heven => exact ⟨by linarith, by omega⟩

theorem floorSqrt_eq_sqrt (n : Nat) : floorSqrt n = Nat.sqrt n :=
  Nat.eq_sqrt.2 (floorSqrt_bounds n)

-- The root of sixteen times as much, doubled and with one added when it is not whole, compares to
-- the multiples of eight as the exact root does.
theorem mul_eight_le_floorSqrt_iff (n square : Nat) :
    n * 8 ≤ 2 * (2 * floorSqrt square +
      if floorSqrt square * floorSqrt square = square then 0 else 1) ↔
        2 * n * (2 * n) ≤ square := by
  rw [floorSqrt_eq_sqrt, ← Nat.le_sqrt]
  split <;> omega

theorem floorSqrt_le_mul_eight_iff (n square : Nat) :
    2 * (2 * floorSqrt square +
      if floorSqrt square * floorSqrt square = square then 0 else 1) ≤ n * 8 ↔
        square ≤ 2 * n * (2 * n) := by
  rw [floorSqrt_eq_sqrt]
  split
  · next hexact =>
    rw [show 2 * (2 * Nat.sqrt square + 0) ≤ n * 8 ↔ Nat.sqrt square ≤ 2 * n by omega]
    conv_rhs => rw [← hexact]
    exact Nat.mul_self_le_mul_self_iff.symm
  · next hinexact =>
    rw [show 2 * (2 * Nat.sqrt square + 1) ≤ n * 8 ↔ Nat.sqrt square < 2 * n by omega,
      Nat.sqrt_lt, Nat.lt_iff_le_and_ne, and_iff_left_iff_imp]
    rintro - rfl
    exact hinexact (by rw [Nat.sqrt_eq])

/-- The rounded root is nearest to the exact one. -/
theorem Format.isNearest_sqrt {F : Format} (hF : 0 < F.fractionBits) (hinfinity : 0 < F.infinity)
    (rank : Nat) :
    let square := 16 * (F.units rank * Nat.pow 2 F.scale)
    F.IsNearest (√(F.magnitude rank)) (F.nearest
      (2 * floorSqrt square + if floorSqrt square * floorSqrt square = square then 0 else 1)
      8) := by
  intro square
  have hscale : (0 : ℝ) < 2 ^ F.scale := by positivity
  have hsquare : (square : ℝ) = 16 * (F.magnitude rank * (2 ^ F.scale) ^ 2) := by
    rw [magnitude, Nat.cast_mul, Nat.cast_mul, Nat.pow_eq]
    push_cast
    field_simp
  have hroot (n : Nat) :
      (2 * n * (2 * n) : Nat) = 16 * (((n : ℝ) / (2 * 2 ^ F.scale)) ^ 2 * (2 ^ F.scale) ^ 2) := by
    push_cast
    field_simp
    ring
  have hsixteen : (0 : ℝ) < 16 := by norm_num
  refine isNearest_nearest hF hinfinity (by decide) (fun n => ?_) (fun n => ?_)
  · rw [mul_eight_le_floorSqrt_iff, Real.le_sqrt (by positivity), ← Nat.cast_le (α := ℝ), hsquare,
      hroot, mul_le_mul_iff_right₀ hsixteen, mul_le_mul_iff_left₀ (pow_pos hscale 2)]
    exact F.magnitude_nonneg rank
  · rw [floorSqrt_le_mul_eight_iff, Real.sqrt_le_left (by positivity), ← Nat.cast_le (α := ℝ),
      hsquare, hroot, mul_le_mul_iff_right₀ hsixteen, mul_le_mul_iff_left₀ (pow_pos hscale 2)]

namespace Binary

variable {F : Format} {x y : Binary F}

@[simp] theorem isNaN_infinite (n : Bool) : (infinite n : Binary F).isNaN = false := by
  simp [isNaN, infinite]

@[simp] theorem isInfinite_infinite (n : Bool) : (infinite n : Binary F).isInfinite = true := by
  simp [isInfinite, infinite]

@[simp] theorem isZero_infinite (hinfinity : 0 < F.infinity) (n : Bool) :
    (infinite n : Binary F).isZero = false := by
  simpa [isZero, infinite] using Nat.pos_iff_ne_zero.1 hinfinity

@[simp] theorem negative_infinite (n : Bool) : (infinite n : Binary F).negative = n := rfl

theorem magnitude_eq_zero_iff : F.magnitude x.rank = 0 ↔ x.isZero = true := by
  rw [← F.magnitude_zero, F.magnitude_strictMono.injective.eq_iff]
  simp [isZero]

theorem signed_magnitude (x : Binary F) :
    Exact.signed x.negative (F.magnitude x.rank) = x.toUnits / 2 ^ F.scale := by
  unfold Exact.signed toUnits Format.magnitude
  split <;> push_cast <;> ring

section

variable (hF : 0 < F.fractionBits) (hinfinity : 0 < F.infinity)
include hF

/-- A datum rounds to itself. -/
theorem rounds_exact (x : Binary F) : x.exact.Rounds x := by
  cases h : x.isNaN with
  | true => rwa [exact_of_isNaN h]
  | false =>
    rcases infinite_or_isFinite h with ⟨n, rfl⟩ | hfinite
    · rw [exact_infinite]
      rfl
    · rw [exact_of_isFinite hfinite]
      exact ⟨rfl, Format.isNearest_magnitude hF hfinite⟩

include hinfinity

theorem rounds_rounded (n : Bool) (num : Nat) {den : Nat} (hden : 0 < den) :
    (Exact.finite n (num / den / 2 ^ F.scale)).Rounds (rounded n num den : Binary F) :=
  ⟨rfl, Format.isNearest_nearest_div hF hinfinity num hden⟩

/-- A whole number of units, rounded. -/
theorem rounds_ofReal (zeroNegative : Bool) (units : Int) :
    (Exact.ofReal zeroNegative (units / 2 ^ F.scale)).Rounds
      (rounded (units < 0 || (units == 0 && zeroNegative)) units.natAbs 1 : Binary F) := by
  have hscale : (0 : ℝ) < 2 ^ F.scale := by positivity
  have hzero : (units : ℝ) / 2 ^ F.scale = 0 ↔ units = 0 := by
    rw [div_eq_zero_iff, Int.cast_eq_zero]
    simp
  have hneg : (units : ℝ) / 2 ^ F.scale < 0 ↔ units < 0 := by
    rw [div_lt_iff₀ hscale, zero_mul, Int.cast_lt_zero]
  have habs : |(units : ℝ) / 2 ^ F.scale| = units.natAbs / (1 : Nat) / 2 ^ F.scale := by
    rw [abs_div, abs_of_pos hscale, Nat.cast_natAbs, Nat.cast_one, div_one, Int.cast_abs]
  have hsign : (if (units : ℝ) / 2 ^ F.scale = 0 then zeroNegative
      else decide ((units : ℝ) / 2 ^ F.scale < 0)) =
        (decide (units < 0) || (units == 0 && zeroNegative)) := by
    simp only [hzero, hneg]
    by_cases h : units = 0 <;> simp [h]
  rw [Exact.ofReal, hsign, habs]
  exact rounds_rounded hF hinfinity _ _ Nat.one_pos

theorem rounds_add (x y : Binary F) : (x.exact.add y.exact).Rounds (x.add y) := by
  cases hx : x.isNaN with
  | true =>
    rw [exact_of_isNaN hx, add, if_pos hx]
    exact isNaN_quiet hx
  | false =>
    cases hy : y.isNaN with
    | true =>
      rw [exact_of_isNaN hy, Exact.add_nan, add, hx, if_neg (by decide), if_pos hy]
      exact isNaN_quiet hy
    | false =>
      rcases infinite_or_isFinite hx with ⟨n, rfl⟩ | hx <;>
        rcases infinite_or_isFinite hy with ⟨n', rfl⟩ | hy
      · cases n <;> cases n' <;> simp [add, Exact.add, Exact.Rounds, invalid, isNaN_nan hF]
      · simp [add, hy, exact_of_isFinite hy, Exact.add, Exact.Rounds]
      · simp [add, hx, exact_of_isFinite hx, Exact.add, Exact.Rounds]
      · have hsum := rounds_ofReal hF hinfinity (x.negative && y.negative) (x.toUnits + y.toUnits)
        rw [exact_of_isFinite hx, exact_of_isFinite hy, Exact.add, signed_magnitude,
          signed_magnitude, ← add_div, ← Int.cast_add]
        simpa [add, hx, hy, Bool.and_assoc] using hsum

theorem rounds_sub (x y : Binary F) : (x.exact.sub y.exact).Rounds (x.sub y) := by
  cases hy : y.isNaN with
  | true =>
    have hadd := rounds_add hF hinfinity x y
    rw [sub, if_pos hy]
    rw [exact_of_isNaN hy] at hadd ⊢
    exact hadd
  | false =>
    rw [sub, hy, if_neg (by decide), Exact.sub, ← exact_neg hy]
    exact rounds_add hF hinfinity x y.neg

theorem rounds_mul (x y : Binary F) : (x.exact.mul y.exact).Rounds (x.mul y) := by
  have hinf (n : Bool) : (infinite n : Binary F).isZero = false := isZero_infinite hinfinity n
  cases hx : x.isNaN with
  | true =>
    rw [exact_of_isNaN hx, mul, if_pos hx]
    exact isNaN_quiet hx
  | false =>
    cases hy : y.isNaN with
    | true =>
      rw [exact_of_isNaN hy, Exact.mul_nan, mul, hx, if_neg (by decide), if_pos hy]
      exact isNaN_quiet hy
    | false =>
      rcases infinite_or_isFinite hx with ⟨n, rfl⟩ | hx <;>
        rcases infinite_or_isFinite hy with ⟨n', rfl⟩ | hy
      · simp [mul, Exact.mul, Exact.Rounds, hinf]
      · rw [exact_of_isFinite hy]
        by_cases hzero : y.isZero
        · simp [mul, hy, Exact.mul, Exact.Rounds, hzero, magnitude_eq_zero_iff.2 hzero, invalid,
            isNaN_nan hF]
        · simp [mul, hy, Exact.mul, Exact.Rounds, hzero, magnitude_eq_zero_iff.not.2 hzero, hinf]
      · rw [exact_of_isFinite hx]
        by_cases hzero : x.isZero
        · simp [mul, hx, Exact.mul, Exact.Rounds, hzero, magnitude_eq_zero_iff.2 hzero, invalid,
            isNaN_nan hF]
        · simp [mul, hx, Exact.mul, Exact.Rounds, hzero, magnitude_eq_zero_iff.not.2 hzero, hinf]
      · have hproduct : F.magnitude x.rank * F.magnitude y.rank =
            (F.units x.rank * F.units y.rank : Nat) / (Nat.pow 2 F.scale : Nat) / 2 ^ F.scale := by
          rw [Format.magnitude, Format.magnitude, Nat.pow_eq]
          push_cast
          ring
        rw [exact_of_isFinite hx, exact_of_isFinite hy, Exact.mul, hproduct]
        simpa [mul, hx, hy] using
          rounds_rounded hF hinfinity (x.negative != y.negative)
            (F.units x.rank * F.units y.rank) (Nat.two_pow_pos F.scale)

theorem rounds_half (x : Binary F) : x.exact.half.Rounds x.half := by
  cases hx : x.isNaN with
  | true =>
    rw [exact_of_isNaN hx, half, if_pos hx]
    exact isNaN_quiet hx
  | false =>
    rcases infinite_or_isFinite hx with ⟨n, rfl⟩ | hx
    · simp [half, Exact.half, Exact.Rounds]
    · have hhalf : F.magnitude x.rank / (2 : Nat) = F.units x.rank / (2 : Nat) / 2 ^ F.scale := by
        rw [Format.magnitude, div_right_comm]
      rw [exact_of_isFinite hx, Exact.half, hhalf, half, hx.isNaN, hx.isInfinite]
      exact rounds_rounded hF hinfinity x.negative (F.units x.rank) Nat.two_pos

theorem rounds_sqrt (x : Binary F) : x.exact.sqrt.Rounds x.sqrt := by
  cases hx : x.isNaN with
  | true =>
    rw [exact_of_isNaN hx, sqrt, if_pos hx]
    exact isNaN_quiet hx
  | false =>
    rcases infinite_or_isFinite hx with ⟨n, rfl⟩ | hx
    · cases n <;>
        simp [sqrt, Exact.sqrt, Exact.Rounds, isZero_infinite hinfinity, invalid, isNaN_nan hF]
    · rw [exact_of_isFinite hx]
      by_cases hzero : x.isZero
      · have hrank : x.rank = 0 := by simpa [isZero] using hzero
        simpa [sqrt, hx, Exact.sqrt, Exact.Rounds, hzero, hrank] using
          Format.isNearest_zero hF hinfinity
      · have hne := magnitude_eq_zero_iff.not.2 hzero
        cases hnegative : x.negative with
        | true =>
          simp [sqrt, hx, Exact.sqrt, Exact.Rounds, hzero, hne, hnegative, invalid, isNaN_nan hF]
        | false =>
          rw [Exact.sqrt, if_neg hne, if_neg (by decide), sqrt, hx.isNaN, hnegative,
            hx.isInfinite, if_neg (by decide), if_neg hzero, if_neg (by decide),
            if_neg (by decide)]
          exact ⟨rfl, Format.isNearest_sqrt hF hinfinity x.rank⟩

end

end Binary

end Planimeter
