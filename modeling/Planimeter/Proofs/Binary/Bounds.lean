import Planimeter.Proofs.Binary.Single
/-!
# Bounds on rounded results

How far one rounding to single precision can move a number, and what bounds on the operands say of
a rounded sum, difference or product. A power of two below the exact result stays below the rounded
one. In the range of normal magnitudes the result is off by at most one part in two to the power of
24, and a sum or difference of magnitudes is so wherever it lies, as none of them falls between two
subnormal magnitudes.
-/
namespace Planimeter

namespace Format

variable {F : Format} {m : ℝ} {rank n : Nat} {k : ℤ}

theorem magnitude_infinity_single : single.magnitude single.infinity = (2 : ℝ) ^ (128 : ℤ) := by
  rw [magnitude_single, show single.infinity = 255 * 2 ^ 23 by decide]
  norm_num

theorem magnitude_binade_single : single.magnitude single.binade = (2 : ℝ) ^ (-126 : ℤ) := by
  rw [magnitude_single, binade_single]
  norm_num

theorem two_mul_binade_single : 2 * (single.binade : ℝ) = 2 ^ 24 := by
  rw [binade_single]
  norm_num

namespace IsNearest

/-- A whole number of units has a relative error of at most half of one part in the number of ranks
of a binade: if it is subnormal, it has none. -/
theorem abs_sub_le_of_units (h : F.IsNearest m rank) (hF : 0 < F.fractionBits)
    (hfinite : rank < F.infinity) (hbinade : F.binade < F.infinity)
    (hunits : m = n / 2 ^ F.scale) : |F.magnitude rank - m| ≤ m / (2 * F.binade) := by
  rcases Nat.lt_or_ge n F.binade with hsub | hnormal
  · have hexact : m = F.magnitude n := by rw [hunits, magnitude, units_of_lt_binade hsub]
    rw [hexact] at h ⊢
    rw [h.eq (isNearest_magnitude hF (hsub.trans hbinade)), sub_self, abs_zero]
    have := F.magnitude_nonneg n
    positivity
  · have hle : F.magnitude F.binade ≤ m := by
      have hbinade : F.units F.binade = F.binade := by
        have hpos := F.binade_pos
        have hgrid := F.units_grid 0 (show F.binade ≤ 2 * F.binade by omega) (.inl rfl)
        simpa using hgrid
      rw [magnitude, hbinade, hunits]
      exact div_le_div_of_nonneg_right (by exact_mod_cast hnormal) (by positivity)
    exact h.abs_sub_le hF hfinite hle hbinade

/-- A power of two is no more than what a number no less than it rounds to. -/
theorem two_zpow_le (h : single.IsNearest m rank) (hlow : -149 ≤ k) (hhigh : k < 128)
    (hm : (2 : ℝ) ^ k ≤ m) : (2 : ℝ) ^ k ≤ single.magnitude rank := by
  obtain ⟨power, hpower⟩ := exists_magnitude_eq_two_zpow hlow
  have hfinite : power < single.infinity := by
    rw [← magnitude_lt_iff (F := single), hpower, magnitude_infinity_single]
    exact zpow_lt_zpow_right₀ (by norm_num) hhigh
  rw [← hpower, magnitude_le_iff]
  exact h.le_of_magnitude_le fractionBits_single hfinite (hpower ▸ hm)

/-- What stays below half a gap above the last finite magnitude rounds to a finite one. -/
theorem lt_infinity (h : single.IsNearest m rank) (hm : m < (2 - (1 / 2) ^ 24) * 2 ^ 127) :
    rank < single.infinity := by
  refine Nat.lt_of_le_of_ne h.le_infinity fun heq => ?_
  have := h.overflow.1 heq
  rw [overflow_single] at this
  linarith

/-- The relative error of a number in the range of normal magnitudes. -/
theorem abs_sub_le_single (h : single.IsNearest m rank) (hfinite : rank < single.infinity)
    (hnormal : (2 : ℝ) ^ (-126 : ℤ) ≤ m) : |single.magnitude rank - m| ≤ m / 2 ^ 24 := by
  rw [← two_mul_binade_single]
  exact h.abs_sub_le fractionBits_single hfinite (magnitude_binade_single ▸ hnormal) (by decide)

end IsNearest

end Format

namespace Exact

/-- A finite number other than zero. -/
def IsProper : Exact → Prop
  | finite _ m => m ≠ 0
  | _ => False

theorem IsProper.of_mul {e e' : Exact} (h : (e.mul e').IsProper) :
    e.IsProper ∧ e'.IsProper := by
  cases e <;> cases e' <;> simp only [Exact.mul] at h
  case finite.finite => exact mul_ne_zero_iff.1 h
  case infinite.finite | finite.infinite => split at h <;> exact h.elim
  all_goals exact h.elim

theorem IsProper.of_sqrt {e : Exact} (h : e.sqrt.IsProper) : e.IsProper := by
  cases e with
  | nan => exact h
  | infinite n => cases n <;> exact h
  | finite n m =>
    intro hm
    rw [Exact.sqrt, if_pos hm] at h
    exact h rfl

theorem Rounds.isProper {e : Exact} {x : Binary32} (h : e.Rounds x) (hx : x.IsPositive) :
    e.IsProper := by
  cases e with
  | nan =>
    have hnan : x.isNaN = true := h
    rw [hx.isFinite.isNaN] at hnan
    contradiction
  | infinite n =>
    obtain rfl := h
    exact (Nat.lt_irrefl _ hx.isFinite).elim
  | finite n m =>
    rintro rfl
    have hzero := Binary.isZero_of_rounds h
    rw [Binary.isZero, beq_iff_eq] at hzero
    exact hx.rank_pos.ne' hzero

end Exact

namespace Binary

variable {n : Bool} {j k : ℤ} {m : ℝ} {x y : Binary32}

theorem HasSign.isPositive (hsign : x.HasSign false) (h : x.exact.IsProper) : x.IsPositive := by
  cases hnan : x.isNaN with
  | true =>
    rw [exact_of_isNaN hnan] at h
    exact h.elim
  | false =>
    rcases infinite_or_isFinite hnan with ⟨n, rfl⟩ | hfinite
    · rw [exact_infinite] at h
      exact h.elim
    · rw [exact_of_isFinite hfinite] at h
      have hzero : x.isZero = false :=
        Bool.eq_false_of_not_eq_true fun hzero => h (magnitude_eq_zero_iff.2 hzero)
      refine ⟨(hsign.resolve_left (by simp [hnan])).resolve_left (by simp [hzero]), ?_, hfinite⟩
      exact Nat.pos_of_ne_zero (by simpa [isZero] using hzero)

theorem isPositive_of_mul (hx : x.HasSign false) (hy : y.HasSign false)
    (h : (x.mul y).IsPositive) : x.IsPositive ∧ y.IsPositive := by
  have hround := rounds_mul Format.fractionBits_single Format.infinity_single x y
  obtain ⟨hex, hey⟩ := (hround.isProper h).of_mul
  exact ⟨hx.isPositive hex, hy.isPositive hey⟩

theorem isPositive_of_sqrt (hx : x.HasSign false) (h : x.sqrt.IsPositive) : x.IsPositive := by
  have hround := rounds_sqrt Format.fractionBits_single Format.infinity_single x
  exact hx.isPositive (hround.isProper h).of_sqrt

/-- What rounds between the least magnitude and the overflow is positive and finite. -/
theorem isPositive_of_rounds (h : (Exact.finite false m).Rounds x)
    (hlow : (2 : ℝ) ^ (-149 : ℤ) ≤ m) (hhigh : m < (2 - (1 / 2) ^ 24) * 2 ^ 127) :
    x.IsPositive := by
  have hpos : (2 : ℝ) ^ (-149 : ℤ) ≤ x.magnitude :=
    h.2.two_zpow_le le_rfl (by norm_num) hlow
  exact ⟨h.1, magnitude_pos_iff.1 (lt_of_lt_of_le (by positivity) hpos),
    h.2.lt_infinity hhigh⟩

theorem rounds_mul_of_isPositive (hx : x.IsPositive) (hy : y.IsPositive) :
    (Exact.finite false (x.magnitude * y.magnitude)).Rounds (x.mul y) := by
  have h := rounds_mul_of_isFinite hx.isFinite hy.isFinite
  rwa [hx.negative, hy.negative] at h

/-- A product grows with its factors. -/
theorem rank_mul_le {x' y' : Binary32} (hx : x.IsPositive) (hy : y.IsPositive)
    (hx' : x'.IsPositive) (hy' : y'.IsPositive) (hxx' : x.rank ≤ x'.rank)
    (hyy' : y.rank ≤ y'.rank) : (x.mul y).rank ≤ (x'.mul y').rank :=
  (rounds_mul_of_isPositive hx hy).2.mono (rounds_mul_of_isPositive hx' hy').2
    (mul_le_mul (Format.magnitude_le_iff.2 hxx') (Format.magnitude_le_iff.2 hyy')
      y.magnitude_nonneg x'.magnitude_nonneg)

theorem IsPositive.two_zpow_le (h : x.IsPositive) : (2 : ℝ) ^ (-149 : ℤ) ≤ x.magnitude := by
  have hone : Format.single.magnitude 1 = (2 : ℝ) ^ (-149 : ℤ) := by
    rw [Format.magnitude_single]
    norm_num
  rw [← hone]
  exact Format.magnitude_le_iff.2 h.rank_pos

theorem IsPositive.lt_two_zpow (h : x.IsPositive) : x.magnitude < (2 : ℝ) ^ (128 : ℤ) := by
  rw [← Format.magnitude_infinity_single]
  exact Format.magnitude_lt_iff.2 h.isFinite

/-- A root of what is in range is far inside it. -/
theorem IsPositive.sqrt (h : x.IsPositive) : x.sqrt.IsPositive := by
  have hround := rounds_sqrt Format.fractionBits_single Format.infinity_single x
  have hne : Format.single.magnitude x.rank ≠ 0 := h.magnitude_pos.ne'
  rw [exact_of_isFinite h.isFinite, h.negative, Exact.sqrt, if_neg hne, if_neg (by decide)]
    at hround
  refine isPositive_of_rounds hround ?_ ?_
  · refine Real.le_sqrt_of_sq_le (le_trans ?_ h.two_zpow_le)
    norm_num
  · have hroot : √x.magnitude < (2 : ℝ) ^ (64 : ℤ) :=
      (Real.sqrt_lt' (by positivity)).2 (h.lt_two_zpow.trans_eq (by norm_num))
    exact hroot.trans (by norm_num)

/-- At least a power of two in magnitude, infinity included. -/
structure AtLeast (k : ℤ) (x : Binary32) : Prop where
  isNaN : x.isNaN = false
  le_magnitude : (2 : ℝ) ^ k ≤ x.magnitude

theorem AtLeast.isZero (h : x.AtLeast k) : x.isZero = false := by
  have hpos : 0 < x.magnitude := lt_of_lt_of_le (zpow_pos (by norm_num) k) h.le_magnitude
  cases hzero : x.isZero with
  | false => rfl
  | true => exact absurd (magnitude_eq_zero_iff.2 hzero) hpos.ne'

theorem AtLeast.isPositive (h : x.AtLeast k) (hnegative : x.negative = false)
    (hfinite : x.IsFinite) : x.IsPositive := by
  refine ⟨hnegative, Nat.pos_of_ne_zero fun hrank => ?_, hfinite⟩
  have hzero := h.isZero
  rw [Binary.isZero, hrank] at hzero
  contradiction

theorem atLeast_infinite (hk : k ≤ 128) : (infinite n : Binary32).AtLeast k := by
  refine ⟨isNaN_infinite n, ?_⟩
  change _ ≤ Format.single.magnitude Format.single.infinity
  rw [Format.magnitude_infinity_single]
  exact zpow_le_zpow_right₀ (by norm_num) hk

theorem atLeast_of_rounds (h : (Exact.finite n m).Rounds x) (hlow : -149 ≤ k) (hhigh : k < 128)
    (hm : (2 : ℝ) ^ k ≤ m) : x.AtLeast k := by
  refine ⟨?_, h.2.two_zpow_le hlow hhigh hm⟩
  have := h.2.le_infinity
  simpa [isNaN] using this

/-- Powers of two below two data multiply to one below their product, unless it is too small. -/
theorem AtLeast.mul (hx : x.AtLeast j) (hy : y.AtLeast k) (hlow : -149 ≤ j + k)
    (hhigh : j + k < 128) : (x.mul y).AtLeast (j + k) := by
  rcases infinite_or_isFinite hx.isNaN with ⟨n, rfl⟩ | hxfinite
  · have h : (infinite n).mul y = infinite (n != y.negative) := by
      simp [Binary.mul, hy.isNaN, hy.isZero, isZero_infinite Format.infinity_single]
    exact h ▸ atLeast_infinite hhigh.le
  · rcases infinite_or_isFinite hy.isNaN with ⟨n, rfl⟩ | hyfinite
    · have h : x.mul (infinite n) = infinite (x.negative != n) := by
        simp [Binary.mul, hx.isNaN, hx.isZero, isZero_infinite Format.infinity_single]
      exact h ▸ atLeast_infinite hhigh.le
    · refine atLeast_of_rounds (rounds_mul_of_isFinite hxfinite hyfinite) hlow hhigh ?_
      rw [zpow_add₀ (by norm_num)]
      exact mul_le_mul hx.le_magnitude hy.le_magnitude (zpow_nonneg (by norm_num) k)
        x.magnitude_nonneg

theorem atLeast_sub (hx : x.IsFinite) (hy : y.IsFinite) (hnx : x.negative = false)
    (hny : y.negative = false) (hlow : -149 ≤ k) (hhigh : k < 128)
    (h : (2 : ℝ) ^ k ≤ |x.magnitude - y.magnitude|) : (x.sub y).AtLeast k := by
  rcases le_or_gt y.magnitude x.magnitude with hle | hlt
  · rw [abs_of_nonneg (sub_nonneg.2 hle)] at h
    exact atLeast_of_rounds (rounds_sub_of_le hx hy hnx hny hle) hlow hhigh h
  · rw [abs_sub_comm, abs_of_pos (sub_pos.2 hlt)] at h
    exact atLeast_of_rounds (rounds_sub_of_lt hx hy hnx hny hlt) hlow hhigh h

/-- The relative error of a sum of magnitudes that does not overflow. -/
theorem abs_add_sub_le (hfinite : (x.add y).IsFinite)
    (h : Format.single.IsNearest (x.magnitude + y.magnitude) (x.add y).rank) :
    |(x.add y).magnitude - (x.magnitude + y.magnitude)| ≤ (x.magnitude + y.magnitude) / 2 ^ 24 := by
  rw [← Format.two_mul_binade_single]
  refine h.abs_sub_le_of_units Format.fractionBits_single hfinite (by decide)
    (n := Format.single.units x.rank + Format.single.units y.rank) ?_
  rw [magnitude, magnitude, Format.magnitude, Format.magnitude]
  push_cast
  ring

/-- The relative error of a difference of magnitudes. -/
theorem abs_sub_sub_le (hle : y.magnitude ≤ x.magnitude) (hfinite : (x.sub y).IsFinite)
    (h : Format.single.IsNearest (x.magnitude - y.magnitude) (x.sub y).rank) :
    |(x.sub y).magnitude - (x.magnitude - y.magnitude)| ≤ (x.magnitude - y.magnitude) / 2 ^ 24 := by
  rw [← Format.two_mul_binade_single]
  refine h.abs_sub_le_of_units Format.fractionBits_single hfinite (by decide)
    (n := Format.single.units x.rank - Format.single.units y.rank) ?_
  have hunits : Format.single.units y.rank ≤ Format.single.units x.rank :=
    Format.single.units_strictMono.monotone (Format.magnitude_le_iff.1 hle)
  rw [magnitude, magnitude, Format.magnitude, Format.magnitude, Nat.cast_sub hunits]
  ring

/-- Positive, finite and between two multiples of a number. -/
structure Within (low high m : ℝ) (x : Binary32) : Prop where
  isPositive : x.IsPositive
  low_le : low * m ≤ x.magnitude
  le_high : x.magnitude ≤ high * m

section

variable {low high low' high' low'' high'' m' : ℝ}

theorem within_of_rounds (h : (Exact.finite false m').Rounds x) (hfinite : x.IsFinite)
    (herror : |x.magnitude - m'| ≤ m' / 2 ^ 24) (hpos : 0 < m')
    (hlow : low * m ≤ m' * (1 - 1 / 2 ^ 24)) (hhigh : m' * (1 + 1 / 2 ^ 24) ≤ high * m) :
    x.Within low high m := by
  obtain ⟨hbelow, habove⟩ := abs_le.1 herror
  have hx : 0 < x.magnitude := by linarith
  exact ⟨⟨h.1, magnitude_pos_iff.1 hx, hfinite⟩, by linarith, by linarith⟩

/-- Multiples below and above two factors multiply to such of the product, but for one rounding,
while the product is normal. -/
theorem Within.mul (hx : x.Within low high m) (hy : y.Within low' high' m') (hm : 0 ≤ m)
    (hm' : 0 ≤ m') (hlow' : 0 ≤ low')
    (hlow'' : low'' ≤ low * low' * (1 - 1 / 2 ^ 24))
    (hhigh'' : high * high' * (1 + 1 / 2 ^ 24) ≤ high'')
    (hnormal : (2 : ℝ) ^ (-126 : ℤ) ≤ low * low' * (m * m'))
    (hfinite : high * high' * (m * m') < (2 - (1 / 2) ^ 24) * 2 ^ 127) :
    (x.mul y).Within low'' high'' (m * m') := by
  have hbelow : low * low' * (m * m') ≤ x.magnitude * y.magnitude := by
    have := mul_le_mul hx.low_le hy.low_le (by positivity) x.magnitude_nonneg
    linarith
  have habove : x.magnitude * y.magnitude ≤ high * high' * (m * m') := by
    have := mul_le_mul hx.le_high hy.le_high y.magnitude_nonneg
      (x.magnitude_nonneg.trans hx.le_high)
    linarith
  have hround := rounds_mul_of_isPositive hx.isPositive hy.isPositive
  have hproduct : (x.mul y).IsFinite := hround.2.lt_infinity (habove.trans_lt hfinite)
  refine within_of_rounds hround hproduct
    (hround.2.abs_sub_le_single hproduct (hnormal.trans hbelow))
    (mul_pos hx.isPositive.magnitude_pos hy.isPositive.magnitude_pos) ?_ ?_
  · calc low'' * (m * m') ≤ low * low' * (1 - 1 / 2 ^ 24) * (m * m') :=
          mul_le_mul_of_nonneg_right hlow'' (by positivity)
      _ = low * low' * (m * m') * (1 - 1 / 2 ^ 24) := by ring
      _ ≤ x.magnitude * y.magnitude * (1 - 1 / 2 ^ 24) :=
          mul_le_mul_of_nonneg_right hbelow (by norm_num)
  · calc x.magnitude * y.magnitude * (1 + 1 / 2 ^ 24)
        ≤ high * high' * (m * m') * (1 + 1 / 2 ^ 24) :=
          mul_le_mul_of_nonneg_right habove (by norm_num)
      _ = high * high' * (1 + 1 / 2 ^ 24) * (m * m') := by ring
      _ ≤ high'' * (m * m') := mul_le_mul_of_nonneg_right hhigh'' (by positivity)

end

end Binary

end Planimeter
