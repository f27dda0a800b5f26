import Planimeter.Proofs.Binary.Decimals
import Planimeter.Proofs.Binary.RoundTrip
/-!
# The fewest digits that read back

The decimals that round to a rank lie between two of them that do. The search begins with a grid
that is too coarse to have any, and stops at the first one that has, at the point nearest to the
magnitude. Fewer digits would put a power of ten between the decimal and the point found, on a
coarser grid than the one it was found on; so they do not round to the rank. Nor is a decimal of as
many digits nearer, unless it has a single one and the grid is coarser than the magnitude, which
does not happen in single precision.
-/
namespace Planimeter

/-- The number that a decimal stands for. -/
noncomputable def Decimal.value (d : Decimal) : ℝ := d.digits * 10 ^ d.exponent

/-- The numbers with so many significant digits, or fewer. -/
def HasDigits (count : Nat) (m : ℝ) : Prop := ∃ (n : Nat) (e : ℤ), n < 10 ^ count ∧ m = n * 10 ^ e

theorem ten_zpow_pos (e : ℤ) : (0 : ℝ) < 10 ^ e := zpow_pos (by norm_num) e

theorem ten_zpow_eq_mul (e : ℤ) : (10 : ℝ) ^ e = 10 * 10 ^ (e - 1) := by
  rw [← zpow_one_add₀ (by norm_num), add_sub_cancel]

namespace Format

variable {F : Format} {rank : Nat} {m m' : ℝ}

/-- A decimal between two numbers of the same rank has the rank. -/
theorem IsNearest.between (hF : 0 < F.fractionBits) (hinfinity : 0 < F.infinity)
    (h : F.IsNearest m rank) (h' : F.IsNearest m' rank) {n : Nat} {e : ℤ}
    (hle : m ≤ n * 10 ^ e) (hle' : n * 10 ^ e ≤ m') : F.IsNearest (n * 10 ^ e) rank := by
  have hn := Binary.isNearest_ofDecimal hF hinfinity false n e
  rwa [Nat.le_antisymm (hn.mono h' hle') (h.mono hn hle)] at hn

theorem IsNearest.ne_zero (hF : 0 < F.fractionBits) (hinfinity : 0 < F.infinity) (hrank : rank ≠ 0)
    {n : Nat} {e : ℤ} (h : F.IsNearest (n * 10 ^ e) rank) : n ≠ 0 := by
  rintro rfl
  rw [Nat.cast_zero, zero_mul] at h
  exact hrank (h.eq (isNearest_zero hF hinfinity))

/-- The cell of a rank holds the points of a grid that round to it. -/
theorem readsBack_iff_isNearest (hF : 0 < F.fractionBits) (hfinite : rank < F.infinity)
    (n grid : Nat) : F.readsBack rank (n * 10 ^ grid) = true ↔
      F.IsNearest (n * 10 ^ ((grid : ℤ) - F.scale)) rank := by
  have hden : 0 < 5 ^ F.scale := by positivity
  have hvalue : (n * 10 ^ ((grid : ℤ) - F.scale) : ℝ) =
      (n * 10 ^ grid : Nat) / (5 ^ F.scale : Nat) / 2 ^ F.scale := by
    rw [zpow_sub₀ (by norm_num), zpow_natCast, zpow_natCast, div_div]
    push_cast
    rw [← mul_pow, mul_div_assoc]
    norm_num
  have hnearest := isNearest_nearest_div hF (Nat.zero_lt_of_lt hfinite) (n * 10 ^ grid) hden
  rw [readsBack_iff, ← nearest_eq_iff hF hden hfinite, hvalue]
  constructor
  · intro h
    rwa [h] at hnearest
  · exact hnearest.eq

/-- A decimal that rounds to a rank, on a grid coarser than which none has such a point, and there
nearest to the magnitude. -/
structure IsCoarsest (F : Format) (rank : Nat) (d : Decimal) : Prop where
  isNearest : F.IsNearest d.value rank
  coarsest : ∀ (n : Nat) (e : ℤ), d.exponent < e → ¬F.IsNearest (n * 10 ^ e) rank
  nearest : ∀ n : Nat, F.IsNearest (n * 10 ^ d.exponent) rank →
    |d.value - F.magnitude rank| ≤ |n * 10 ^ d.exponent - F.magnitude rank|

/-- Of the points of a grid none is nearer than the two around a number. -/
theorem abs_sub_le_of_around {t : ℝ} {below : Nat} (ht : 0 < t) (hlow : below * t ≤ m)
    (hhigh : m < (below + 1 : Nat) * t) (n : Nat) :
    n ≤ below ∧ |below * t - m| ≤ |n * t - m| ∨
      below < n ∧ |(below + 1 : Nat) * t - m| ≤ |n * t - m| := by
  rcases Nat.lt_or_ge below n with h | h
  · have hle : (below + 1 : Nat) * t ≤ n * t := mul_le_mul_of_nonneg_right (Nat.cast_le.2 h) ht.le
    refine .inr ⟨h, ?_⟩
    rw [abs_of_nonneg (by linarith), abs_of_nonneg (by linarith)]
    linarith
  · have hle : n * t ≤ below * t := mul_le_mul_of_nonneg_right (Nat.cast_le.2 h) ht.le
    refine .inl ⟨h, ?_⟩
    rw [abs_of_nonpos (by linarith), abs_of_nonpos (by linarith)]
    linarith

theorem magnitude_eq_scaled (F : Format) (rank : Nat) :
    F.magnitude rank = (F.units rank * 5 ^ F.scale : Nat) * 10 ^ (-(F.scale : ℤ)) := by
  rw [magnitude, zpow_neg, zpow_natCast, show (10 : ℝ) = 5 * 2 by norm_num, mul_pow]
  push_cast
  field_simp

/-- A magnitude is so many steps of a grid and a rest, which tells the nearer of the two points
around it. -/
theorem magnitude_around (F : Format) (rank grid : Nat) :
    let exact := F.units rank * 5 ^ F.scale
    let step : ℝ := 10 ^ ((grid : ℤ) - F.scale)
    (exact / 10 ^ grid : Nat) * step ≤ F.magnitude rank ∧
      F.magnitude rank < (exact / 10 ^ grid + 1 : Nat) * step ∧
      (2 * (exact % 10 ^ grid) < 10 ^ grid ↔ F.magnitude rank - (exact / 10 ^ grid : Nat) * step <
        (exact / 10 ^ grid + 1 : Nat) * step - F.magnitude rank) := by
  intro exact step
  have hunit := ten_zpow_pos (-(F.scale : ℤ))
  have hstep : step = (10 ^ grid : Nat) * 10 ^ (-(F.scale : ℤ)) := by
    rw [Nat.cast_pow, ← zpow_natCast, Nat.cast_ofNat, ← zpow_add₀ (by norm_num)]
    rfl
  have hrest : (exact % 10 ^ grid : Nat) * (10 : ℝ) ^ (-(F.scale : ℤ)) < step := by
    rw [hstep]
    exact mul_lt_mul_of_pos_right (Nat.cast_lt.2 (Nat.mod_lt _ (by positivity))) hunit
  have hnonneg : 0 ≤ (exact % 10 ^ grid : Nat) * (10 : ℝ) ^ (-(F.scale : ℤ)) := by positivity
  have hhalf : 2 * (exact % 10 ^ grid) < 10 ^ grid ↔
      2 * ((exact % 10 ^ grid : Nat) * (10 : ℝ) ^ (-(F.scale : ℤ))) < step := by
    rw [hstep, ← mul_assoc, mul_lt_mul_iff_of_pos_right hunit]
    exact_mod_cast Iff.rfl
  have hsplit : F.magnitude rank = (exact / 10 ^ grid : Nat) * step +
      (exact % 10 ^ grid : Nat) * 10 ^ (-(F.scale : ℤ)) := by
    rw [hstep, magnitude_eq_scaled, ← mul_assoc, ← add_mul]
    congr 1
    exact_mod_cast (Nat.div_add_mod' exact (10 ^ grid)).symm
  push_cast
  refine ⟨by linarith, by linarith, ?_⟩
  rw [hhalf]
  constructor <;> intro h <;> linarith

theorem magnitude_succ_le (hrank : rank ≠ 0) :
    F.magnitude (rank + 1) ≤ 2 * F.magnitude rank := by
  obtain ⟨double, h⟩ := F.exists_magnitude_double rank
  have hpos : 0 < F.magnitude rank := magnitude_pos_iff.2 (Nat.pos_of_ne_zero hrank)
  have hlt : rank < double := magnitude_lt_iff.1 (by linarith)
  rw [← h, magnitude_le_iff]
  exact hlt

theorem two_mul_lt_ten_pow (n : Nat) : 2 * n < 10 ^ (n.log2 / 3 + 2 + 1) := by
  calc 2 * n < 2 * 2 ^ (n.log2 + 1) := by have := @Nat.lt_log2_self n; omega
    _ = 2 ^ (n.log2 + 2) := (Nat.pow_succ' ..).symm
    _ ≤ 2 ^ (3 * (n.log2 / 3 + 2 + 1)) := Nat.pow_le_pow_right (by decide) (by omega)
    _ = 8 ^ (n.log2 / 3 + 2 + 1) := Nat.pow_mul 2 3 _
    _ ≤ 10 ^ (n.log2 / 3 + 2 + 1) := Nat.pow_le_pow_left (by decide) _

section

variable (hF : 0 < F.fractionBits) (hfinite : rank < F.infinity)
include hF hfinite

/-- One of the two points around the magnitude will do, if it rounds to the rank and is not farther
than the other one if that does too. -/
theorem isCoarsest_of_around {below digits : Nat} {e : ℤ} (hlow : below * 10 ^ e ≤ F.magnitude rank)
    (hhigh : F.magnitude rank < (below + 1 : Nat) * 10 ^ e)
    (hcoarser : ∀ (n : Nat) (e' : ℤ), e < e' → ¬F.IsNearest (n * 10 ^ e') rank)
    (hdigits : F.IsNearest (digits * 10 ^ e) rank)
    (hbelow : F.IsNearest (below * 10 ^ e) rank →
      |digits * 10 ^ e - F.magnitude rank| ≤ |below * 10 ^ e - F.magnitude rank|)
    (habove : F.IsNearest ((below + 1 : Nat) * 10 ^ e) rank →
      |digits * 10 ^ e - F.magnitude rank| ≤ |(below + 1 : Nat) * 10 ^ e - F.magnitude rank|) :
    IsCoarsest F rank ⟨digits, e⟩ where
  isNearest := hdigits
  coarsest := hcoarser
  nearest n hn := by
    have hinfinity := Nat.zero_lt_of_lt hfinite
    have hown := isNearest_magnitude hF hfinite
    have hpos := ten_zpow_pos e
    rcases abs_sub_le_of_around hpos hlow hhigh n with ⟨hle, hdist⟩ | ⟨hlt, hdist⟩
    · have hn' : (n : ℝ) * 10 ^ e ≤ below * 10 ^ e :=
        mul_le_mul_of_nonneg_right (Nat.cast_le.2 hle) hpos.le
      exact (hbelow (hn.between hF hinfinity hown hn' hlow)).trans hdist
    · have hn' : ((below + 1 : Nat) : ℝ) * 10 ^ e ≤ n * 10 ^ e :=
        mul_le_mul_of_nonneg_right (Nat.cast_le.2 hlt) hpos.le
      exact (habove (hown.between hF hinfinity hn hhigh.le hn')).trans hdist

/-- If neither of the two points around the magnitude rounds to the rank, then no point of the grid
does. -/
theorem not_isNearest_of_around {below : Nat} {e : ℤ} (hlow : below * 10 ^ e ≤ F.magnitude rank)
    (hhigh : F.magnitude rank < (below + 1 : Nat) * 10 ^ e)
    (hbelow : ¬F.IsNearest (below * 10 ^ e) rank)
    (habove : ¬F.IsNearest ((below + 1 : Nat) * 10 ^ e) rank) (n : Nat) :
    ¬F.IsNearest (n * 10 ^ e) rank := by
  intro hn
  have hinfinity := Nat.zero_lt_of_lt hfinite
  have hown := isNearest_magnitude hF hfinite
  have hpos := ten_zpow_pos e
  rcases Nat.lt_or_ge below n with h | h
  · exact habove (hown.between hF hinfinity hn hhigh.le
      (mul_le_mul_of_nonneg_right (Nat.cast_le.2 h) hpos.le))
  · exact hbelow (hn.between hF hinfinity hown
      (mul_le_mul_of_nonneg_right (Nat.cast_le.2 h) hpos.le) hlow)

/-- The search finds a coarsest decimal if it begins beyond all grids that have points. -/
theorem isCoarsest_coarsest (places : Nat) (hbeyond : ∀ (n : Nat) (e : ℤ),
      (places : ℤ) - F.scale < e → ¬F.IsNearest (n * 10 ^ e) rank) :
    IsCoarsest F rank (F.coarsest rank places) := by
  -- on the grids left to try; what is known of the coarser ones grows by one grid at a time
  induction places with
  | zero =>
    have hvalue : (F.coarsest rank 0).value = F.magnitude rank := by
      rw [magnitude_eq_scaled, Decimal.value, coarsest, Nat.pow_eq]
    refine ⟨hvalue ▸ isNearest_magnitude hF hfinite, fun n e he => hbeyond n e ?_, fun n _ => ?_⟩
    · rwa [Nat.cast_zero, zero_sub]
    · rw [hvalue, sub_self, abs_zero]
      exact abs_nonneg _
  | succ places ih =>
    obtain ⟨hlow, hhigh, hhalf⟩ := F.magnitude_around rank (places + 1)
    have hreads (n : Nat) := readsBack_iff_isNearest hF hfinite n (places + 1)
    rw [coarsest]
    simp only [Nat.pow_eq]
    generalize F.units rank * 5 ^ F.scale / 10 ^ (places + 1) = below at *
    generalize F.units rank * 5 ^ F.scale % 10 ^ (places + 1) = rest at *
    split
    · next hbelow habove =>
      rw [hreads] at hbelow habove
      split
      · next h =>
        refine isCoarsest_of_around hF hfinite hlow hhigh hbeyond hbelow (fun _ => le_rfl)
          fun _ => ?_
        rw [abs_of_nonpos (by linarith), abs_of_nonneg (by linarith)]
        linarith [hhalf.1 h]
      · next h =>
        refine isCoarsest_of_around hF hfinite hlow hhigh hbeyond habove (fun _ => ?_)
          fun _ => le_rfl
        rw [abs_of_nonneg (by linarith), abs_of_nonpos (by linarith)]
        linarith [mt hhalf.2 h]
    · next hbelow habove =>
      rw [← Bool.not_eq_true, hreads] at habove
      exact isCoarsest_of_around hF hfinite hlow hhigh hbeyond ((hreads _).1 hbelow)
        (fun _ => le_rfl) fun h => absurd h habove
    · next hbelow habove =>
      rw [← Bool.not_eq_true, hreads] at hbelow
      exact isCoarsest_of_around hF hfinite hlow hhigh hbeyond ((hreads _).1 habove)
        (fun h => absurd h hbelow) fun _ => le_rfl
    · next hbelow habove =>
      rw [← Bool.not_eq_true, hreads] at hbelow habove
      refine ih fun n e he => ?_
      rcases Int.lt_or_eq_of_le (show ((places + 1 : Nat) : ℤ) - F.scale ≤ e by omega) with h | rfl
      · exact hbeyond n e h
      · exact not_isNearest_of_around hF hfinite hlow hhigh hbelow habove n

/-- The search begins where every grid has steps beyond what rounds to the rank. -/
theorem isCoarsest_shortest (hrank : rank ≠ 0) : IsCoarsest F rank (F.shortest rank) := by
  have hinfinity := Nat.zero_lt_of_lt hfinite
  refine isCoarsest_coarsest hF hfinite _ fun n e he hn => ?_
  simp only [Nat.pow_eq] at he
  have hone : (1 : ℝ) ≤ n :=
    Nat.one_le_cast.2 (Nat.one_le_iff_ne_zero.2 (hn.ne_zero hF hinfinity hrank))
  have hstart : 2 * F.magnitude rank < 10 ^ e := by
    have hlt := two_mul_lt_ten_pow (F.units rank * 5 ^ F.scale)
    rw [magnitude_eq_scaled, ← mul_assoc]
    generalize F.units rank * 5 ^ F.scale = exact at *
    calc (2 * exact : ℝ) * 10 ^ (-(F.scale : ℤ))
        < (10 ^ (exact.log2 / 3 + 2 + 1) : Nat) * 10 ^ (-(F.scale : ℤ)) :=
          mul_lt_mul_of_pos_right (by exact_mod_cast hlt) (ten_zpow_pos _)
      _ = 10 ^ (((exact.log2 / 3 + 2 + 1 : Nat) : ℤ) - F.scale) := by
          rw [sub_eq_add_neg, zpow_add₀ (by norm_num), zpow_natCast, Nat.cast_pow, Nat.cast_ofNat]
      _ ≤ 10 ^ e := zpow_le_zpow_right₀ (by norm_num) (by omega)
  have hmiddle := hn.le_middle hfinite
  rw [middle] at hmiddle
  have hnext : F.magnitude (rank + 1) ≤ 2 * F.magnitude rank := magnitude_succ_le hrank
  have hpos : 0 < F.magnitude rank := magnitude_pos_iff.2 (Nat.pos_of_ne_zero hrank)
  have hpoint : (10 : ℝ) ^ e ≤ n * 10 ^ e := le_mul_of_one_le_left (ten_zpow_pos e).le hone
  linarith

end

namespace IsCoarsest

variable {d : Decimal} (h : IsCoarsest F rank d)
include h

theorem exponent_le {n : Nat} {e : ℤ} (hm : F.IsNearest (n * 10 ^ e) rank) : e ≤ d.exponent :=
  le_of_not_gt fun he => h.coarsest n e he hm

/-- The last digit is not zero, or else the decimal were on a coarser grid. -/
theorem digits_mod_ne_zero : d.digits % 10 ≠ 0 := by
  intro hmod
  obtain ⟨n, hn⟩ := Nat.dvd_of_mod_eq_zero hmod
  have hvalue : d.value = n * 10 ^ (d.exponent + 1) := by
    rw [Decimal.value, hn, zpow_add_one₀ (by norm_num)]
    push_cast
    ring
  exact h.coarsest n _ (Int.lt_succ _) (hvalue ▸ h.isNearest)

/-- The power of ten that opens the grid is nearer than what is below it, if it is not above the
magnitude. -/
theorem abs_sub_le_of_lt_ten_zpow (hone : F.IsNearest ((1 : Nat) * 10 ^ d.exponent) rank)
    (hm : m ≤ (1 : Nat) * 10 ^ d.exponent) (hle : (1 : Nat) * 10 ^ d.exponent ≤ F.magnitude rank) :
    |d.value - F.magnitude rank| ≤ |m - F.magnitude rank| := by
  calc |d.value - F.magnitude rank|
      ≤ |(1 : Nat) * 10 ^ d.exponent - F.magnitude rank| := h.nearest 1 hone
    _ ≤ |m - F.magnitude rank| := by
      rw [abs_of_nonpos (by linarith), abs_of_nonpos (by linarith)]
      linarith

variable (hF : 0 < F.fractionBits) (hinfinity : 0 < F.infinity)
include hF hinfinity

/-- What has the rank is above every power of ten that the digits reach, but the one of their last
place. -/
theorem ten_pow_lt (hm : F.IsNearest m rank) {k : Nat} (hk : 0 < k) (hle : 10 ^ k ≤ d.digits) :
    10 ^ k * 10 ^ d.exponent < m := by
  by_contra hcon
  have hpow : (10 : ℝ) ^ k * 10 ^ d.exponent = (1 : Nat) * 10 ^ (k + d.exponent) := by
    rw [zpow_add₀ (by norm_num), zpow_natCast, Nat.cast_one, one_mul]
  have hvalue : (10 : ℝ) ^ k * 10 ^ d.exponent ≤ d.value :=
    mul_le_mul_of_nonneg_right (by exact_mod_cast hle) (ten_zpow_pos _).le
  rw [hpow] at hcon hvalue
  exact h.coarsest 1 _ (by omega) (hm.between hF hinfinity h.isNearest (le_of_not_gt hcon) hvalue)

/-- With fewer digits nothing rounds to the rank. -/
theorem not_hasDigits (hrank : rank ≠ 0) (hm : F.IsNearest m rank) {count : Nat}
    (hle : 10 ^ count ≤ d.digits) : ¬HasDigits count m := by
  rintro ⟨n, e, hn, rfl⟩
  rcases Nat.eq_zero_or_pos count with rfl | hcount
  · exact hm.ne_zero hF hinfinity hrank (Nat.lt_one_iff.1 hn)
  · have hlt := h.ten_pow_lt hF hinfinity hm hcount hle
    have hle' : n * (10 : ℝ) ^ e ≤ 10 ^ count * 10 ^ d.exponent :=
      mul_le_mul (by exact_mod_cast hn.le) (zpow_le_zpow_right₀ (by norm_num) (h.exponent_le hm))
        (ten_zpow_pos e).le (by positivity)
    linarith

/-- What has the rank and as many digits, but on a finer grid, has a single one. -/
theorem eq_zero_of_finer {n k : Nat} {e : ℤ} (hm : F.IsNearest (n * 10 ^ e) rank)
    (he : e < d.exponent) (hle : 10 ^ k ≤ d.digits) (hn : n < 10 ^ (k + 1)) : k = 0 := by
  by_contra hk
  have hlt := h.ten_pow_lt hF hinfinity hm (Nat.pos_of_ne_zero hk) hle
  have hle' : n * (10 : ℝ) ^ e ≤ 10 ^ (k + 1) * 10 ^ (d.exponent - 1) :=
    mul_le_mul (by exact_mod_cast hn.le) (zpow_le_zpow_right₀ (by norm_num) (by omega))
      (ten_zpow_pos e).le (by positivity)
  rw [ten_zpow_eq_mul] at hlt
  rw [pow_succ] at hle'
  linarith

end IsCoarsest

/-- A gap is at most a tenth of the magnitude below it, but for the least ones. -/
theorem ten_mul_gap_le (hlarge : 10 ≤ rank) :
    10 * single.gap rank ≤ single.magnitude rank := by
  have hten : (10 : ℝ) ≤ rank := by exact_mod_cast hlarge
  rcases Nat.lt_or_ge rank single.binade with hlt | hge
  · rw [gap_eq, magnitude, units_of_lt_binade hlt, Nat.div_eq_of_lt hlt, pow_zero, mul_one_div]
    exact div_le_div_of_nonneg_right hten (by positivity)
  · have hgap := gap_le hge
    rw [binade_single, le_div_iff₀ (by norm_num)] at hgap
    have hpos := single.gap_pos rank
    push_cast at hgap
    linarith

/-- If a power of ten and nine tenths of it have the same rank, then the power is not above the
magnitude. The two are farther apart than any cell reaches, save for the first nine ranks, and of
these only the seventh is followed by a power of ten. -/
theorem ten_zpow_le_magnitude (hrank : rank ≠ 0) (hfinite : rank < single.infinity) (e : ℤ)
    (hm : single.IsNearest m rank) (hle : m ≤ 9 * 10 ^ (e - 1))
    (hten : single.IsNearest ((1 : Nat) * 10 ^ e) rank) :
    (1 : Nat) * 10 ^ e ≤ single.magnitude rank := by
  by_contra hcon
  obtain ⟨below, rfl⟩ := Nat.exists_eq_succ_of_ne_zero hrank
  have hlow := hm.middle_le
  have hhigh := hten.le_middle hfinite
  rw [Nat.cast_one, one_mul, ten_zpow_eq_mul] at hcon hhigh
  rcases Nat.lt_or_ge (below + 1) 10 with hsmall | hlarge
  · -- in units, the power is above `below + 1`, and nine tenths of it are not below `below + 1 / 2`
    have hunits {r : Nat} (hr : r ≤ 10) : single.units r = r :=
      units_of_lt_binade (Nat.lt_of_le_of_lt hr (by decide))
    rw [middle_eq, hunits (by omega), hunits (by omega), scale_single] at hlow hhigh
    rw [magnitude, hunits (by omega), scale_single] at hcon
    push_cast at hlow hhigh hcon
    rcases Int.lt_trichotomy (e - 1) (-45) with he | he | he
    · have hpower : (10 : ℝ) ^ (e - 1) ≤ 10 ^ (-46 : ℤ) :=
        zpow_le_zpow_right₀ (by norm_num) (by omega)
      have hnonneg : (0 : ℝ) ≤ below := below.cast_nonneg
      norm_num at hpower hcon
      linarith
    · rw [he] at hle hhigh hcon
      norm_num at hle hhigh hcon
      have hseven : (below : ℝ) < 7 := by linarith
      have hfive : (5 : ℝ) < below := by linarith
      obtain rfl : below = 6 := by
        have : below < 7 := by exact_mod_cast hseven
        have : 5 < below := by exact_mod_cast hfive
        omega
      norm_num at hlow
      linarith
    · have hpower : (10 : ℝ) ^ (-44 : ℤ) ≤ 10 ^ (e - 1) :=
        zpow_le_zpow_right₀ (by norm_num) (by omega)
      have hnine : (below : ℝ) ≤ 8 := by exact_mod_cast (show below ≤ 8 by omega)
      norm_num at hpower hhigh
      linarith
  · have hgap := ten_mul_gap_le hlarge
    have hpos := single.gap_pos (below + 1)
    have hmono := single.gap_mono (Nat.le_succ below)
    rw [middle] at hlow hhigh
    rw [gap] at hmono hpos hgap
    rw [gap] at hmono
    linarith

/-- With as many digits nothing that rounds to the rank is nearer to the magnitude. -/
theorem IsCoarsest.abs_sub_le_of_hasDigits {d : Decimal} (h : IsCoarsest single rank d)
    (hrank : rank ≠ 0) (hfinite : rank < single.infinity) (hm : single.IsNearest m rank) {k : Nat}
    (hle : 10 ^ k ≤ d.digits) (hdigits : HasDigits (k + 1) m) :
    |d.value - single.magnitude rank| ≤ |m - single.magnitude rank| := by
  obtain ⟨n, e, hn, rfl⟩ := hdigits
  rcases Int.lt_or_eq_of_le (h.exponent_le hm) with he | rfl
  · obtain rfl := h.eq_zero_of_finer fractionBits_single infinity_single hm he hle hn
    have hm' : n * (10 : ℝ) ^ e ≤ 9 * 10 ^ (d.exponent - 1) :=
      mul_le_mul (by exact_mod_cast Nat.le_of_lt_succ hn)
        (zpow_le_zpow_right₀ (by norm_num) (by omega)) (ten_zpow_pos e).le (by norm_num)
    -- the power of ten lies between the one digit and the decimal
    have hbelow : n * (10 : ℝ) ^ e ≤ (1 : Nat) * 10 ^ d.exponent := by
      rw [Nat.cast_one, one_mul, ten_zpow_eq_mul d.exponent]
      linarith [ten_zpow_pos (d.exponent - 1)]
    have habove : (1 : Nat) * 10 ^ d.exponent ≤ d.value :=
      mul_le_mul_of_nonneg_right (by exact_mod_cast hle) (ten_zpow_pos _).le
    have hone := hm.between fractionBits_single infinity_single h.isNearest hbelow habove
    exact h.abs_sub_le_of_lt_ten_zpow hone hbelow
      (ten_zpow_le_magnitude hrank hfinite _ hm hm' hone)
  · exact h.nearest n hm

end Format

end Planimeter
