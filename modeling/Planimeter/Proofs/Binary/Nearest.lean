import Planimeter.Proofs.Binary.Rounding
import Mathlib.Analysis.Real.Sqrt
import Mathlib.Tactic.FieldSimp
import Mathlib.Tactic.Linarith
import Mathlib.Tactic.NormNum
import Mathlib.Tactic.Positivity
/-!
# Nearest ranks of real numbers

A rank stands for a real number, its magnitude, and every real number that is not negative has a
nearest rank: the finite one at the least distance, the even one of two at the same distance, and
infinity from the middle between the last finite magnitude and what would come after it. There is
at most one such rank, it grows with the number, and it is at most half a gap between neighbours
away. The main statement is that rounding a quotient of units finds it, for the number itself and
for any other that lies on the same side of every whole and half unit.
-/
namespace Planimeter.Format

variable {F : Format} {m m' : ℝ} {rank rank' num den : Nat}

/-- The gap above a rank is a power of two that depends on its binade only. -/
theorem units_succ (F : Format) (rank : Nat) :
    F.units (rank + 1) = F.units rank + 2 ^ (rank / F.binade - 1) := by
  have hpos := F.binade_pos
  obtain ⟨shift, significand, rfl, hlt, hge⟩ := F.exists_grid rank
  have hshift : (shift * F.binade + significand) / F.binade - 1 = shift := by
    rw [Nat.mul_comm, Nat.mul_add_div hpos]
    rcases hge with rfl | hge
    · have : significand / F.binade < 2 := Nat.div_lt_of_lt_mul (by omega)
      omega
    · rw [Nat.div_eq_of_lt_le (show 1 * F.binade ≤ significand by omega) (by omega)]
      omega
  rw [hshift, units_grid shift (by omega) hge, Nat.add_assoc, units_grid shift hlt (by omega),
    Nat.succ_mul]

/-- Twice a magnitude is a magnitude again, if infinity does not end the ranks. -/
theorem exists_units_double (F : Format) (rank : Nat) :
    ∃ double, F.units double = 2 * F.units rank := by
  obtain ⟨shift, significand, rfl, hlt, hge⟩ := F.exists_grid rank
  rcases Nat.lt_or_ge significand F.binade with hsmall | hlarge
  · obtain rfl : shift = 0 := by omega
    refine ⟨0 * F.binade + 2 * significand, ?_⟩
    rw [units_grid 0 (by omega) (.inl rfl), units_grid 0 (by omega) (.inl rfl)]
    omega
  · refine ⟨(shift + 1) * F.binade + significand, ?_⟩
    rw [units_grid _ (by omega) (.inr hlarge), units_grid _ (by omega) hge, Nat.pow_succ]
    ring

theorem exists_units_eq_two_pow (F : Format) (n : Nat) : ∃ rank, F.units rank = 2 ^ n := by
  have hbinade : F.binade = 2 ^ F.fractionBits := rfl
  rcases Nat.lt_or_ge n F.fractionBits with h | h
  · exact ⟨2 ^ n, units_of_lt_binade (hbinade ▸ Nat.pow_lt_pow_right (by decide) h)⟩
  · obtain ⟨shift, rfl⟩ := Nat.exists_eq_add_of_le h
    refine ⟨shift * F.binade + F.binade, ?_⟩
    rw [units_grid shift (by omega) (.inr le_rfl), hbinade, Nat.pow_add]

/-- The number that a finite rank stands for. That of infinity is what would come next. -/
noncomputable def magnitude (F : Format) (rank : Nat) : ℝ := F.units rank / 2 ^ F.scale

/-- The gap between a rank and the next one. -/
noncomputable def gap (F : Format) (rank : Nat) : ℝ := F.magnitude (rank + 1) - F.magnitude rank

/-- Halfway between a rank and the next one. -/
noncomputable def middle (F : Format) (rank : Nat) : ℝ :=
  (F.magnitude rank + F.magnitude (rank + 1)) / 2

theorem magnitude_strictMono (F : Format) : StrictMono F.magnitude := fun _ _ h =>
  div_lt_div_of_pos_right (Nat.cast_lt.2 (F.units_strictMono h)) (by positivity)

@[simp] theorem magnitude_le_iff : F.magnitude rank ≤ F.magnitude rank' ↔ rank ≤ rank' :=
  F.magnitude_strictMono.le_iff_le

@[simp] theorem magnitude_lt_iff : F.magnitude rank < F.magnitude rank' ↔ rank < rank' :=
  F.magnitude_strictMono.lt_iff_lt

@[simp] theorem magnitude_zero (F : Format) : F.magnitude 0 = 0 := by
  simp [magnitude, units_of_lt_binade F.binade_pos]

theorem magnitude_nonneg (F : Format) (rank : Nat) : 0 ≤ F.magnitude rank := by
  rw [← F.magnitude_zero, magnitude_le_iff]
  exact Nat.zero_le _

@[simp] theorem magnitude_pos_iff : 0 < F.magnitude rank ↔ 0 < rank := by
  rw [← F.magnitude_zero, magnitude_lt_iff]

theorem exists_magnitude_double (F : Format) (rank : Nat) :
    ∃ double, F.magnitude double = 2 * F.magnitude rank := by
  obtain ⟨double, h⟩ := F.exists_units_double rank
  refine ⟨double, ?_⟩
  rw [magnitude, h, magnitude]
  push_cast
  ring

theorem gap_eq (F : Format) (rank : Nat) :
    F.gap rank = 2 ^ (rank / F.binade - 1) / 2 ^ F.scale := by
  rw [gap, magnitude, magnitude, units_succ]
  push_cast
  ring

theorem gap_pos (F : Format) (rank : Nat) : 0 < F.gap rank := by
  rw [gap_eq]
  positivity

theorem gap_mono (F : Format) : Monotone F.gap := by
  intro a b h
  rw [gap_eq, gap_eq]
  have hpow : (2 : ℝ) ^ (a / F.binade - 1) ≤ 2 ^ (b / F.binade - 1) :=
    pow_le_pow_right₀ (by norm_num) (Nat.sub_le_sub_right (Nat.div_le_div_right h) 1)
  exact div_le_div_of_nonneg_right hpow (by positivity)

/-- Above the subnormal ranks a gap is at most one part in the number of ranks of a binade. -/
theorem gap_le (h : F.binade ≤ rank) : F.gap rank ≤ F.magnitude rank / F.binade := by
  have hpos : (0 : ℝ) < F.binade := by exact_mod_cast F.binade_pos
  have hunits : F.binade * 2 ^ (rank / F.binade - 1) ≤ F.units rank := by
    have hne : rank / F.binade ≠ 0 := by
      have := (Nat.div_pos_iff (a := rank)).2 ⟨F.binade_pos, h⟩
      omega
    simp only [units, if_neg hne]
    exact Nat.mul_le_mul_right _ (Nat.le_add_right _ _)
  have hunits' : (F.binade : ℝ) * 2 ^ (rank / F.binade - 1) ≤ F.units rank := by
    exact_mod_cast hunits
  rw [gap_eq, magnitude, le_div_iff₀ hpos, div_mul_eq_mul_div]
  exact div_le_div_of_nonneg_right (by linarith) (by positivity)

/-- The middle, as a number of half units. -/
theorem middle_eq (F : Format) (rank : Nat) :
    F.middle rank = (F.units rank + F.units (rank + 1) : Nat) / (2 * 2 ^ F.scale) := by
  rw [middle, magnitude, magnitude]
  push_cast
  ring

theorem middle_strictMono : StrictMono F.middle := by
  intro a b h
  have hnext : F.magnitude (a + 1) < F.magnitude (b + 1) := magnitude_lt_iff.2 (by omega)
  rw [middle, middle]
  linarith [magnitude_lt_iff (F := F).2 h]

theorem middle_mono : Monotone F.middle := middle_strictMono.monotone

/-- Infinity opens a binade, and so its rank is even. -/
theorem infinity_mod_two (F : Format) (hF : 0 < F.fractionBits) : F.infinity % 2 = 0 := by
  obtain ⟨bits, hbits⟩ := Nat.exists_eq_add_of_lt hF
  simp only [infinity, binade, Nat.pow_eq, hbits, Nat.zero_add, Nat.pow_succ, ← Nat.mul_assoc,
    Nat.mul_mod_left]

/-- The rank that a number rounds to. A rank is even exactly if its significand is. -/
structure IsNearest (F : Format) (m : ℝ) (rank : Nat) : Prop where
  le_infinity : rank ≤ F.infinity
  overflow : rank = F.infinity ↔ F.middle (F.infinity - 1) ≤ m
  nearest : rank < F.infinity → ∀ other < F.infinity,
    |F.magnitude rank - m| ≤ |F.magnitude other - m|
  even : rank < F.infinity → ∀ other < F.infinity, other ≠ rank →
    |F.magnitude rank - m| = |F.magnitude other - m| → rank % 2 = 0

namespace IsNearest

/-- Nothing that lies beyond the next middle rounds to a finite rank. -/
theorem le_middle (h : F.IsNearest m rank) (hfinite : rank < F.infinity) : m ≤ F.middle rank := by
  rcases Nat.eq_or_lt_of_le (Nat.succ_le_of_lt hfinite) with hlast | hnext
  · have hm : ¬F.middle (F.infinity - 1) ≤ m := fun hm => by
      have := h.overflow.2 hm
      omega
    obtain rfl : rank = F.infinity - 1 := by omega
    exact le_of_not_ge hm
  · have hdist := h.nearest hfinite _ hnext
    have hlt : F.magnitude rank < F.magnitude (rank + 1) := magnitude_lt_iff.2 (by omega)
    by_contra hcon
    rw [middle, not_le, div_lt_iff₀ (by norm_num)] at hcon
    rw [abs_of_neg (by linarith)] at hdist
    rcases le_total m (F.magnitude (rank + 1)) with hle | hle
    · rw [abs_of_nonneg (by linarith)] at hdist
      linarith
    · rw [abs_of_nonpos (by linarith)] at hdist
      linarith

theorem middle_le (h : F.IsNearest m (rank + 1)) : F.middle rank ≤ m := by
  rcases Nat.eq_or_lt_of_le h.le_infinity with hlast | hfinite
  · have hm := h.overflow.1 hlast
    rwa [← hlast, Nat.add_sub_cancel] at hm
  · have hdist := h.nearest hfinite rank (by omega)
    have hlt : F.magnitude rank < F.magnitude (rank + 1) := magnitude_lt_iff.2 (by omega)
    by_contra hcon
    rw [middle, not_le, lt_div_iff₀ (by norm_num)] at hcon
    rw [abs_of_pos (by linarith)] at hdist
    rcases le_total m (F.magnitude rank) with hle | hle
    · rw [abs_of_nonneg (by linarith)] at hdist
      linarith
    · rw [abs_of_nonpos (by linarith)] at hdist
      linarith

/-- The nearest rank grows with the number; in particular there is only one. -/
theorem mono (h : F.IsNearest m rank) (h' : F.IsNearest m' rank') (hle : m ≤ m') :
    rank ≤ rank' := by
  by_contra hcon
  have hlt : rank' < rank := by omega
  have hfinite' : rank' < F.infinity := Nat.lt_of_lt_of_le hlt h.le_infinity
  obtain ⟨below, rfl⟩ := Nat.exists_eq_add_of_lt hlt
  have hmid : F.middle rank' ≤ F.middle (rank' + below) := middle_mono (Nat.le_add_right _ _)
  have hhigh := h'.le_middle hfinite'
  have hlow := h.middle_le
  -- both numbers are the middle of two neighbours, which then are equally near and both even
  have hm : m = F.middle rank' := by linarith
  have hm' : m' = F.middle rank' := by linarith
  have heq : F.middle rank' = F.middle (rank' + below) := by linarith
  obtain rfl : below = 0 := by
    by_contra hne
    exact absurd heq (ne_of_lt (middle_strictMono (by omega)))
  have hdist : |F.magnitude rank' - m'| = |F.magnitude (rank' + 1) - m'| := by
    have hgap : F.magnitude rank' < F.magnitude (rank' + 1) := magnitude_lt_iff.2 (by omega)
    rw [hm', middle, abs_of_neg (by linarith), abs_of_pos (by linarith)]
    ring
  rcases Nat.eq_or_lt_of_le h.le_infinity with hlast | hfinite
  · have hover : rank' = F.infinity := h'.overflow.2 (by
      rw [← hlast, hm']
      rfl)
    omega
  · have heven := h.even hfinite rank' hfinite' (by omega) (by rw [hm, ← hm']; exact hdist.symm)
    have heven' := h'.even hfinite' _ hfinite (by omega) hdist
    omega

theorem eq (h : F.IsNearest m rank) (h' : F.IsNearest m rank') : rank = rank' :=
  Nat.le_antisymm (h.mono h' le_rfl) (h'.mono h le_rfl)

end IsNearest

/-- A number between the middles around a finite rank rounds to it, and at a middle if the rank is
even. -/
theorem isNearest_of_middle (hF : 0 < F.fractionBits) (hfinite : rank < F.infinity)
    (hlow : 0 < rank → F.middle (rank - 1) ≤ m) (hhigh : m ≤ F.middle rank)
    (hodd : rank % 2 = 1 → F.middle (rank - 1) < m ∧ m < F.middle rank) :
    F.IsNearest m rank := by
  have hbelow {other : Nat} (h : other < rank) :
      |F.magnitude rank - m| ≤ m - F.magnitude other ∧
        (rank % 2 = 1 → |F.magnitude rank - m| < m - F.magnitude other) := by
    have hother : F.magnitude other ≤ F.magnitude (rank - 1) := magnitude_le_iff.2 (by omega)
    have hrank : F.magnitude (rank - 1) < F.magnitude rank := magnitude_lt_iff.2 (by omega)
    have hlow := hlow (by omega)
    simp only [middle, Nat.sub_add_cancel (Nat.one_le_of_lt h)] at hlow hodd
    refine ⟨abs_le.2 ⟨by linarith, by linarith⟩, fun hparity => abs_lt.2 ⟨by linarith, ?_⟩⟩
    linarith [(hodd hparity).1]
  have habove {other : Nat} (h : rank < other) :
      |F.magnitude rank - m| ≤ F.magnitude other - m ∧
        (rank % 2 = 1 → |F.magnitude rank - m| < F.magnitude other - m) := by
    have hother : F.magnitude (rank + 1) ≤ F.magnitude other := magnitude_le_iff.2 (by omega)
    have hrank : F.magnitude rank < F.magnitude (rank + 1) := magnitude_lt_iff.2 (by omega)
    simp only [middle] at hhigh hodd
    refine ⟨abs_le.2 ⟨by linarith, by linarith⟩, fun hparity => abs_lt.2 ⟨?_, by linarith⟩⟩
    linarith [(hodd hparity).2]
  refine ⟨hfinite.le, ⟨fun h => absurd h hfinite.ne, fun h => ?_⟩, fun _ other _ => ?_,
    fun _ other _ hne heq => ?_⟩
  · -- the last finite rank is odd, so that the middle after it is not its own
    have hle : F.middle rank ≤ F.middle (F.infinity - 1) := middle_mono (by omega)
    have hlast : rank = F.infinity - 1 := by
      by_contra hne
      have := middle_strictMono (F := F) (show rank < F.infinity - 1 by omega)
      linarith
    have heven := F.infinity_mod_two hF
    have hlt := (hodd (by omega)).2
    rw [hlast] at hlt
    linarith
  · rcases Nat.lt_trichotomy other rank with h | rfl | h
    · exact (hbelow h).1.trans (by rw [abs_sub_comm]; exact le_abs_self _)
    · exact le_rfl
    · exact (habove h).1.trans (le_abs_self _)
  · by_contra hparity
    rcases Nat.lt_or_gt_of_ne hne with h | h
    · have hlt := (hbelow h).2 (by omega)
      have habs := le_abs_self (m - F.magnitude other)
      rw [abs_sub_comm m] at habs
      linarith
    · have hlt := (habove h).2 (by omega)
      have habs := le_abs_self (F.magnitude other - m)
      linarith

/-- A finite magnitude rounds to its own rank. -/
theorem isNearest_magnitude (hF : 0 < F.fractionBits) (hfinite : rank < F.infinity) :
    F.IsNearest (F.magnitude rank) rank := by
  have hhigh : F.magnitude rank < F.magnitude (rank + 1) := magnitude_lt_iff.2 (by omega)
  have hlow (h : 0 < rank) : F.middle (rank - 1) < F.magnitude rank := by
    have : F.magnitude (rank - 1) < F.magnitude rank := magnitude_lt_iff.2 (by omega)
    rw [middle, Nat.sub_add_cancel h]
    linarith
  refine isNearest_of_middle hF hfinite (fun h => (hlow h).le) ?_
    fun h => ⟨hlow (by omega), ?_⟩
  · rw [middle]
    linarith
  · rw [middle]
    linarith

theorem isNearest_zero (hF : 0 < F.fractionBits) (hinfinity : 0 < F.infinity) :
    F.IsNearest 0 0 := by
  simpa using isNearest_magnitude hF hinfinity

namespace IsNearest

theorem le_of_magnitude_le (h : F.IsNearest m rank) (hF : 0 < F.fractionBits)
    (hfinite : rank' < F.infinity) (hle : F.magnitude rank' ≤ m) : rank' ≤ rank :=
  (isNearest_magnitude hF hfinite).mono h hle

theorem le_of_le_magnitude (h : F.IsNearest m rank) (hF : 0 < F.fractionBits)
    (hle : m ≤ F.magnitude rank') : rank ≤ rank' := by
  rcases Nat.lt_or_ge rank' F.infinity with hfinite | hinfinite
  · exact h.mono (isNearest_magnitude hF hfinite) hle
  · exact h.le_infinity.trans hinfinite

/-- What rounds to a finite rank is at most half a gap above its magnitude. -/
theorem sub_magnitude_le (h : F.IsNearest m rank) (hfinite : rank < F.infinity) :
    m - F.magnitude rank ≤ F.gap rank / 2 := by
  have := h.le_middle hfinite
  rw [middle] at this
  rw [gap]
  linarith

/-- What rounds to a rank is at most half a gap below its magnitude. -/
theorem magnitude_sub_le (h : F.IsNearest m (rank + 1)) :
    F.magnitude (rank + 1) - m ≤ F.gap rank / 2 := by
  have := h.middle_le
  rw [middle] at this
  rw [gap]
  linarith

/-- Rounding to a finite rank moves a number by at most one part in twice the number of ranks of a
binade, unless the number is subnormal. -/
theorem abs_sub_le (h : F.IsNearest m rank) (hF : 0 < F.fractionBits) (hfinite : rank < F.infinity)
    (hnormal : F.magnitude F.binade ≤ m) (hbinade : F.binade < F.infinity) :
    |F.magnitude rank - m| ≤ m / (2 * F.binade) := by
  have hpos : (0 : ℝ) < F.binade := by exact_mod_cast F.binade_pos
  have hrank : F.binade ≤ rank := h.le_of_magnitude_le hF hbinade hnormal
  have bound {r : Nat} (hr : F.binade ≤ r) (hm : F.magnitude r ≤ m) :
      F.gap r / 2 ≤ m / (2 * F.binade) := by
    have hgap := gap_le hr
    have hdiv : F.magnitude r / F.binade ≤ m / F.binade := div_le_div_of_nonneg_right hm hpos.le
    rw [mul_comm, ← div_div]
    linarith
  rcases le_or_gt (F.magnitude rank) m with hle | hgt
  · rw [abs_of_nonpos (by linarith)]
    linarith [h.sub_magnitude_le hfinite, bound hrank hle]
  · -- the number lies between this rank and the one below, which is still no subnormal one
    have hlt : F.binade < rank := magnitude_lt_iff.1 (lt_of_le_of_lt hnormal hgt)
    obtain ⟨below, rfl⟩ := Nat.exists_eq_add_of_lt hlt
    have hgap := h.magnitude_sub_le
    have hmiddle := h.middle_le
    have hbelow : F.magnitude (F.binade + below) ≤ F.magnitude (F.binade + below + 1) :=
      magnitude_le_iff.2 (Nat.le_succ _)
    rw [middle] at hmiddle
    rw [abs_of_pos (by linarith)]
    linarith [bound (r := F.binade + below) (by omega) (by linarith)]

end IsNearest

theorem nearest_eq_infinity_iff (hF : 0 < F.fractionBits) (hden : 0 < den)
    (hinfinity : 0 < F.infinity) : F.nearest num den = F.infinity ↔
      (F.units (F.infinity - 1) + F.units F.infinity) * den ≤ 2 * num := by
  have hle := F.units_floorRank_le num den
  have hlt := F.lt_units_floorRank_succ num hden
  have hparity := F.infinity_mod_two hF
  rw [nearest_eq_floorRank hF num hden]
  generalize F.floorRank num den = floor at *
  have mono {a b : Nat} (h : a ≤ b) : F.units a * den ≤ F.units b * den :=
    Nat.mul_le_mul_right _ (F.units_strictMono.monotone h)
  rcases Nat.lt_trichotomy floor (F.infinity - 1) with hbelow | rfl | habove
  · have hnext := mono (show floor + 1 ≤ F.infinity - 1 by omega)
    have hlast := mono (show F.infinity - 1 ≤ F.infinity by omega)
    simp only [Nat.add_mul]
    constructor
    · intro h
      split at h <;> (try split at h) <;> omega
    · omega
  · rw [Nat.sub_add_cancel hinfinity]
    generalize (F.units (F.infinity - 1) + F.units F.infinity) * den = middle
    split
    · omega
    · split <;> omega
  · have hlast := mono (show F.infinity - 1 ≤ floor by omega)
    have hnext := mono (show F.infinity ≤ floor by omega)
    simp only [Nat.add_mul]
    omega

/-- The rank that rounding a quotient finds is nearest to every number that compares to the whole
and half units as the quotient does. -/
theorem isNearest_nearest (hF : 0 < F.fractionBits) (hinfinity : 0 < F.infinity) (hden : 0 < den)
    (hle : ∀ n : Nat, (n : ℝ) / (2 * 2 ^ F.scale) ≤ m ↔ n * den ≤ 2 * num)
    (hge : ∀ n : Nat, m ≤ (n : ℝ) / (2 * 2 ^ F.scale) ↔ 2 * num ≤ n * den) :
    F.IsNearest m (F.nearest num den) := by
  rcases Nat.eq_or_lt_of_le (F.nearest_le num den) with hlast | hfinite
  · have hover := (nearest_eq_infinity_iff hF hden hinfinity).1 hlast
    rw [hlast]
    refine ⟨le_rfl, ⟨fun _ => ?_, fun _ => rfl⟩, fun h => absurd h (lt_irrefl _),
      fun h => absurd h (lt_irrefl _)⟩
    rw [middle_eq, Nat.sub_add_cancel hinfinity, hle]
    exact hover
  · have hcell := (nearest_eq_iff hF hden hfinite).1 rfl
    generalize F.nearest num den = rank at *
    have hlow : F.middle (rank - 1) ≤ m ↔
        (F.units (rank - 1) + F.units (rank - 1 + 1)) * den ≤ 2 * num := by rw [middle_eq, hle]
    have hhigh : m ≤ F.middle rank ↔
        2 * num ≤ (F.units rank + F.units (rank + 1)) * den := by rw [middle_eq, hge]
    have hlow' : F.middle (rank - 1) < m ↔
        (F.units (rank - 1) + F.units (rank - 1 + 1)) * den < 2 * num := by
      rw [middle_eq, ← not_le, hge, Nat.not_le]
    have hhigh' : m < F.middle rank ↔
        2 * num < (F.units rank + F.units (rank + 1)) * den := by
      rw [middle_eq, ← not_le, hle, Nat.not_le]
    simp only [InCell] at hcell
    refine isNearest_of_middle hF hfinite (fun hpos => ?_) ?_ fun hodd => ?_
    · rw [hlow, Nat.sub_add_cancel hpos]
      split at hcell <;> omega
    · rw [hhigh]
      split at hcell <;> omega
    · rw [hlow', hhigh', Nat.sub_add_cancel (by omega : 1 ≤ rank)]
      rwa [if_neg (by omega)] at hcell

/-- A quotient of units is rounded to its nearest rank. -/
theorem isNearest_nearest_div (hF : 0 < F.fractionBits) (hinfinity : 0 < F.infinity)
    (num : Nat) (hden : 0 < den) :
    F.IsNearest (num / den / 2 ^ F.scale) (F.nearest num den) := by
  have hden' : (0 : ℝ) < den := Nat.cast_pos.2 hden
  have hscale : (0 : ℝ) < 2 ^ F.scale := by positivity
  have hleft (n : Nat) : (n : ℝ) * (den * 2 ^ F.scale) = (n * den : Nat) * 2 ^ F.scale := by
    push_cast
    ring
  have hright : (num : ℝ) * (2 * 2 ^ F.scale) = (2 * num : Nat) * 2 ^ F.scale := by
    push_cast
    ring
  rw [div_div]
  refine isNearest_nearest hF hinfinity hden (fun n => ?_) (fun n => ?_)
  · rw [div_le_div_iff₀ (by positivity) (by positivity), hleft, hright,
      mul_le_mul_iff_left₀ hscale, Nat.cast_le]
  · rw [div_le_div_iff₀ (by positivity) (by positivity), hleft, hright,
      mul_le_mul_iff_left₀ hscale, Nat.cast_le]

end Planimeter.Format
