import Planimeter.Binary.Basic
import Mathlib.Order.Monotone.Basic
import Mathlib.Tactic.Ring
/-!
# Ranks, magnitudes and rounding

Magnitudes grow strictly with the rank, so the halfway points between neighbours cut the rationals
into cells, one for each rank. Rounding first finds the last rank at or below a quotient, by its
binary logarithm, and then looks on which side of the next halfway point the quotient lies. The main
statement is that a quotient rounds to a finite rank exactly when it lies in the cell of the rank.
-/
namespace Planimeter.Format

variable {F : Format} {num den : Nat}

theorem units_of_lt_binade {rank : Nat} (h : rank < F.binade) : F.units rank = rank := by
  simp only [units, Nat.div_eq_of_lt h, Nat.mod_eq_of_lt h, if_true]

/-- A rank is a significand in the grid of some shift. The significand that opens the next binade
may be written in the grid of this one. -/
theorem units_grid (shift : Nat) {significand : Nat} (hle : significand ≤ 2 * F.binade)
    (hge : shift = 0 ∨ F.binade ≤ significand) :
    F.units (shift * F.binade + significand) = significand * 2 ^ shift := by
  have hpos := F.binade_pos
  rcases Nat.lt_or_ge significand F.binade with hlt | hge'
  · obtain rfl : shift = 0 := by omega
    simpa using units_of_lt_binade hlt
  · rcases Nat.eq_or_lt_of_le hle with rfl | hlt
    · have he : shift * F.binade + 2 * F.binade = F.binade * (shift + 2) := by
        rw [← Nat.add_mul, Nat.mul_comm]
      simp only [units, he, Nat.mul_div_cancel_left _ hpos, Nat.mul_mod_right]
      change F.binade * 2 ^ (shift + 1) = 2 * F.binade * 2 ^ shift
      rw [Nat.pow_succ', ← Nat.mul_assoc, Nat.mul_comm F.binade]
    · obtain ⟨fraction, rfl⟩ := Nat.exists_eq_add_of_le hge'
      have hf : fraction < F.binade := by omega
      have he : shift * F.binade + (F.binade + fraction) = fraction + F.binade * (shift + 1) := by
        rw [Nat.mul_comm F.binade, Nat.add_mul]
        omega
      simp only [units, he, Nat.add_mul_div_left _ _ hpos, Nat.div_eq_of_lt hf,
        Nat.add_mul_mod_self_left, Nat.mod_eq_of_lt hf]
      simp

/-- Every rank is a significand in the grid of a shift, and below the end of its binade. -/
theorem exists_grid (F : Format) (rank : Nat) :
    ∃ shift significand, rank = shift * F.binade + significand ∧ significand < 2 * F.binade ∧
      (shift = 0 ∨ F.binade ≤ significand) := by
  have hmod := Nat.mod_lt rank F.binade_pos
  have hdiv := Nat.div_add_mod rank F.binade
  cases he : rank / F.binade with
  | zero =>
    rw [he, Nat.mul_zero] at hdiv
    exact ⟨0, rank, by omega, by omega, .inl rfl⟩
  | succ shift =>
    refine ⟨shift, F.binade + rank % F.binade, ?_, by omega, .inr (by omega)⟩
    rw [he, Nat.mul_succ] at hdiv
    rw [Nat.mul_comm]
    omega

theorem units_lt_succ (F : Format) (rank : Nat) : F.units rank < F.units (rank + 1) := by
  obtain ⟨shift, significand, rfl, hlt, hge⟩ := exists_grid F rank
  rw [units_grid shift (by omega) hge, Nat.add_assoc, units_grid shift (by omega) (by omega)]
  exact Nat.mul_lt_mul_of_pos_right (Nat.lt_succ_self _) (Nat.two_pow_pos _)

theorem units_strictMono (F : Format) : StrictMono F.units :=
  strictMono_nat_of_lt_succ F.units_lt_succ

/-- The last rank whose magnitude is at most `num / den` units. -/
def floorRank (F : Format) (num den : Nat) : Nat :=
  let shift := (num / den).log2 - F.fractionBits
  shift * F.binade + num / (den * 2 ^ shift)

/-- The significand of a quotient in the grid that its logarithm selects. -/
theorem significand_bounds (F : Format) (num den : Nat) :
    let shift := (num / den).log2 - F.fractionBits
    num / (den * 2 ^ shift) < 2 * F.binade ∧
      (shift = 0 ∨ F.binade ≤ num / (den * 2 ^ shift)) := by
  intro shift
  rw [← Nat.div_div_eq_div_mul]
  have hbinade : F.binade = 2 ^ F.fractionBits := rfl
  constructor
  · rw [Nat.div_lt_iff_lt_mul (Nat.two_pow_pos _), hbinade, ← Nat.pow_succ', ← Nat.pow_add]
    calc num / den < 2 ^ ((num / den).log2 + 1) := Nat.lt_log2_self
      _ ≤ 2 ^ (F.fractionBits + 1 + shift) := Nat.pow_le_pow_right (by decide) (by omega)
  · rcases Nat.eq_zero_or_pos shift with h | h
    · exact .inl h
    · have hne : num / den ≠ 0 := by
        intro h0
        simp [shift, h0] at h
      right
      rw [Nat.le_div_iff_mul_le (Nat.two_pow_pos _), hbinade, ← Nat.pow_add]
      calc 2 ^ (F.fractionBits + shift) = 2 ^ (num / den).log2 := by congr 1; omega
        _ ≤ num / den := Nat.log2_self_le hne

theorem units_floorRank (F : Format) (num den : Nat) :
    let shift := (num / den).log2 - F.fractionBits
    F.units (F.floorRank num den) = num / (den * 2 ^ shift) * 2 ^ shift ∧
      F.units (F.floorRank num den + 1) = (num / (den * 2 ^ shift) + 1) * 2 ^ shift := by
  intro shift
  obtain ⟨hlt, hge⟩ := F.significand_bounds num den
  constructor
  · exact units_grid shift (Nat.le_of_lt hlt) hge
  · exact units_grid shift hlt (hge.imp_right (Nat.le_succ_of_le ·))

theorem units_floorRank_le (F : Format) (num den : Nat) :
    F.units (F.floorRank num den) * den ≤ num := by
  rw [(F.units_floorRank num den).1, Nat.mul_assoc, Nat.mul_comm _ den]
  exact Nat.div_mul_le_self _ _

theorem lt_units_floorRank_succ (F : Format) (num : Nat) (hden : 0 < den) :
    num < F.units (F.floorRank num den + 1) * den := by
  rw [(F.units_floorRank num den).2, Nat.mul_assoc, Nat.mul_comm _ den, Nat.mul_comm]
  exact Nat.lt_mul_div_succ num (Nat.mul_pos hden (Nat.two_pow_pos _))

theorem floorRank_mod_two (hF : 0 < F.fractionBits) (num den : Nat) :
    F.floorRank num den % 2 = num / (den * 2 ^ ((num / den).log2 - F.fractionBits)) % 2 := by
  have heven : F.binade % 2 = 0 := by
    obtain ⟨bits, hbits⟩ := Nat.exists_eq_add_of_lt hF
    simp only [binade, Nat.pow_eq, hbits, Nat.zero_add, Nat.pow_succ, Nat.mul_mod_left]
  simp [floorRank, Nat.add_mod, Nat.mul_mod, heven]

/-- The quotients `num / den` that lie nearer to the magnitude of a rank than to those of its
neighbours; an even rank has the two halfway points as well. -/
def InCell (F : Format) (rank num den : Nat) : Prop :=
  let low := (F.units (rank - 1) + F.units rank) * den
  let high := (F.units rank + F.units (rank + 1)) * den
  if rank % 2 = 0 then low ≤ 2 * num ∧ 2 * num ≤ high else low < 2 * num ∧ 2 * num < high

/-- Rounding compares twice the quotient with the two magnitudes around it. -/
theorem nearest_eq_floorRank (hF : 0 < F.fractionBits) (num : Nat) (hden : 0 < den) :
    let floor := F.floorRank num den
    let middle := (F.units floor + F.units (floor + 1)) * den
    F.nearest num den =
      min (floor + if middle < 2 * num then 1 else if 2 * num = middle then floor % 2 else 0)
        F.infinity := by
  intro floor middle
  have hunits := F.units_floorRank num den
  have hparity := floorRank_mod_two hF num den
  simp only [floor, middle, hparity, hunits]
  generalize hshift : (num / den).log2 - F.fractionBits = shift
  have hstep : 0 < den * 2 ^ shift := Nat.mul_pos hden (Nat.two_pow_pos _)
  have hdiv := Nat.div_add_mod num (den * 2 ^ shift)
  have hmiddle : (num / (den * 2 ^ shift) * 2 ^ shift
      + (num / (den * 2 ^ shift) + 1) * 2 ^ shift) * den =
        2 * (den * 2 ^ shift * (num / (den * 2 ^ shift))) + den * 2 ^ shift := by ring
  have hlt : den * 2 ^ shift < 2 * (num % (den * 2 ^ shift)) ↔
      2 * (den * 2 ^ shift * (num / (den * 2 ^ shift))) + den * 2 ^ shift < 2 * num := by omega
  have heq : 2 * (num % (den * 2 ^ shift)) = den * 2 ^ shift ↔
      2 * num = 2 * (den * 2 ^ shift * (num / (den * 2 ^ shift))) + den * 2 ^ shift := by omega
  simp only [nearest, floorRank, hshift, Nat.pow_eq, hmiddle, hlt, heq]

theorem InCell.bounds {rank : Nat} (h : F.InCell rank num den) :
    F.units (rank - 1) * den + F.units rank * den ≤ 2 * num ∧
      2 * num ≤ F.units rank * den + F.units (rank + 1) * den := by
  rw [← Nat.add_mul, ← Nat.add_mul]
  unfold InCell at h
  split at h
  · exact h
  · exact ⟨Nat.le_of_lt h.1, Nat.le_of_lt h.2⟩

/-- A quotient between two neighbours can only be in the cell of one of them. -/
theorem InCell.rank_eq {rank floor : Nat} (h : F.InCell rank num den) (hden : 0 < den)
    (hle : F.units floor * den ≤ num) (hlt : num < F.units (floor + 1) * den) :
    rank = floor ∨ rank = floor + 1 := by
  obtain ⟨hlow, hhigh⟩ := h.bounds
  have mono {a b : Nat} (hab : a ≤ b) : F.units a * den ≤ F.units b * den :=
    Nat.mul_le_mul_right _ (F.units_strictMono.monotone hab)
  have strict {a b : Nat} (hab : a < b) : F.units a * den < F.units b * den :=
    Nat.mul_lt_mul_of_pos_right (F.units_strictMono hab) hden
  have hfloor : floor ≤ rank := by
    by_contra hcon
    have := strict (show rank < floor by omega)
    have := mono (show rank + 1 ≤ floor by omega)
    omega
  have hsucc : rank ≤ floor + 1 := by
    by_contra hcon
    have := strict (show floor + 1 < rank by omega)
    have := mono (show floor + 1 ≤ rank - 1 by omega)
    omega
  omega

/-- A quotient between two neighbours is in the cell of the lower one up to the middle, and in the
middle if that one is even. -/
theorem inCell_floor_iff {floor : Nat} (hden : 0 < den) (hle : F.units floor * den ≤ num)
    (hlt : num < F.units (floor + 1) * den) : F.InCell floor num den ↔
    2 * num < (F.units floor + F.units (floor + 1)) * den ∨
      2 * num = (F.units floor + F.units (floor + 1)) * den ∧ floor % 2 = 0 := by
  have hprev : F.units (floor - 1) * den ≤ F.units floor * den :=
    Nat.mul_le_mul_right _ (F.units_strictMono.monotone (Nat.sub_le _ _))
  have hprev_odd (h : floor % 2 = 1) : F.units (floor - 1) * den < F.units floor * den :=
    Nat.mul_lt_mul_of_pos_right (F.units_strictMono (by omega)) hden
  simp only [InCell, Nat.add_mul]
  split <;> omega

/-- It is in the cell of the upper one beyond the middle, and in the middle if that one is even. -/
theorem inCell_succ_iff {floor : Nat} (hden : 0 < den) (hlt : num < F.units (floor + 1) * den) :
    F.InCell (floor + 1) num den ↔
    (F.units floor + F.units (floor + 1)) * den < 2 * num ∨
      2 * num = (F.units floor + F.units (floor + 1)) * den ∧ floor % 2 = 1 := by
  have hnext : F.units (floor + 1) * den < F.units (floor + 1 + 1) * den :=
    Nat.mul_lt_mul_of_pos_right (F.units_lt_succ _) hden
  simp only [InCell, Nat.add_mul, Nat.add_sub_cancel]
  split <;> omega

/-- A quotient rounds to a finite rank exactly when it lies in the cell of the rank. -/
theorem nearest_eq_iff (hF : 0 < F.fractionBits) (hden : 0 < den) {rank : Nat}
    (hrank : rank < F.infinity) : F.nearest num den = rank ↔ F.InCell rank num den := by
  have hle := F.units_floorRank_le num den
  have hlt := F.lt_units_floorRank_succ num hden
  rw [nearest_eq_floorRank hF num hden]
  generalize F.floorRank num den = floor at *
  have hfloor := inCell_floor_iff hden hle hlt
  have hsucc := inCell_succ_iff hden hlt
  generalize (F.units floor + F.units (floor + 1)) * den = middle at *
  constructor
  · intro h
    -- a rank below infinity is not the bound
    have hup : floor + (if middle < 2 * num then 1 else if 2 * num = middle then floor % 2 else 0) =
        rank := by omega
    split at hup
    · next habove =>
      obtain rfl := hup
      exact hsucc.2 (.inl habove)
    · split at hup
      · next hmiddle =>
        rcases Nat.mod_two_eq_zero_or_one floor with hparity | hparity
        · obtain rfl : floor = rank := by omega
          exact hfloor.2 (.inr ⟨hmiddle, hparity⟩)
        · obtain rfl : floor + 1 = rank := by omega
          exact hsucc.2 (.inr ⟨hmiddle, hparity⟩)
      · obtain rfl : floor = rank := hup
        exact hfloor.2 (.inl (by omega))
  · intro h
    rcases h.rank_eq hden hle hlt with rfl | rfl
    · rcases hfloor.1 h with hbelow | ⟨hmiddle, hparity⟩
      · rw [if_neg (by omega), if_neg (by omega)]
        omega
      · rw [if_neg (by omega), if_pos hmiddle]
        omega
    · rcases hsucc.1 h with habove | ⟨hmiddle, hparity⟩
      · rw [if_pos habove]
        omega
      · rw [if_neg (by omega), if_pos hmiddle]
        omega

end Planimeter.Format
