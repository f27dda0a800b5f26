import Planimeter.Proofs.Binary.Numerals
import Planimeter.Proofs.Binary.Single
/-!
# The numbers that decimals write

A decimal writes a real number: its digits on either side of the point, scaled by a power of ten.
Reading keeps all of the digits, and all of an exponent below 655360, so that the quotient it rounds
is this very number. What it is rounded to in single precision is the nearest datum, with the bounds
of infinity and of zero and the spacing below the least normal number.
-/
namespace Planimeter

namespace Numeral

variable {cs digits : List Char} {negative : Bool} {e : ℤ} {m : ℝ}

/-- The exponents below 655360 in magnitude, of which no text is one, and their values. -/
inductive WritesExponent : List Char → ℤ → Prop where
  | none : WritesExponent [] 0
  | marked {mark : Char} {sign digits : List Char} {negative : Bool}
      (hmark : mark = 'e' ∨ mark = 'E') (hsign : IsSign sign negative) (hne : digits ≠ [])
      (hdigits : ∀ c ∈ digits, c.isDigit) (hle : ofDigits digits ≤ 655359) :
      WritesExponent (mark :: (sign ++ digits))
        (if negative then -(ofDigits digits : ℤ) else ofDigits digits)

/-- The decimals, whether they have a minus, and the magnitudes that they write. -/
inductive Writes : List Char → Bool → ℝ → Prop where
  | whole {sign whole exponent : List Char} {negative : Bool} {e : ℤ}
      (hsign : IsSign sign negative) (hne : whole ≠ []) (hwhole : ∀ c ∈ whole, c.isDigit)
      (hexponent : WritesExponent exponent e) :
      Writes (sign ++ (whole ++ exponent)) negative (ofDigits whole * 10 ^ e)
  | pointed {sign whole fraction exponent : List Char} {negative : Bool} {e : ℤ}
      (hsign : IsSign sign negative) (hne : whole ≠ [] ∨ fraction ≠ [])
      (hwhole : ∀ c ∈ whole, c.isDigit) (hfraction : ∀ c ∈ fraction, c.isDigit)
      (hexponent : WritesExponent exponent e) :
      Writes (sign ++ (whole ++ '.' :: (fraction ++ exponent))) negative
        ((ofDigits whole + ofDigits fraction / 10 ^ fraction.length) * 10 ^ e)

theorem ofDigits_append (cs ds : List Char) :
    ofDigits (cs ++ ds) = 10 ^ ds.length * ofDigits cs + ofDigits ds := by
  change Nat.ofDigitChars 10 (cs ++ ds) 0 = 10 ^ ds.length * Nat.ofDigitChars 10 cs 0 +
    Nat.ofDigitChars 10 ds 0
  rw [Nat.ofDigitChars_append, Nat.ofDigitChars_eq_ofDigitChars_zero]

/-- No digit of an exponent below 655360 is ignored: before the last one the value is below
65536. -/
theorem exponentOfDigits_eq (h : ofDigits digits ≤ 655359) :
    exponentOfDigits digits = ofDigits digits := by
  induction digits using List.reverseRecOn with
  | nil => rfl
  | append_singleton digits c ih =>
    have hvalue : ofDigits (digits ++ [c]) = 10 * ofDigits digits + (c.toNat - '0'.toNat) := by
      rw [ofDigits, List.foldl_append]
      rfl
    rw [hvalue] at h ⊢
    have hprior : exponentOfDigits digits = ofDigits digits := ih (by omega)
    have hsmall : ofDigits digits < 65536 := by omega
    rw [exponentOfDigits, List.foldl_append]
    change (if exponentOfDigits digits < 65536 then 10 * exponentOfDigits digits + _ else _) = _
    rw [hprior, if_pos hsmall]

theorem WritesExponent.isExponent (h : WritesExponent cs e) : IsExponent cs e := by
  cases h with
  | none => exact .none
  | marked hmark hsign hne hdigits hle =>
    have hexponent := IsExponent.marked hmark hsign hne hdigits
    rwa [exponentOfDigits_eq hle] at hexponent

/-- A decimal is a numeral of the magnitude that it writes. -/
theorem Writes.signed (h : Writes cs negative m) :
    ∃ n e, Signed cs negative (.decimal n e) ∧ m = n * 10 ^ e := by
  cases h with
  | whole hsign hne hwhole hexponent =>
    exact ⟨_, _, .mk hsign (.decimal (.whole hne hwhole hexponent.isExponent)), rfl⟩
  | @pointed sign whole fraction exponent _ e hsign hne hwhole hfraction hexponent =>
    refine ⟨_, _, .mk hsign (.decimal (.pointed hne hwhole hfraction hexponent.isExponent)), ?_⟩
    rw [ofDigits_append, zpow_sub₀ (by norm_num), zpow_natCast]
    push_cast
    field_simp

theorem Writes.nonneg (h : Writes cs negative m) : 0 ≤ m := by
  obtain ⟨n, e, -, rfl⟩ := h.signed
  exact mul_nonneg n.cast_nonneg (zpow_nonneg (by norm_num) e)

theorem Writes.isNumeral {text : String} (h : Writes text.toList negative m) : IsNumeral text := by
  obtain ⟨n, e, hsigned, -⟩ := h.signed
  exact ⟨_, _, hsigned⟩

end Numeral

namespace Format

variable {F : Format} {m : ℝ} {rank : Nat}

theorem IsNearest.eq_zero_iff (h : F.IsNearest m rank) (hF : 0 < F.fractionBits)
    (hinfinity : 0 < F.infinity) : rank = 0 ↔ m ≤ F.middle 0 := by
  constructor
  · rintro rfl
    exact h.le_middle hinfinity
  · intro hm
    exact h.eq (isNearest_of_middle hF hinfinity (fun h => absurd h (lt_irrefl 0)) hm
      fun h => absurd h (by decide))

/-- What is below the least normal number rounds to a whole number of units, at most half a unit
away. -/
theorem IsNearest.subnormal (h : F.IsNearest m rank) (hF : 0 < F.fractionBits)
    (hbinade : F.binade < F.infinity) (hnonneg : 0 ≤ m) (hm : m < F.magnitude F.binade) :
    F.magnitude rank = rank / 2 ^ F.scale ∧ |F.magnitude rank - m| ≤ 1 / 2 ^ F.scale / 2 := by
  have hle : rank ≤ F.binade := h.le_of_le_magnitude hF hm.le
  have hgap {r : Nat} (hr : r ≤ F.binade) : F.gap r = 1 / 2 ^ F.scale := by
    have hdiv : r / F.binade ≤ 1 := Nat.div_le_of_le_mul (by omega)
    rw [gap_eq, Nat.sub_eq_zero_of_le hdiv, pow_zero]
  constructor
  · have hunits := F.units_grid 0 (show rank ≤ 2 * F.binade by omega) (.inl rfl)
    rw [Nat.zero_mul, Nat.zero_add, pow_zero, Nat.mul_one] at hunits
    rw [magnitude, hunits]
  · have habove := h.sub_magnitude_le (by omega)
    rw [hgap hle] at habove
    refine abs_le.2 ⟨by linarith, ?_⟩
    cases rank with
    | zero =>
      have hunit : (0 : ℝ) ≤ 1 / 2 ^ F.scale / 2 := by positivity
      rw [magnitude_zero]
      linarith
    | succ below =>
      have hbelow := h.magnitude_sub_le
      rwa [hgap (by omega)] at hbelow

end Format

namespace Binary

/-- Reading rounds the scaled digits themselves. -/
theorem isNearest_ofDecimal {F : Format} (hF : 0 < F.fractionBits) (hinfinity : 0 < F.infinity)
    (negative : Bool) (n : Nat) (e : ℤ) :
    F.IsNearest (n * 10 ^ e) (ofDecimal negative n e : Binary F).rank := by
  have hden : 0 < 10 ^ (-e).toNat := by positivity
  have hvalue : (n * 10 ^ e : ℝ) =
      (n * 10 ^ e.toNat * 2 ^ F.scale : Nat) / (10 ^ (-e).toNat : Nat) / 2 ^ F.scale := by
    obtain ⟨k, rfl | rfl⟩ := e.eq_nat_or_neg
    · simp
    · simp
      field_simp
  rw [hvalue]
  exact Format.isNearest_nearest_div hF hinfinity _ hden

end Binary

/-- The datum of single precision for a magnitude and a sign: the nearest one, of two equally near
the one with the even significand. It is an infinity from half a gap above the last finite
magnitude, a zero up to half the least positive one, and a multiple of that one below the normal
numbers. -/
structure RoundsSingle (negative : Bool) (m : ℝ) (x : Binary32) : Prop where
  negative : x.negative = negative
  nearest : Format.single.IsNearest m x.rank
  isInfinite_iff : x.isInfinite ↔ (2 - (1 / 2) ^ 24) * 2 ^ 127 ≤ m
  isZero_iff : x.isZero ↔ m ≤ (1 / 2) ^ 150
  subnormal : m < (1 / 2) ^ 126 →
    ∃ count : Nat, x.magnitude = count * (1 / 2) ^ 149 ∧ |x.magnitude - m| ≤ (1 / 2) ^ 150

theorem roundsSingle_of_isNearest {x : Binary32} {m : ℝ} (hm : 0 ≤ m)
    (h : Format.single.IsNearest m x.rank) : RoundsSingle x.negative m x where
  negative := rfl
  nearest := h
  isInfinite_iff := by rw [Binary.isInfinite, beq_iff_eq, h.overflow, Format.overflow_single]
  isZero_iff := by
    have hmiddle : Format.single.middle 0 = (1 / 2) ^ 150 := by
      rw [Format.middle_eq, show Format.single.units 0 + Format.single.units (0 + 1) = 1 by decide,
        Format.scale_single]
      norm_num
    rw [Binary.isZero, beq_iff_eq,
      h.eq_zero_iff Format.fractionBits_single Format.infinity_single, hmiddle]
  subnormal := by
    intro hsmall
    have hnormal : Format.single.magnitude Format.single.binade = (1 / 2) ^ 126 := by
      rw [Format.magnitude_single, Format.binade_single]
      norm_num
    obtain ⟨hunits, hdist⟩ :=
      h.subnormal Format.fractionBits_single (by decide) hm (hnormal ▸ hsmall)
    rw [Format.scale_single] at hunits hdist
    refine ⟨x.rank, ?_, ?_⟩
    · rw [Binary.magnitude, hunits, one_div_pow, mul_one_div]
    · refine hdist.trans_eq ?_
      norm_num

end Planimeter
