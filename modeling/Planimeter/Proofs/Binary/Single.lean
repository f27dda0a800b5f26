import Planimeter.Proofs.Binary.Exact
/-!
# Single precision

The numbers of the single format, and what each operation does to finite data that are not negative:
the exact result, which is a real number, is rounded to its nearest rank.
-/
namespace Planimeter

namespace Format

theorem fractionBits_single : 0 < single.fractionBits := by decide

theorem infinity_single : 0 < single.infinity := by decide

@[simp] theorem binade_single : single.binade = 2 ^ 23 := by decide

@[simp] theorem scale_single : single.scale = 149 := by decide

/-- A word with a stored exponent other than zero has a leading one before its fraction, and with
the exponent zero it has none. -/
theorem magnitude_single (rank : Nat) : single.magnitude rank =
    if rank / 2 ^ 23 = 0 then (rank % 2 ^ 23 : Nat) / 2 ^ 23 * (2 : ℝ) ^ (-126 : ℤ)
    else (1 + (rank % 2 ^ 23 : Nat) / 2 ^ 23) * (2 : ℝ) ^ ((rank / 2 ^ 23 : Nat) - 127 : ℤ) := by
  rw [magnitude, scale_single, units, binade_single]
  split
  · norm_num
    ring
  · next h =>
    obtain ⟨e, he⟩ := Nat.exists_eq_succ_of_ne_zero h
    rw [he]
    push_cast
    rw [show (e : ℤ) + 1 - 127 = e + (-126) by ring, zpow_add₀ (by norm_num)]
    norm_num
    ring

/-- Infinity begins half a gap above the last finite magnitude. -/
theorem overflow_single : single.middle (single.infinity - 1) = (2 - (1 / 2) ^ 24) * 2 ^ 127 := by
  rw [middle_eq, show single.units (single.infinity - 1) +
    single.units (single.infinity - 1 + 1) = 33554431 * 2 ^ 253 by decide +kernel, scale_single]
  norm_num

/-- Every power of two down to the least magnitude is one. -/
theorem exists_magnitude_eq_two_zpow {k : ℤ} (h : -149 ≤ k) :
    ∃ rank, single.magnitude rank = (2 : ℝ) ^ k := by
  obtain ⟨n, rfl⟩ : ∃ n : Nat, k = n - 149 := ⟨(k + 149).toNat, by omega⟩
  obtain ⟨rank, hrank⟩ := single.exists_units_eq_two_pow n
  refine ⟨rank, ?_⟩
  rw [magnitude, hrank, scale_single, zpow_sub₀ (by norm_num)]
  norm_num

end Format

namespace Binary

variable {F : Format}

/-- The magnitude of a datum as a real number. -/
noncomputable def magnitude (x : Binary F) : ℝ := F.magnitude x.rank

/-- Finite and greater than zero. -/
structure IsPositive (x : Binary F) : Prop where
  negative : x.negative = false
  rank_pos : 0 < x.rank
  isFinite : x.IsFinite

instance (x : Binary F) : Decidable x.IsPositive :=
  decidable_of_iff (x.negative = false ∧ 0 < x.rank ∧ x.IsFinite)
    ⟨fun h => ⟨h.1, h.2.1, h.2.2⟩, fun h => ⟨h.negative, h.rank_pos, h.isFinite⟩⟩

theorem magnitude_nonneg (x : Binary F) : 0 ≤ x.magnitude := F.magnitude_nonneg _

/-- Sums of magnitudes are compared by their units. -/
theorem add_magnitude_lt_iff {x y z : Binary F} : x.magnitude + y.magnitude < z.magnitude ↔
    F.units x.rank + F.units y.rank < F.units z.rank := by
  simp only [magnitude, Format.magnitude]
  rw [← add_div, div_lt_div_iff_of_pos_right (by positivity)]
  norm_cast

theorem lt_add_magnitude_iff {x y z : Binary F} : z.magnitude < x.magnitude + y.magnitude ↔
    F.units z.rank < F.units x.rank + F.units y.rank := by
  simp only [magnitude, Format.magnitude]
  rw [← add_div, div_lt_div_iff_of_pos_right (by positivity)]
  norm_cast

theorem magnitude_ofBits {word : Nat} (h : word < 2 ^ 31) :
    (ofBits word : Binary32).magnitude = Format.single.magnitude word :=
  congrArg Format.single.magnitude (Nat.mod_eq_of_lt h)

theorem magnitude_pos_iff {x : Binary F} : 0 < x.magnitude ↔ 0 < x.rank :=
  Format.magnitude_pos_iff

theorem IsPositive.magnitude_pos {x : Binary F} (h : x.IsPositive) : 0 < x.magnitude :=
  magnitude_pos_iff.2 h.rank_pos

theorem rounds_ofReal_of_nonneg {r : ℝ} {x : Binary F} (h : 0 ≤ r) :
    (Exact.ofReal false r).Rounds x ↔ (Exact.finite false r).Rounds x := by
  have hsign : (if r = 0 then false else decide (r < 0)) = false := by simp [not_lt.2 h]
  rw [Exact.ofReal, hsign, abs_of_nonneg h]

section

variable {x y : Binary32} (hx : x.IsFinite) (hy : y.IsFinite)
include hx

theorem rounds_half_of_isFinite : (Exact.finite x.negative (x.magnitude / 2)).Rounds x.half := by
  have h := rounds_half Format.fractionBits_single Format.infinity_single x
  rwa [exact_of_isFinite hx, Exact.half, Nat.cast_ofNat] at h

include hy

theorem rounds_mul_of_isFinite :
    (Exact.finite (x.negative != y.negative) (x.magnitude * y.magnitude)).Rounds (x.mul y) := by
  have h := rounds_mul Format.fractionBits_single Format.infinity_single x y
  rwa [exact_of_isFinite hx, exact_of_isFinite hy] at h

variable (hnx : x.negative = false) (hny : y.negative = false)
include hnx hny

theorem rounds_add_of_isFinite :
    (Exact.finite false (x.magnitude + y.magnitude)).Rounds (x.add y) := by
  have h := rounds_add Format.fractionBits_single Format.infinity_single x y
  rw [exact_of_isFinite hx, exact_of_isFinite hy, hnx, hny] at h
  exact (rounds_ofReal_of_nonneg (add_nonneg x.magnitude_nonneg y.magnitude_nonneg)).1 h

theorem rounds_sub_of_le (hle : y.magnitude ≤ x.magnitude) :
    (Exact.finite false (x.magnitude - y.magnitude)).Rounds (x.sub y) := by
  have h := rounds_sub Format.fractionBits_single Format.infinity_single x y
  rw [exact_of_isFinite hx, exact_of_isFinite hy, hnx, hny] at h
  exact (rounds_ofReal_of_nonneg (sub_nonneg.2 hle)).1 h

theorem rounds_sub_of_lt (hlt : x.magnitude < y.magnitude) :
    (Exact.finite true (y.magnitude - x.magnitude)).Rounds (x.sub y) := by
  have h := rounds_sub Format.fractionBits_single Format.infinity_single x y
  rw [exact_of_isFinite hx, exact_of_isFinite hy, hnx, hny] at h
  change (Exact.ofReal false (x.magnitude - y.magnitude)).Rounds (x.sub y) at h
  have hne : x.magnitude - y.magnitude ≠ 0 := by linarith
  rwa [Exact.ofReal, if_neg hne, decide_eq_true (by linarith), abs_sub_comm,
    abs_of_pos (by linarith)] at h

end

/-- What a magnitude rounds to is finite or infinity. -/
theorem isFinite_or_eq_infinite {n : Bool} {m : ℝ} {x : Binary F}
    (h : (Exact.finite n m).Rounds x) : x.IsFinite ∨ x = infinite n := by
  obtain ⟨k, rank, hlt⟩ := x
  obtain ⟨hsign, hm⟩ := h
  obtain rfl : k = n := hsign
  rcases Nat.eq_or_lt_of_le hm.le_infinity with hrank | hrank
  · obtain rfl : rank = F.infinity := hrank
    exact .inr rfl
  · exact .inl hrank

/-- Zero rounds to zero. -/
theorem isZero_of_rounds {n : Bool} {x : Binary32} (h : (Exact.finite n 0).Rounds x) :
    x.isZero = true := by
  have hrank : x.rank = 0 :=
    h.2.eq (Format.isNearest_zero Format.fractionBits_single Format.infinity_single)
  simp [isZero, hrank]

theorem infinite_add {n : Bool} {x : Binary F} (h : x.IsFinite) :
    (infinite n).add x = infinite n := by
  simp [add, h]

theorem infinite_sub {n : Bool} {x : Binary F} (h : x.IsFinite) :
    (infinite n).sub x = infinite n := by
  have hneg : x.neg.IsFinite := h
  rw [sub, h.isNaN, if_neg (by decide), infinite_add hneg]

/-- No number of the other sign: a NaN, a zero, or of the given sign. -/
def HasSign (n : Bool) (x : Binary F) : Prop := x.isNaN ∨ x.isZero ∨ x.negative = n

end Binary

/-- No number of the other sign: no number, zero, or of the given sign. -/
def Exact.HasSign (n : Bool) : Exact → Prop
  | nan => True
  | infinite k => k = n
  | finite k m => m = 0 ∨ k = n

theorem Exact.HasSign.mul {n n' : Bool} {e e' : Exact} (h : e.HasSign n) (h' : e'.HasSign n') :
    (e.mul e').HasSign (n != n') := by
  cases e <;> cases e' <;> simp only [HasSign] at h h'
  all_goals simp only [Exact.mul]
  case infinite.infinite => rw [h, h']; rfl
  case infinite.finite k k' m =>
    split
    · trivial
    · next hne => rw [h, h'.resolve_left hne]; rfl
  case finite.infinite k m k' =>
    split
    · trivial
    · next hne => rw [h', h.resolve_left hne]; rfl
  case finite.finite k m k' m' =>
    rcases h with rfl | rfl
    · exact .inl (zero_mul _)
    · rcases h' with rfl | rfl
      · exact .inl (mul_zero _)
      · exact .inr rfl
  all_goals trivial

namespace Binary

variable {n n' : Bool} {x y : Binary32}

theorem HasSign.exact (h : x.HasSign n) : x.exact.HasSign n := by
  unfold Binary.exact
  split
  · trivial
  · next hnan =>
    split
    · next hinf =>
      rcases h with h | h | h
      · contradiction
      · rw [isZero, beq_iff_eq] at h
        rw [isInfinite, h] at hinf
        exact absurd hinf (by decide)
      · exact h
    · rcases h with h | h | h
      · contradiction
      · exact .inl (magnitude_eq_zero_iff.2 h)
      · exact .inr h

theorem hasSign_of_rounds {e : Exact} (h : e.HasSign n) (hx : e.Rounds x) : x.HasSign n := by
  cases e with
  | nan => exact .inl hx
  | infinite k =>
    obtain rfl := hx
    exact .inr (.inr h)
  | finite k m =>
    rcases h with rfl | rfl
    · exact .inr (.inl (isZero_of_rounds hx))
    · exact .inr (.inr hx.1)

theorem isNaN_eq_false_of_isZero (h : x.isZero) : x.isNaN = false := by
  rw [isZero, beq_iff_eq] at h
  rw [isNaN, h]
  rfl

theorem sqrt_of_isZero (h : x.isZero) : x.sqrt = x := by
  simp [sqrt, isNaN_eq_false_of_isZero h, h]

@[simp] theorem sqrt_infinite : (infinite false : Binary32).sqrt = infinite false := rfl

theorem isNaN_sqrt (h : x.isNaN) : x.sqrt.isNaN := by
  rw [sqrt, if_pos h]
  exact isNaN_quiet h

/-- What is not above zero has a root only if it is zero. -/
theorem HasSign.isNaN_sqrt_iff (h : x.HasSign true) : x.sqrt.isNaN = true ↔ x.isZero = false := by
  cases hzero : x.isZero with
  | true => simp [sqrt_of_isZero hzero, isNaN_eq_false_of_isZero hzero]
  | false =>
    simp only [iff_true]
    rcases h with hnan | hzero' | hnegative
    · exact isNaN_sqrt hnan
    · rw [hzero] at hzero'
      contradiction
    · cases hnan : x.isNaN with
      | true => exact isNaN_sqrt hnan
      | false =>
        rw [sqrt, hnan, if_neg (by decide), hzero, if_neg (by decide), if_pos hnegative]
        rfl

theorem HasSign.isZero_sqrt_iff (h : x.HasSign true) :
    x.sqrt.isZero = true ↔ x.isZero = true := by
  constructor
  · intro hzero
    by_contra hne
    have hnan := h.isNaN_sqrt_iff.2 (Bool.eq_false_of_not_eq_true hne)
    rw [isNaN_eq_false_of_isZero hzero] at hnan
    contradiction
  · intro hzero
    rwa [sqrt_of_isZero hzero]

theorem HasSign.sqrt_ne_infinite (h : x.HasSign true) : x.sqrt ≠ infinite n := by
  intro hinf
  have hzero := h.isZero_sqrt_iff
  have hnan := h.isNaN_sqrt_iff
  rw [hinf, isZero_infinite Format.infinity_single] at hzero
  rw [hinf, isNaN_infinite, ← Bool.not_eq_true, ← hzero] at hnan
  simp at hnan

theorem HasSign.mul (hx : x.HasSign n) (hy : y.HasSign n') : (x.mul y).HasSign (n != n') :=
  hasSign_of_rounds (hx.exact.mul hy.exact)
    (rounds_mul Format.fractionBits_single Format.infinity_single x y)

end Binary

end Planimeter
