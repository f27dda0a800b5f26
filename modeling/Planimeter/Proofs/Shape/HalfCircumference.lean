import Planimeter.Proofs.Binary.Bounds
import Planimeter.Shape.Basic
/-!
# Half the circumference of a triangle

Three magnitudes are added with two roundings. The sum of the last two magnitudes and the rounded
sum of the first two lies on the same side of twice an edge as the exact sum does, or on it: what
the first rounding takes away or adds is at most half a gap, and the second rounding makes up for
that. So half the circumference as it is calculated is no less than an edge that is shorter than the
other two together, and no more than one that is longer.
-/
namespace Planimeter

namespace Format

variable {F : Format} {A B C : ℝ} {a c p q : Nat}

theorem middle_sub_one (h : 0 < p) : F.middle (p - 1) = F.magnitude p - F.gap (p - 1) / 2 := by
  rw [middle, gap, Nat.sub_add_cancel h]
  ring

theorem middle_eq_add_gap (p : Nat) : F.middle p = F.magnitude p + F.gap p / 2 := by
  rw [middle, gap]
  ring

theorem double_le_of_first_lt (hp : F.IsNearest (F.magnitude a + B) p) (hpfinite : p < F.infinity)
    (hq : F.IsNearest (F.magnitude p + C) q) (hqfinite : q < F.infinity) (hC : 0 ≤ C)
    (h : F.magnitude a < B + C) : 2 * F.magnitude a ≤ F.magnitude q := by
  obtain ⟨double, hdouble⟩ := F.exists_magnitude_double a
  rw [← hdouble]
  by_contra hcon
  have hlt : q < double := magnitude_lt_iff.1 (not_le.1 hcon)
  have hsum : F.magnitude p + C ≤ F.middle (double - 1) :=
    (hq.le_middle hqfinite).trans (middle_mono (by omega))
  rw [middle_sub_one (by omega)] at hsum
  have hgap : 0 < F.gap (double - 1) := F.gap_pos _
  rcases Nat.lt_or_ge p double with hp' | hp'
  · -- the first rounding takes away at most half the gap below twice the edge
    have hlost := hp.sub_magnitude_le hpfinite
    have hmono : F.gap p ≤ F.gap (double - 1) := F.gap_mono (by omega)
    linarith
  · have hle : F.magnitude double ≤ F.magnitude p := magnitude_le_iff.2 hp'
    linarith

theorem le_double_of_lt_first (hF : 0 < F.fractionBits) (hp : F.IsNearest (F.magnitude a + B) p)
    (hq : F.IsNearest (F.magnitude p + C) q) (hB : 0 ≤ B) (hC : 0 ≤ C)
    (h : B + C < F.magnitude a) : F.magnitude q ≤ 2 * F.magnitude a := by
  obtain ⟨double, hdouble⟩ := F.exists_magnitude_double a
  rw [← hdouble]
  by_contra hcon
  have hlt : double < q := magnitude_lt_iff.1 (not_le.1 hcon)
  obtain ⟨below, rfl⟩ := Nat.exists_eq_succ_of_ne_zero (Nat.ne_zero_of_lt hlt)
  have hsum : F.middle double ≤ F.magnitude p + C :=
    (middle_mono (by omega)).trans hq.middle_le
  rw [middle_eq_add_gap] at hsum
  have hgap : 0 < F.gap double := F.gap_pos _
  have hp' : p ≤ double := hp.le_of_le_magnitude hF (by linarith)
  cases p with
  | zero =>
    rw [magnitude_zero] at hsum
    linarith [F.magnitude_nonneg a]
  | succ p =>
    have hgained := hp.magnitude_sub_le
    have hmono : F.gap p ≤ F.gap double := F.gap_mono (by omega)
    linarith

theorem double_le_of_last_lt (hF : 0 < F.fractionBits) (hc : c < F.infinity)
    (hp : F.IsNearest (A + B) p) (hq : F.IsNearest (F.magnitude p + F.magnitude c) q)
    (hqfinite : q < F.infinity) (h : F.magnitude c < A + B) :
    2 * F.magnitude c ≤ F.magnitude q := by
  obtain ⟨double, hdouble⟩ := F.exists_magnitude_double c
  have hle : F.magnitude c ≤ F.magnitude p := magnitude_le_iff.2 (hp.le_of_magnitude_le hF hc h.le)
  rw [← hdouble]
  by_contra hcon
  have hlt : q < double := magnitude_lt_iff.1 (not_le.1 hcon)
  have hsum : F.magnitude p + F.magnitude c ≤ F.middle (double - 1) :=
    (hq.le_middle hqfinite).trans (middle_mono (by omega))
  rw [middle_sub_one (by omega)] at hsum
  linarith [F.gap_pos (double - 1)]

theorem le_double_of_lt_last (hF : 0 < F.fractionBits) (hp : F.IsNearest (A + B) p)
    (hq : F.IsNearest (F.magnitude p + F.magnitude c) q) (h : A + B < F.magnitude c) :
    F.magnitude q ≤ 2 * F.magnitude c := by
  obtain ⟨double, hdouble⟩ := F.exists_magnitude_double c
  have hle : F.magnitude p ≤ F.magnitude c := magnitude_le_iff.2 (hp.le_of_le_magnitude hF h.le)
  rw [← hdouble, magnitude_le_iff]
  exact hq.le_of_le_magnitude hF (by linarith)

end Format

namespace Shape

open Binary

variable {a b c e : Binary32}

/-- Half the circumference as it is calculated. -/
def halfCircumference (a b c : Binary32) : Binary32 := ((a.add b).add c).half

/-- The circumference itself. -/
noncomputable def circumference (a b c : Binary32) : ℝ := a.magnitude + b.magnitude + c.magnitude

/-- The sums on the way to a half that stays finite, each the nearest to its exact value. -/
structure Summed (a b c : Binary32) : Prop where
  first_finite : (a.add b).IsFinite
  first : Format.single.IsNearest (a.magnitude + b.magnitude) (a.add b).rank
  second_finite : ((a.add b).add c).IsFinite
  second : Format.single.IsNearest ((a.add b).magnitude + c.magnitude) ((a.add b).add c).rank
  half_finite : (halfCircumference a b c).IsFinite
  half : Format.single.IsNearest (((a.add b).add c).magnitude / 2) (halfCircumference a b c).rank
  half_negative : (halfCircumference a b c).negative = false

theorem summed_of_isFinite (ha : a.IsPositive) (hb : b.IsPositive) (hc : c.IsPositive)
    (hp : (a.add b).IsFinite) (hq : ((a.add b).add c).IsFinite) : Summed a b c := by
  have hfirst := rounds_add_of_isFinite ha.isFinite hb.isFinite ha.negative hb.negative
  have hsecond := rounds_add_of_isFinite hp hc.isFinite hfirst.1 hc.negative
  have hhalf := rounds_half_of_isFinite hq
  rw [hsecond.1] at hhalf
  have hle : ((a.add b).add c).half.rank ≤ ((a.add b).add c).rank := by
    refine hhalf.2.le_of_le_magnitude Format.fractionBits_single ?_
    have := ((a.add b).add c).magnitude_nonneg
    change _ ≤ ((a.add b).add c).magnitude
    linarith
  exact ⟨hp, hfirst.2, hq, hsecond.2, Nat.lt_of_le_of_lt hle hq, hhalf.2, hhalf.1⟩

/-- An infinite sum stays infinite, and a finite one is rounded. -/
theorem halfCircumference_cases (ha : a.IsPositive) (hb : b.IsPositive) (hc : c.IsPositive) :
    halfCircumference a b c = infinite false ∨ Summed a b c := by
  have hfirst := rounds_add_of_isFinite ha.isFinite hb.isFinite ha.negative hb.negative
  rcases isFinite_or_eq_infinite hfirst with hp | hp
  · have hsecond := rounds_add_of_isFinite hp hc.isFinite hfirst.1 hc.negative
    rcases isFinite_or_eq_infinite hsecond with hq | hq
    · exact .inr (summed_of_isFinite ha hb hc hp hq)
    · left
      rw [halfCircumference, hq]
      rfl
  · left
    rw [halfCircumference, hp, infinite_add hc.isFinite]
    rfl

/-- A circumference that stays below the overflow by one part in a million is summed. -/
theorem summed_of_circumference_le (ha : a.IsPositive) (hb : b.IsPositive) (hc : c.IsPositive)
    (h : circumference a b c ≤ (1 - 1 / 2 ^ 20) * 2 ^ 128) : Summed a b c := by
  have hA := ha.magnitude_pos
  have hC := hc.magnitude_pos
  unfold circumference at h
  have hfirst := rounds_add_of_isFinite ha.isFinite hb.isFinite ha.negative hb.negative
  have hp : (a.add b).IsFinite := hfirst.2.lt_infinity (by norm_num at h ⊢; linarith)
  have hsecond := rounds_add_of_isFinite hp hc.isFinite hfirst.1 hc.negative
  obtain ⟨-, hupper⟩ := abs_le.1 (abs_add_sub_le hp hfirst.2)
  refine summed_of_isFinite ha hb hc hp (hsecond.2.lt_infinity ?_)
  norm_num at h hupper ⊢
  linarith

/-- Three roundings move half the circumference by less than one part in four million. -/
theorem Summed.abs_halfCircumference_sub_le (hs : Summed a b c)
    (h : (2 : ℝ) ^ (-124 : ℤ) ≤ circumference a b c) :
    |(halfCircumference a b c).magnitude - circumference a b c / 2| ≤
      circumference a b c / 2 / 2 ^ 22 := by
  have hA := a.magnitude_nonneg
  have hB := b.magnitude_nonneg
  have hC := c.magnitude_nonneg
  unfold circumference at *
  obtain ⟨hfirst, hfirst'⟩ := abs_le.1 (abs_add_sub_le hs.first_finite hs.first)
  obtain ⟨hsecond, hsecond'⟩ := abs_le.1 (abs_add_sub_le hs.second_finite hs.second)
  have hnormal : (2 : ℝ) ^ (-126 : ℤ) ≤ ((a.add b).add c).magnitude / 2 := by
    norm_num at h hfirst hsecond ⊢
    linarith
  obtain ⟨hhalf, hhalf'⟩ := abs_le.1 (hs.half.abs_sub_le_single hs.half_finite hnormal)
  rw [abs_le]
  change -_ ≤ Format.single.magnitude _ - _ ∧ Format.single.magnitude _ - _ ≤ _
  constructor
  · linarith
  · linarith

/-- Half the circumference is no less than an edge that is less than it exactly. -/
theorem le_halfCircumference (ha : a.IsPositive) (hb : b.IsPositive) (hc : c.IsPositive)
    (he : e ∈ [a, b, c]) (h : 2 * e.magnitude < circumference a b c) :
    e.rank ≤ (halfCircumference a b c).rank := by
  have hfinite : ∀ e ∈ [a, b, c], e.IsFinite := by simp [ha.isFinite, hb.isFinite, hc.isFinite]
  rcases halfCircumference_cases ha hb hc with hs | hs
  · rw [hs]
    exact Nat.le_of_lt (hfinite e he)
  · have hdouble : 2 * e.magnitude ≤ ((a.add b).add c).magnitude := by
      unfold circumference at h
      simp only [List.mem_cons, List.not_mem_nil, or_false] at he
      rcases he with rfl | rfl | rfl
      · exact Format.double_le_of_first_lt hs.first hs.first_finite hs.second hs.second_finite
          c.magnitude_nonneg (show e.magnitude < _ by linarith)
      · have hfirst := hs.first
        rw [add_comm] at hfirst
        exact Format.double_le_of_first_lt hfirst hs.first_finite hs.second hs.second_finite
          c.magnitude_nonneg (show e.magnitude < _ by linarith)
      · exact Format.double_le_of_last_lt Format.fractionBits_single hc.isFinite hs.first hs.second
          hs.second_finite (show e.magnitude < _ by linarith)
    refine hs.half.le_of_magnitude_le Format.fractionBits_single (hfinite e he) ?_
    change e.magnitude ≤ _
    linarith

/-- A half that stays finite is no more than an edge that is more than it exactly. -/
theorem Summed.halfCircumference_le (hs : Summed a b c) (he : e ∈ [a, b, c])
    (h : circumference a b c < 2 * e.magnitude) :
    (halfCircumference a b c).rank ≤ e.rank := by
  have hdouble : ((a.add b).add c).magnitude ≤ 2 * e.magnitude := by
    unfold circumference at h
    simp only [List.mem_cons, List.not_mem_nil, or_false] at he
    rcases he with rfl | rfl | rfl
    · exact Format.le_double_of_lt_first Format.fractionBits_single hs.first hs.second
        b.magnitude_nonneg c.magnitude_nonneg (show _ < e.magnitude by linarith)
    · have hfirst := hs.first
      rw [add_comm] at hfirst
      exact Format.le_double_of_lt_first Format.fractionBits_single hfirst hs.second
        a.magnitude_nonneg c.magnitude_nonneg (show _ < e.magnitude by linarith)
    · exact Format.le_double_of_lt_last Format.fractionBits_single hs.first hs.second
        (show _ < e.magnitude by linarith)
  refine hs.half.le_of_le_magnitude Format.fractionBits_single ?_
  change _ ≤ e.magnitude
  linarith

end Shape

end Planimeter
