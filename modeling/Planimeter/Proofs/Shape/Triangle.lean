import Planimeter.Calculation
import Planimeter.Proofs.Shape.HalfCircumference
/-!
# Triangles

Whether the number under the root of a triangle's area can be negative is a matter of three signs,
and these are known although the half circumference is rounded: no factor of a triangle that closes
is negative, and only one is of a triangle that does not. The area of the latter is NaN, then, but
for two ways out: the number under the root may round to zero, and the circumference may overflow.
-/
namespace Planimeter

namespace Shape

open Binary

variable {a b c e : Binary32}

/-- What the root of an area is taken of. -/
def radicand (a b c : Binary32) : Binary32 :=
  let s := halfCircumference a b c
  ((s.mul (s.sub a)).mul (s.sub b)).mul (s.sub c)

theorem area_triangle (a b c : Binary32) : (triangle a b c).area = (radicand a b c).sqrt := rfl

/-- Each edge is less than the other two together. -/
def Closes (a b c : Binary32) : Prop :=
  a.magnitude < b.magnitude + c.magnitude ∧ b.magnitude < a.magnitude + c.magnitude ∧
    c.magnitude < a.magnitude + b.magnitude

/-- One edge is more than the other two together. -/
def FallsApart (a b c : Binary32) : Prop :=
  b.magnitude + c.magnitude < a.magnitude ∨ a.magnitude + c.magnitude < b.magnitude ∨
    a.magnitude + b.magnitude < c.magnitude

instance : Decidable (Closes a b c) :=
  decidable_of_iff _ (lt_add_magnitude_iff.and (lt_add_magnitude_iff.and lt_add_magnitude_iff)).symm

instance : Decidable (FallsApart a b c) :=
  decidable_of_iff _ (add_magnitude_lt_iff.or (add_magnitude_lt_iff.or add_magnitude_lt_iff)).symm

theorem closes_iff : Closes a b c ↔ ∀ e ∈ [a, b, c], 2 * e.magnitude < circumference a b c := by
  simp only [Closes, circumference, List.forall_mem_cons, List.not_mem_nil, false_imp_iff,
    implies_true, and_true]
  constructor
  · rintro ⟨ha, hb, hc⟩
    exact ⟨by linarith, by linarith, by linarith⟩
  · rintro ⟨ha, hb, hc⟩
    exact ⟨by linarith, by linarith, by linarith⟩

/-- A half that is no less than an edge leaves no negative factor. -/
theorem hasSign_sub_of_le {s : Binary32} (hs : s.negative = false) (hsfinite : s.IsFinite)
    (he : e.IsPositive) (h : e.rank ≤ s.rank) : (s.sub e).HasSign false := by
  have hle : e.magnitude ≤ s.magnitude := Format.magnitude_le_iff.2 h
  exact .inr (.inr (rounds_sub_of_le hsfinite he.isFinite hs he.negative hle).1)

/-- A half that is no more than an edge leaves no positive factor. -/
theorem hasSign_sub_of_ge {s : Binary32} (hs : s.negative = false) (hsfinite : s.IsFinite)
    (he : e.IsPositive) (h : s.rank ≤ e.rank) : (s.sub e).HasSign true := by
  rcases Nat.eq_or_lt_of_le h with heq | hlt
  · have hround := rounds_sub_of_le hsfinite he.isFinite hs he.negative
      (Format.magnitude_le_iff.2 heq.ge)
    rw [show s.magnitude - e.magnitude = 0 by rw [magnitude, magnitude, heq, sub_self]] at hround
    exact .inr (.inl (isZero_of_rounds hround))
  · have hlt' : s.magnitude < e.magnitude := Format.magnitude_lt_iff.2 hlt
    exact .inr (.inr (rounds_sub_of_lt hsfinite he.isFinite hs he.negative hlt').1)

/-- The radicand of an infinite half is infinite. -/
theorem radicand_of_infinite (ha : a.IsPositive) (hb : b.IsPositive) (hc : c.IsPositive)
    (hs : halfCircumference a b c = infinite false) : radicand a b c = infinite false := by
  rw [radicand, hs, infinite_sub ha.isFinite, infinite_sub hb.isFinite, infinite_sub hc.isFinite]
  rfl

/-- No factor of a triangle that closes is negative. -/
theorem Closes.hasSign_sub (h : Closes a b c) (ha : a.IsPositive) (hb : b.IsPositive)
    (hc : c.IsPositive) (hs : Summed a b c) (he : e ∈ [a, b, c]) (hpos : e.IsPositive) :
    ((halfCircumference a b c).sub e).HasSign false :=
  hasSign_sub_of_le hs.half_negative hs.half_finite hpos
    (le_halfCircumference ha hb hc he (closes_iff.1 h e he))

/-- Nothing negative is under the root of a triangle that closes. -/
theorem Closes.hasSign_radicand (h : Closes a b c) (ha : a.IsPositive) (hb : b.IsPositive)
    (hc : c.IsPositive) : (radicand a b c).HasSign false := by
  rcases halfCircumference_cases ha hb hc with hs | hs
  · rw [radicand_of_infinite ha hb hc hs]
    exact .inr (.inr rfl)
  · have hhalf : (halfCircumference a b c).HasSign false := .inr (.inr hs.half_negative)
    exact ((hhalf.mul (h.hasSign_sub ha hb hc hs (by simp) ha)).mul
      (h.hasSign_sub ha hb hc hs (by simp) hb)).mul (h.hasSign_sub ha hb hc hs (by simp) hc)

/-- Nothing positive is under the root of a triangle that falls apart, if half its circumference is
finite. -/
theorem FallsApart.hasSign_radicand (h : FallsApart a b c) (ha : a.IsPositive)
    (hb : b.IsPositive) (hc : c.IsPositive) (hs : Summed a b c) :
    (radicand a b c).HasSign true := by
  have hbelow {e : Binary32} (he : e ∈ [a, b, c]) (hpos : e.IsPositive)
      (hlt : 2 * e.magnitude < circumference a b c) :
      ((halfCircumference a b c).sub e).HasSign false :=
    hasSign_sub_of_le hs.half_negative hs.half_finite hpos
      (le_halfCircumference ha hb hc he hlt)
  have habove {e : Binary32} (he : e ∈ [a, b, c]) (hpos : e.IsPositive)
      (hlt : circumference a b c < 2 * e.magnitude) :
      ((halfCircumference a b c).sub e).HasSign true :=
    hasSign_sub_of_ge hs.half_negative hs.half_finite hpos (hs.halfCircumference_le he hlt)
  have hhalf : (halfCircumference a b c).HasSign false := .inr (.inr hs.half_negative)
  have hA := ha.magnitude_pos
  have hB := hb.magnitude_pos
  have hC := hc.magnitude_pos
  unfold circumference at hbelow habove
  rcases h with h | h | h
  · exact ((hhalf.mul (habove (by simp) ha (by linarith))).mul
      (hbelow (by simp) hb (by linarith))).mul (hbelow (by simp) hc (by linarith))
  · exact ((hhalf.mul (hbelow (by simp) ha (by linarith))).mul
      (habove (by simp) hb (by linarith))).mul (hbelow (by simp) hc (by linarith))
  · exact ((hhalf.mul (hbelow (by simp) ha (by linarith))).mul
      (hbelow (by simp) hb (by linarith))).mul (habove (by simp) hc (by linarith))

theorem magnitude_le_circumference (he : e ∈ [a, b, c]) : e.magnitude ≤ circumference a b c := by
  have hA := a.magnitude_nonneg
  have hB := b.magnitude_nonneg
  have hC := c.magnitude_nonneg
  unfold circumference
  simp only [List.mem_cons, List.not_mem_nil, or_false] at he
  rcases he with rfl | rfl | rfl <;> linarith

theorem eq_or_add_le_circumference {x : Binary32} (he : e ∈ [a, b, c]) (hx : x ∈ [a, b, c]) :
    x = e ∨ x.magnitude + e.magnitude ≤ circumference a b c := by
  have hA := a.magnitude_nonneg
  have hB := b.magnitude_nonneg
  have hC := c.magnitude_nonneg
  unfold circumference
  simp only [List.mem_cons, List.not_mem_nil, or_false] at he hx
  rcases he with rfl | rfl | rfl <;> rcases hx with rfl | rfl | rfl
  case inl.inl | inr.inl.inr.inl | inr.inr.inr.inr => exact .inl rfl
  all_goals exact .inr (by linarith)

/-- If an edge is longer than the other two together by some margin, rounding the half leaves it
far from every edge. -/
theorem Summed.far (hs : Summed a b c) (he : e ∈ [a, b, c])
    (hmargin : circumference a b c ≤ (2 - 1 / 2 ^ 19) * e.magnitude)
    (hlow : 1 / 2 ^ 20 ≤ e.magnitude) :
    1 / 2 ^ 22 ≤ (halfCircumference a b c).magnitude ∧
      ∀ x ∈ [a, b, c], 1 / 2 ^ 41 ≤ |(halfCircumference a b c).magnitude - x.magnitude| := by
  have hedge := magnitude_le_circumference he
  have herror := hs.abs_halfCircumference_sub_le (by norm_num at hlow ⊢; linarith)
  obtain ⟨hbelow, habove⟩ := abs_le.1 herror
  norm_num at hmargin hlow hbelow habove
  refine ⟨by norm_num; linarith, fun x hx => ?_⟩
  rcases eq_or_add_le_circumference he hx with rfl | hother
  · rw [abs_sub_comm]
    refine le_trans ?_ (le_abs_self _)
    norm_num
    linarith
  · refine le_trans ?_ (le_abs_self _)
    norm_num
    linarith

/-- Then the product under the root does not round to zero: its factors leave it far above the
least magnitude. -/
theorem Summed.atLeast_radicand (hs : Summed a b c) (ha : a.IsPositive) (hb : b.IsPositive)
    (hc : c.IsPositive) (he : e ∈ [a, b, c])
    (hmargin : circumference a b c ≤ (2 - 1 / 2 ^ 19) * e.magnitude)
    (hlow : 1 / 2 ^ 20 ≤ e.magnitude) : (radicand a b c).AtLeast (-145) := by
  obtain ⟨hhalf, hfar⟩ := hs.far he hmargin hlow
  have hs' : (halfCircumference a b c).AtLeast (-22) :=
    ⟨hs.half_finite.isNaN, by norm_num at hhalf ⊢; exact hhalf⟩
  have hfactor {x : Binary32} (hx : x ∈ [a, b, c]) (hpos : x.IsPositive) :
      ((halfCircumference a b c).sub x).AtLeast (-41) :=
    atLeast_sub hs.half_finite hpos.isFinite hs.half_negative hpos.negative (by norm_num)
      (by norm_num) (by have := hfar x hx; norm_num at this ⊢; exact this)
  have hfirst := hs'.mul (hfactor (by simp) ha) (by norm_num) (by norm_num)
  have hsecond := hfirst.mul (hfactor (by simp) hb) (by norm_num) (by norm_num)
  exact hsecond.mul (hfactor (by simp) hc) (by norm_num) (by norm_num)

/-- The area of a triangle that falls apart is infinite if half its circumference is, a zero if the
product under the root rounds to zero, and NaN otherwise. It is NaN for certain if one edge is
longer than the other two together by a margin, and neither too short nor too long for the product
of four such numbers. -/
theorem area_of_apart (h : FallsApart a b c) (ha : a.IsPositive) (hb : b.IsPositive)
    (hc : c.IsPositive) : ∃ area, Calculation.area (some (triangle a b c)) = .ok area ∧
      (area = infinite false ↔ ¬(halfCircumference a b c).IsFinite) ∧
      (area.isZero = true ↔
        (halfCircumference a b c).IsFinite ∧ (radicand a b c).isZero = true) ∧
      (area.isNaN = true ↔
        (halfCircumference a b c).IsFinite ∧ (radicand a b c).isZero = false) ∧
      ∀ e ∈ [a, b, c], circumference a b c ≤ (2 - 1 / 2 ^ 19) * e.magnitude →
        1 / 2 ^ 20 ≤ e.magnitude → e.magnitude ≤ 2 ^ 127 → area.isNaN = true := by
  refine ⟨_, rfl, ?_⟩
  rw [area_triangle]
  have hsummed (e : Binary32) (hmargin : circumference a b c ≤ (2 - 1 / 2 ^ 19) * e.magnitude)
      (hhigh : e.magnitude ≤ 2 ^ 127) : Summed a b c :=
    summed_of_circumference_le ha hb hc (by norm_num at hmargin hhigh ⊢; linarith)
  rcases halfCircumference_cases ha hb hc with hinf | hs
  · have hnot : ¬(halfCircumference a b c).IsFinite := by rw [hinf]; decide
    rw [radicand_of_infinite ha hb hc hinf, sqrt_infinite]
    simp only [hnot, not_false_eq_true, false_and, isNaN_infinite,
      isZero_infinite Format.infinity_single, Bool.false_eq_true, true_and]
    exact fun e _ hmargin _ hhigh => hnot (hsummed e hmargin hhigh).half_finite
  · have hsign := h.hasSign_radicand ha hb hc hs
    refine ⟨iff_of_false hsign.sqrt_ne_infinite (not_not_intro hs.half_finite), ?_, ?_, ?_⟩
    · rw [hsign.isZero_sqrt_iff, and_iff_right hs.half_finite]
    · rw [hsign.isNaN_sqrt_iff, and_iff_right hs.half_finite]
    · exact fun e he hmargin hlow _ =>
        hsign.isNaN_sqrt_iff.2 (hs.atLeast_radicand ha hb hc he hmargin hlow).isZero

/-- Edges of one, one and five have the area NaN. -/
theorem area_of_apart_one_one_five :
    FallsApart (ofBits 0x3F800000) (ofBits 0x3F800000) (ofBits 0x40A00000) ∧
      ∃ area, Calculation.area (some (triangle (ofBits 0x3F800000) (ofBits 0x3F800000)
        (ofBits 0x40A00000))) = .ok area ∧ area.isNaN = true := by
  have hone : (ofBits 0x3F800000 : Binary32).magnitude = 1 := by
    norm_num [magnitude_ofBits, Format.magnitude_single]
  have hfive : (ofBits 0x40A00000 : Binary32).magnitude = 5 := by
    norm_num [magnitude_ofBits, Format.magnitude_single]
  have happart : FallsApart (ofBits 0x3F800000) (ofBits 0x3F800000) (ofBits 0x40A00000) := by
    decide +kernel
  obtain ⟨area, harea, -, -, -, hnan⟩ := area_of_apart happart (by decide) (by decide) (by decide)
  refine ⟨happart, area, harea, hnan (ofBits 0x40A00000) (by simp) ?_ ?_ ?_⟩
  · norm_num [circumference, hone, hfive]
  · norm_num [hfive]
  · norm_num [hfive]

/-- Not every triangle that falls apart has the area NaN: with edges as small as two to the power of
-100, twice, and five times as much, the product under the root rounds to zero. -/
theorem zero_area_of_apart : ¬∀ a b c : Binary32, a.IsPositive → b.IsPositive → c.IsPositive →
    FallsApart a b c →
      ∃ area, Calculation.area (some (triangle a b c)) = .ok area ∧ area.isNaN = true := by
  intro h
  obtain ⟨area, harea, hnan⟩ := h (ofBits 0x0D800000) (ofBits 0x0D800000) (ofBits 0x0EA00000)
    (by decide) (by decide) (by decide) (by decide +kernel)
  have hzero : Calculation.area (some (triangle (ofBits 0x0D800000) (ofBits 0x0D800000)
      (ofBits 0x0EA00000))) = .ok Binary.zero.neg := by decide +kernel
  rw [hzero, Except.ok.injEq] at harea
  rw [← harea] at hnan
  contradiction

/-- The half may also round to the long edge. -/
example : FallsApart (ofBits 0x3F800000) (ofBits 0x33800000) (ofBits 0x3F800001) ∧
    (triangle (ofBits 0x3F800000) (ofBits 0x33800000) (ofBits 0x3F800001)).area.isZero = true := by
  decide +kernel

/-- And the circumference may overflow. -/
example : FallsApart (ofBits 0x7E800000) (ofBits 0x7E800000) (ofBits 0x7F7FFFFF) ∧
    (triangle (ofBits 0x7E800000) (ofBits 0x7E800000) (ofBits 0x7F7FFFFF)).area =
      infinite false := by
  decide +kernel

end Shape

end Planimeter
