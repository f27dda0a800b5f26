import Planimeter.Proofs.Shape.Formula
import Planimeter.Proofs.Shape.Triangle
/-!
# Areas in range

An area that lies well inside the range of single precision may still be out of reach of the
calculation, when an operation on the way to it leaves the range. For all shapes but triangles no
operation does. The product under the root of a triangle has four factors, and the area comes out as
a positive finite number exactly if every operation does; this is certain where the exact products
stay in range and no edge comes too close to half the circumference.
-/
namespace Planimeter

/-- The operation on real numbers. -/
noncomputable def UnaryOp.onReal : UnaryOp → ℝ → ℝ
  | half => fun r => r / (2 : Nat)
  | sqrt => fun r => √r

/-- The operation on real numbers. -/
noncomputable def BinaryOp.onReal : BinaryOp → ℝ → ℝ → ℝ
  | add => fun r t => r + t
  | sub => fun r t => r - t
  | mul => fun r t => r * t

namespace Formula

/-- A formula over finite data without any rounding. -/
noncomputable def value : Formula → ℝ
  | datum x => Exact.signed x.negative x.magnitude
  | pi => Real.pi
  | unary op p => op.onReal p.value
  | binary op p q => op.onReal p.value q.value

/-- The results of all operations of a formula, its own at the end. -/
def steps : Formula → List Binary32
  | datum _ => []
  | pi => []
  | unary op p => p.steps ++ [op.onData p.calculated]
  | binary op p q => p.steps ++ q.steps ++ [op.onData p.calculated q.calculated]

@[simp] theorem value_datum {x : Binary32} (h : x.IsPositive) : (datum x).value = x.magnitude := by
  simp [value, Exact.signed, h.negative]

end Formula

namespace Shape

open Binary

variable {a b c e r x y : Binary32}

theorem area_mem_steps (s : Shape) : s.area ∈ s.formula.steps := by
  cases s <;> exact List.mem_append_right _ (List.mem_singleton_self _)

theorem isPositive_mul (hx : x.IsPositive) (hy : y.IsPositive)
    (hlow : (2 : ℝ) ^ (-126 : ℤ) ≤ x.magnitude * y.magnitude)
    (hhigh : x.magnitude * y.magnitude ≤ (2 - (1 / 2) ^ 23) * 2 ^ 127) :
    (x.mul y).IsPositive := by
  refine isPositive_of_rounds (rounds_mul_of_isPositive hx hy) (le_trans ?_ hlow)
    (hhigh.trans_lt ?_)
  · norm_num
  · norm_num

theorem isPositive_pi : pi.IsPositive := by decide

/-- The longest radius of a circle with an area in range. -/
def longestRadius : Binary32 := .ofBits 0x5F106EBA

theorem isPositive_longestRadius : longestRadius.IsPositive := by decide

theorem rank_le_longestRadius
    (h : Real.pi * r.magnitude * r.magnitude ≤ (2 - (1 / 2) ^ 23) * 2 ^ 127) :
    r.rank ≤ longestRadius.rank := by
  by_contra hlonger
  have hnext : (9465531 * 2 ^ 40 : ℝ) ≤ r.magnitude := by
    have hrank : longestRadius.rank + 1 ≤ r.rank := by omega
    have := Format.magnitude_le_iff (F := .single).2 hrank
    rw [Format.magnitude_single, show longestRadius.rank + 1 = 190 * 2 ^ 23 + 1076923 by decide]
      at this
    norm_num at this ⊢
    exact this
  have hsquare : (9465531 * 2 ^ 40 : ℝ) * (9465531 * 2 ^ 40) ≤ r.magnitude * r.magnitude :=
    mul_le_mul hnext hnext (by norm_num) r.magnitude_nonneg
  have harea := mul_le_mul Real.pi_gt_d20.le hsquare (by norm_num) Real.pi_pos.le
  norm_num at harea h
  linarith

/-- A circle with an area in range has a product in range on the way to it. -/
theorem isPositive_circle (hr : r.IsPositive)
    (hlow : (2 : ℝ) ^ (-126 : ℤ) ≤ Real.pi * r.magnitude * r.magnitude)
    (hhigh : Real.pi * r.magnitude * r.magnitude ≤ (2 - (1 / 2) ^ 23) * 2 ^ 127) :
    (pi.mul r).IsPositive ∧ (circle r).area.IsPositive := by
  have hlongest := rank_le_longestRadius hhigh
  have hpi : pi.AtLeast 1 := by
    refine ⟨rfl, ?_⟩
    norm_num [pi, magnitude_ofBits, Format.magnitude_single]
  have hradius : r.AtLeast (-64) := by
    refine ⟨hr.isFinite.isNaN, ?_⟩
    by_contra hshort
    rw [not_le] at hshort
    have hsquare := mul_lt_mul'' hshort hshort r.magnitude_nonneg r.magnitude_nonneg
    have harea := mul_lt_mul'' Real.pi_lt_four hsquare Real.pi_pos.le
      (mul_nonneg r.magnitude_nonneg r.magnitude_nonneg)
    norm_num at harea hlow
    linarith
  have hproduct := hpi.mul hradius (by norm_num) (by norm_num)
  have harea := hproduct.mul hradius (by norm_num) (by norm_num)
  have hproductRank :=
    rank_mul_le isPositive_pi hr isPositive_pi isPositive_longestRadius le_rfl hlongest
  have hproductLongest : (pi.mul longestRadius).IsPositive := by decide +kernel
  have hproductPositive := hproduct.isPositive (rounds_mul_of_isPositive isPositive_pi hr).1
    (hproductRank.trans_lt hproductLongest.isFinite)
  have hareaRank := rank_mul_le hproductPositive hr hproductLongest isPositive_longestRadius
    hproductRank hlongest
  have hareaLongest : ((pi.mul longestRadius).mul longestRadius).IsFinite := by decide +kernel
  exact ⟨hproductPositive, harea.isPositive (rounds_mul_of_isPositive hproductPositive hr).1
    (hareaRank.trans_lt hareaLongest)⟩

/-- No operation on the way to an area in range leaves the range, unless the shape is a triangle. -/
theorem isPositive_of_mem_steps {s : Shape} (hkind : s.kind ≠ .triangle)
    (hdims : ∀ d ∈ s.dims, d.IsPositive) (hlow : (2 : ℝ) ^ (-126 : ℤ) ≤ s.formula.value)
    (hhigh : s.formula.value ≤ (2 - (1 / 2) ^ 23) * 2 ^ 127) :
    ∀ x ∈ s.formula.steps, x.IsPositive := by
  have hproduct {x y : Binary32} (hx : x.IsPositive) (hy : y.IsPositive) :
      (Formula.binary .mul (.datum x) (.datum y)).value = x.magnitude * y.magnitude := by
    rw [← Formula.value_datum hx, ← Formula.value_datum hy]
    rfl
  cases s with
  | square e =>
    have he : e.IsPositive := hdims e (by simp [dims])
    rw [formula, hproduct he he] at hlow hhigh
    exact List.forall_mem_singleton.2 (isPositive_mul he he hlow hhigh)
  | rectangle l w =>
    have hl : l.IsPositive := hdims l (by simp [dims])
    have hw : w.IsPositive := hdims w (by simp [dims])
    rw [formula, hproduct hl hw] at hlow hhigh
    exact List.forall_mem_singleton.2 (isPositive_mul hl hw hlow hhigh)
  | circle r =>
    have hr : r.IsPositive := hdims r (by simp [dims])
    have hvalue : (circle r).formula.value = Real.pi * r.magnitude * r.magnitude := by
      rw [← Formula.value_datum hr]
      rfl
    rw [hvalue] at hlow hhigh
    obtain ⟨hfirst, harea⟩ := isPositive_circle hr hlow hhigh
    intro x hx
    rcases List.mem_pair.1 hx with rfl | rfl
    · exact hfirst
    · exact harea
  | triangle a b c => exact absurd rfl hkind
  | parallelogram b h =>
    have hb : b.IsPositive := hdims b (by simp [dims])
    have hh : h.IsPositive := hdims h (by simp [dims])
    rw [formula, hproduct hb hh] at hlow hhigh
    exact List.forall_mem_singleton.2 (isPositive_mul hb hh hlow hhigh)

theorem isPositive_of_dims (h : ∀ d ∈ (triangle a b c).dims, d.IsPositive) :
    a.IsPositive ∧ b.IsPositive ∧ c.IsPositive :=
  ⟨h a (by simp [dims]), h b (by simp [dims]), h c (by simp [dims])⟩

/-- The operations on the way to the area of a triangle. -/
@[simp] theorem forall_mem_steps_triangle {P : Binary32 → Prop} :
    (∀ x ∈ (triangle a b c).formula.steps, P x) ↔
      P (a.add b) ∧ P ((a.add b).add c) ∧ P (halfCircumference a b c) ∧
      (∀ e ∈ [a, b, c], P ((halfCircumference a b c).sub e)) ∧
      P ((halfCircumference a b c).mul ((halfCircumference a b c).sub a)) ∧
      P (((halfCircumference a b c).mul ((halfCircumference a b c).sub a)).mul
        ((halfCircumference a b c).sub b)) ∧
      P (radicand a b c) ∧ P (triangle a b c).area := by
  simp only [formula, Formula.steps, Formula.calculated, UnaryOp.onData, BinaryOp.onData,
    area_triangle, radicand, halfCircumference, List.nil_append, List.forall_mem_append,
    List.forall_mem_cons, List.not_mem_nil, false_imp_iff, implies_true, and_true]
  grind only

/-- If the area of a triangle that closes is positive and finite, so is what every operation on the
way to it gives: a zero, an infinity or a NaN would last until the root. -/
theorem Closes.isPositive_of_mem_steps (h : Closes a b c) (ha : a.IsPositive) (hb : b.IsPositive)
    (hc : c.IsPositive) (harea : (triangle a b c).area.IsPositive) :
    ∀ x ∈ (triangle a b c).formula.steps, x.IsPositive := by
  have hradicand : (radicand a b c).IsPositive :=
    isPositive_of_sqrt (h.hasSign_radicand ha hb hc) harea
  rcases halfCircumference_cases ha hb hc with hinf | hs
  · rw [radicand_of_infinite ha hb hc hinf] at hradicand
    exact (Nat.lt_irrefl _ hradicand.isFinite).elim
  · have hhalf : (halfCircumference a b c).HasSign false := .inr (.inr hs.half_negative)
    have hsubA := h.hasSign_sub ha hb hc hs (by simp) ha
    have hsubB := h.hasSign_sub ha hb hc hs (by simp) hb
    have hsubC := h.hasSign_sub ha hb hc hs (by simp) hc
    obtain ⟨hsecond, hC⟩ := isPositive_of_mul ((hhalf.mul hsubA).mul hsubB) hsubC hradicand
    obtain ⟨hfirst, hB⟩ := isPositive_of_mul (hhalf.mul hsubA) hsubB hsecond
    obtain ⟨hhalf, hA⟩ := isPositive_of_mul hhalf hsubA hfirst
    have hp : (a.add b).IsPositive := by
      refine ⟨(rounds_add_of_isFinite ha.isFinite hb.isFinite ha.negative hb.negative).1,
        ha.rank_pos.trans_le ?_, hs.first_finite⟩
      refine hs.first.le_of_magnitude_le Format.fractionBits_single ha.isFinite ?_
      exact le_add_of_nonneg_right b.magnitude_nonneg
    have hq : ((a.add b).add c).IsPositive := by
      refine ⟨(rounds_add_of_isFinite hp.isFinite hc.isFinite hp.negative hc.negative).1,
        hp.rank_pos.trans_le ?_, hs.second_finite⟩
      refine hs.second.le_of_magnitude_le Format.fractionBits_single hp.isFinite ?_
      exact le_add_of_nonneg_right c.magnitude_nonneg
    rw [forall_mem_steps_triangle]
    exact ⟨hp, hq, hhalf, by simp [hA, hB, hC], hfirst, hsecond, hradicand, harea⟩

/-- Half the circumference is not close to an edge, and its exact products with the distances to the
edges are in range. -/
structure Ample (a b c : Binary32) (half : ℝ) : Prop where
  margin : ∀ e ∈ [a, b, c], half / 2 ^ 19 ≤ half - e.magnitude
  second : half * (half - a.magnitude) * (half - b.magnitude) ∈
    Set.Icc ((2 : ℝ) ^ (-125 : ℤ)) (2 ^ 127)
  third : half * (half - a.magnitude) * (half - b.magnitude) * (half - c.magnitude) ∈
    Set.Icc ((2 : ℝ) ^ (-125 : ℤ)) (2 ^ 127)

theorem Ample.pos {half : ℝ} (h : Ample a b c half) (ha : a.IsPositive) : 0 < half := by
  have hmargin := h.margin a (by simp)
  have hpos := ha.magnitude_pos
  norm_num at hmargin
  linarith

/-- The product of all four is between the fourth power of half the circumference and that of its
least distance to an edge. -/
theorem Ample.bounds {half : ℝ} (h : Ample a b c half) (ha : a.IsPositive) :
    (2 : ℝ) ^ (-32 : ℤ) ≤ half ∧ half ≤ 2 ^ 46 := by
  have hhalf := h.pos ha
  have hdistance (e : Binary32) : half - e.magnitude ≤ half := sub_le_self _ e.magnitude_nonneg
  have hmargin := h.margin
  have hleast : 0 ≤ half / 2 ^ 19 := by positivity
  simp only [List.forall_mem_cons, List.not_mem_nil, false_imp_iff, implies_true, and_true]
    at hmargin
  obtain ⟨hA, hB, hC⟩ := hmargin
  have hA' := hdistance a
  have hB' := hdistance b
  have hC' := hdistance c
  obtain ⟨hlow, hhigh⟩ := h.third
  generalize half - a.magnitude = x, half - b.magnitude = y, half - c.magnitude = z at *
  have hx : 0 ≤ x := hleast.trans hA
  have hy : 0 ≤ y := hleast.trans hB
  have hz : 0 ≤ z := hleast.trans hC
  constructor
  · have hpower : ((2 : ℝ) ^ (-32 : ℤ)) ^ 4 ≤ half ^ 4 := by
      calc ((2 : ℝ) ^ (-32 : ℤ)) ^ 4 ≤ 2 ^ (-125 : ℤ) := by norm_num
        _ ≤ half * x * y * z := hlow
        _ ≤ half * half * half * half := by gcongr
        _ = half ^ 4 := by ring
    exact le_of_pow_le_pow_left₀ (by norm_num) hhalf.le hpower
  · have hpower : half ^ 4 ≤ (2 ^ 46) ^ 4 := by
      have : half * (half / 2 ^ 19) * (half / 2 ^ 19) * (half / 2 ^ 19) ≤ half * x * y * z := by
        gcongr
      have := this.trans hhigh
      norm_num at this ⊢
      linarith
    exact le_of_pow_le_pow_left₀ (by norm_num) (by positivity) hpower

/-- A half that is not close to an edge loses less than an eighth of its distance to it by being
rounded, and hardly more by the subtraction. -/
theorem within_sub {half : ℝ} (hs : Summed a b c)
    (hhalf : (halfCircumference a b c).Within (1 - 1 / 2 ^ 22) (1 + 1 / 2 ^ 22) half)
    (he : e.IsPositive) (hmargin : half / 2 ^ 19 ≤ half - e.magnitude) (hpos : 0 < half) :
    ((halfCircumference a b c).sub e).Within (6 / 7) (8 / 7) (half - e.magnitude) := by
  have hbelow := hhalf.low_le
  have habove := hhalf.le_high
  norm_num at hmargin hbelow habove
  have hle : e.magnitude ≤ (halfCircumference a b c).magnitude := by linarith
  have hround := rounds_sub_of_le hs.half_finite he.isFinite hs.half_negative he.negative hle
  have hfinite : ((halfCircumference a b c).sub e).IsFinite := by
    refine (hround.2.le_of_le_magnitude Format.fractionBits_single ?_).trans_lt hs.half_finite
    exact sub_le_self _ e.magnitude_nonneg
  refine within_of_rounds hround hfinite (abs_sub_sub_le hle hfinite hround.2) (by linarith) ?_ ?_
  · norm_num
    linarith
  · norm_num
    linarith

/-- With room, every factor and every product is within bounds of its exact value. -/
theorem Ample.isPositive_radicand (h : Ample a b c (circumference a b c / 2)) (ha : a.IsPositive)
    (hb : b.IsPositive) (hc : c.IsPositive) : (radicand a b c).IsPositive := by
  have hpos := h.pos ha
  obtain ⟨hleast, hgreatest⟩ := h.bounds ha
  have hs : Summed a b c :=
    summed_of_circumference_le ha hb hc (by norm_num at hgreatest ⊢; linarith)
  obtain ⟨hlow, hhigh⟩ := abs_le.1
    (hs.abs_halfCircumference_sub_le (by norm_num at hleast ⊢; linarith))
  have hhalf : (halfCircumference a b c).Within (1 - 1 / 2 ^ 22) (1 + 1 / 2 ^ 22)
      (circumference a b c / 2) := by
    refine ⟨⟨hs.half_negative, magnitude_pos_iff.1 ?_, hs.half_finite⟩, ?_, ?_⟩
    · linarith
    · linarith
    · linarith
  have hfactor {e : Binary32} (he : e ∈ [a, b, c]) (hpos' : e.IsPositive) :=
    within_sub hs hhalf hpos' (h.margin e he) hpos
  have hA := hfactor (by simp) ha
  have hB := hfactor (by simp) hb
  have hC := hfactor (by simp) hc
  have hmarginA := h.margin a (by simp)
  have hmarginB := h.margin b (by simp)
  have hmarginC := h.margin c (by simp)
  obtain ⟨hsecondLow, hsecondHigh⟩ := h.second
  obtain ⟨hthirdLow, hthirdHigh⟩ := h.third
  have hleA : circumference a b c / 2 - a.magnitude ≤ circumference a b c / 2 :=
    sub_le_self _ a.magnitude_nonneg
  generalize circumference a b c / 2 = half at *
  generalize half - a.magnitude = x, half - b.magnitude = y, half - c.magnitude = z at *
  have hx : 0 ≤ x := le_trans (by positivity) hmarginA
  have hy : 0 ≤ y := le_trans (by positivity) hmarginB
  have hz : 0 ≤ z := le_trans (by positivity) hmarginC
  have hfirst : ((halfCircumference a b c).mul ((halfCircumference a b c).sub a)).Within
      (5 / 6) (7 / 6) (half * x) := by
    refine hhalf.mul hA hpos.le hx (by norm_num) (by norm_num) (by norm_num) ?_ ?_
    · have hproduct := mul_le_mul hleast (hmarginA.trans' (div_le_div_of_nonneg_right hleast
        (by norm_num))) (by norm_num) hpos.le
      norm_num at hproduct ⊢
      linarith
    · have hproduct := mul_le_mul hgreatest (hleA.trans hgreatest) hx (by norm_num)
      norm_num at hproduct ⊢
      linarith
  have hsecond : (((halfCircumference a b c).mul ((halfCircumference a b c).sub a)).mul
      ((halfCircumference a b c).sub b)).Within (2 / 3) (7 / 5) (half * x * y) := by
    refine hfirst.mul hB (by positivity) hy (by norm_num) (by norm_num) (by norm_num) ?_ ?_
    · norm_num at hsecondLow ⊢
      linarith
    · norm_num at hsecondHigh ⊢
      linarith
  have hthird : (radicand a b c).Within (1 / 2) (5 / 3) (half * x * y * z) := by
    refine hsecond.mul hC (by positivity) hz (by norm_num) (by norm_num) (by norm_num) ?_ ?_
    · norm_num at hthirdLow ⊢
      linarith
    · norm_num at hthirdHigh ⊢
      linarith
  exact hthird.isPositive

/-- The exact area of a triangle. -/
theorem value_triangle (ha : a.IsPositive) (hb : b.IsPositive) (hc : c.IsPositive) :
    (triangle a b c).formula.value = √(circumference a b c / 2 *
      (circumference a b c / 2 - a.magnitude) * (circumference a b c / 2 - b.magnitude) *
        (circumference a b c / 2 - c.magnitude)) := by
  simp only [formula, Formula.value, UnaryOp.onReal, BinaryOp.onReal, Exact.signed, ha.negative,
    hb.negative, hc.negative, Bool.false_eq_true, if_false, circumference, Nat.cast_ofNat]

/-- An area in range is calculated as a positive finite number exactly if every operation on the way
to it gives one. For all shapes but triangles that is so, and for triangles with room. -/
theorem area_in_range (s : Shape) (hdims : ∀ d ∈ s.dims, d.IsPositive)
    (hcloses : ∀ a b c, s = triangle a b c → Closes a b c)
    (hlow : (2 : ℝ) ^ (-126 : ℤ) ≤ s.formula.value)
    (hhigh : s.formula.value ≤ (2 - (1 / 2) ^ 23) * 2 ^ 127) :
    ∃ area, Calculation.area (some s) = .ok area ∧
      (area.IsPositive ↔ ∀ x ∈ s.formula.steps, x.IsPositive) ∧
      (s.kind ≠ .triangle → area.IsPositive) ∧
      (∀ a b c, s = triangle a b c → Ample a b c (circumference a b c / 2) →
        area.IsPositive) := by
  refine ⟨_, rfl, ⟨fun harea => ?_, fun h => h _ s.area_mem_steps⟩, fun hkind => ?_, ?_⟩
  · by_cases hkind : s.kind = .triangle
    · cases s with
      | triangle a b c =>
        obtain ⟨ha, hb, hc⟩ := isPositive_of_dims hdims
        exact (hcloses a b c rfl).isPositive_of_mem_steps ha hb hc harea
      | _ => cases hkind
    · exact isPositive_of_mem_steps hkind hdims hlow hhigh
  · exact isPositive_of_mem_steps hkind hdims hlow hhigh _ s.area_mem_steps
  · rintro a b c rfl hample
    obtain ⟨ha, hb, hc⟩ := isPositive_of_dims hdims
    exact (hample.isPositive_radicand ha hb hc).sqrt

/-- The triangle with edges of three, four and five has room, and its area is six. -/
theorem area_in_range_three_four_five :
    Closes (ofBits 0x40400000) (ofBits 0x40800000) (ofBits 0x40A00000) ∧
      (triangle (ofBits 0x40400000) (ofBits 0x40800000) (ofBits 0x40A00000)).formula.value = 6 ∧
      ∃ area, Calculation.area (some (triangle (ofBits 0x40400000) (ofBits 0x40800000)
          (ofBits 0x40A00000))) = .ok area ∧ area.IsPositive ∧
        ∀ x ∈ (triangle (ofBits 0x40400000) (ofBits 0x40800000)
          (ofBits 0x40A00000)).formula.steps, x.IsPositive := by
  have hthree : (ofBits 0x40400000 : Binary32).magnitude = 3 := by
    norm_num [magnitude_ofBits, Format.magnitude_single]
  have hfour : (ofBits 0x40800000 : Binary32).magnitude = 4 := by
    norm_num [magnitude_ofBits, Format.magnitude_single]
  have hfive : (ofBits 0x40A00000 : Binary32).magnitude = 5 := by
    norm_num [magnitude_ofBits, Format.magnitude_single]
  have hvalue : (triangle (ofBits 0x40400000) (ofBits 0x40800000)
      (ofBits 0x40A00000)).formula.value = 6 := by
    rw [value_triangle (by decide) (by decide) (by decide), circumference, hthree, hfour, hfive,
      show ((3 + 4 + 5) / 2 * ((3 + 4 + 5) / 2 - 3) * ((3 + 4 + 5) / 2 - 4) *
        ((3 + 4 + 5) / 2 - 5) : ℝ) = 6 ^ 2 by norm_num, Real.sqrt_sq (by norm_num)]
  have hcloses : Closes (ofBits 0x40400000) (ofBits 0x40800000) (ofBits 0x40A00000) := by
    decide +kernel
  have hample : Ample (ofBits 0x40400000) (ofBits 0x40800000) (ofBits 0x40A00000)
      (circumference (ofBits 0x40400000) (ofBits 0x40800000) (ofBits 0x40A00000) / 2) := by
    refine ⟨?_, ?_, ?_⟩ <;> norm_num [circumference, hthree, hfour, hfive]
  obtain ⟨area, harea, hsteps, -, hroom⟩ := area_in_range (triangle (ofBits 0x40400000)
    (ofBits 0x40800000) (ofBits 0x40A00000)) (by decide) (by rintro a b c ⟨⟩; exact hcloses)
    (by rw [hvalue]; norm_num) (by rw [hvalue]; norm_num)
  have hpositive : area.IsPositive := hroom _ _ _ rfl hample
  exact ⟨hcloses, hvalue, area, harea, hpositive, hsteps.1 hpositive⟩

/-- Without room the area can be missed: the product under the root of an equilateral triangle with
edges of two to the power of 50 overflows, while its area is below two to the power of 99. -/
theorem infinite_area_in_range : ¬∀ s : Shape, (∀ d ∈ s.dims, d.IsPositive) →
    (∀ a b c, s = triangle a b c → Closes a b c) →
    (2 : ℝ) ^ (-126 : ℤ) ≤ s.formula.value →
    s.formula.value ≤ (2 - (1 / 2) ^ 23) * 2 ^ 127 →
      ∃ area, Calculation.area (some s) = .ok area ∧ area.IsFinite ∧ area.isZero = false := by
  intro h
  have hedge : (ofBits 0x58800000 : Binary32).magnitude = 2 ^ 50 := by
    norm_num [magnitude_ofBits, Format.magnitude_single]
  have hvalue : (triangle (ofBits 0x58800000) (ofBits 0x58800000)
      (ofBits 0x58800000)).formula.value = √(3 * 2 ^ 196) := by
    rw [value_triangle (by decide) (by decide) (by decide), circumference, hedge]
    norm_num
  obtain ⟨area, harea, hfinite, -⟩ := h (triangle (ofBits 0x58800000) (ofBits 0x58800000)
    (ofBits 0x58800000)) (by decide) (by rintro a b c ⟨⟩; decide +kernel)
    (by rw [hvalue]; exact Real.le_sqrt_of_sq_le (by norm_num))
    (by rw [hvalue]; exact Real.sqrt_le_iff.2 (by norm_num))
  have hinfinite : Calculation.area (some (triangle (ofBits 0x58800000) (ofBits 0x58800000)
      (ofBits 0x58800000))) = .ok (infinite false) := by decide +kernel
  rw [hinfinite, Except.ok.injEq] at harea
  rw [← harea] at hfinite
  exact Nat.lt_irrefl _ hfinite

/-- A thin triangle loses a distance, and the infinite product before it turns into NaN. -/
example : Closes (ofBits 0x3A800000) (ofBits 0x62800000) (ofBits 0x62800000) ∧
    (triangle (ofBits 0x3A800000) (ofBits 0x62800000) (ofBits 0x62800000)).area.isNaN = true := by
  decide +kernel

end Shape

end Planimeter
