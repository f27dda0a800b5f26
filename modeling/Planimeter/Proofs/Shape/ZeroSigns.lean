import Planimeter.Proofs.Shape.Formula
import Mathlib.Tactic.Linarith
/-!
# The sign of zero in formulas

Exact numbers that differ in the sign of a zero at most give, under every operation, numbers that
differ in the sign of a zero at most, and so do the data that they round to. Over a whole formula
this is an induction, and the main statement is that the sign of a zero among the dimensions of a
shape has no influence on its area other than on the sign of a zero.
-/
namespace Planimeter

/-- The same, or both zero. -/
inductive Exact.Alike : Exact → Exact → Prop where
  | refl (e : Exact) : Alike e e
  | zeros (n n' : Bool) : Alike (.finite n 0) (.finite n' 0)

/-- The same word, or both a NaN, or both zero. -/
def Binary.Alike {F : Format} (x y : Binary F) : Prop :=
  x = y ∨ x.isNaN ∧ y.isNaN ∨ x.isZero ∧ y.isZero

namespace Exact

variable {e e' d d' : Exact}

theorem Alike.neg (h : Alike e e') : Alike e.neg e'.neg := by
  cases h with
  | refl => exact .refl _
  | zeros => exact .zeros _ _

theorem alike_ofReal (n n' : Bool) (r : ℝ) : Alike (ofReal n r) (ofReal n' r) := by
  unfold ofReal
  by_cases h : r = 0
  · simp only [h, abs_zero]
    exact .zeros _ _
  · simp only [h, if_false]
    exact .refl _

@[simp] theorem signed_zero (n : Bool) : signed n 0 = 0 := by
  simp [signed]

theorem Alike.add (h : Alike e e') (h' : Alike d d') : Alike (e.add d) (e'.add d') := by
  cases h with
  | refl =>
    cases h' with
    | refl => exact .refl _
    | zeros k k' =>
      cases e with
      | nan => exact .refl _
      | infinite n => exact .refl _
      | finite n m =>
        simp only [Exact.add, signed_zero]
        exact alike_ofReal _ _ _
  | zeros n n' =>
    cases h' with
    | refl =>
      cases d with
      | nan => exact .refl _
      | infinite k => exact .refl _
      | finite k m =>
        simp only [Exact.add, signed_zero]
        exact alike_ofReal _ _ _
    | zeros k k' =>
      simp only [Exact.add, signed_zero]
      exact alike_ofReal _ _ _

theorem Alike.mul (h : Alike e e') (h' : Alike d d') : Alike (e.mul d) (e'.mul d') := by
  cases h with
  | refl =>
    cases h' with
    | refl => exact .refl _
    | zeros k k' =>
      cases e with
      | nan => exact .refl _
      | infinite n => simpa [Exact.mul] using .refl _
      | finite n m =>
        simp only [Exact.mul, mul_zero]
        exact .zeros _ _
  | zeros n n' =>
    cases h' with
    | refl =>
      cases d with
      | nan => exact .refl _
      | infinite k => simpa [Exact.mul] using .refl _
      | finite k m =>
        simp only [Exact.mul, zero_mul]
        exact .zeros _ _
    | zeros k k' =>
      simp only [Exact.mul, mul_zero]
      exact .zeros _ _

theorem Alike.half (h : Alike e e') : Alike e.half e'.half := by
  cases h with
  | refl => exact .refl _
  | zeros n n' => simpa [Exact.half] using .zeros n n'

theorem Alike.sqrt (h : Alike e e') : Alike e.sqrt e'.sqrt := by
  cases h with
  | refl => exact .refl _
  | zeros n n' => simpa [Exact.sqrt] using .zeros n n'

end Exact

theorem UnaryOp.alike {e e' : Exact} (op : UnaryOp) (h : e.Alike e') :
    (op.exact e).Alike (op.exact e') := by
  cases op with
  | half => exact h.half
  | sqrt => exact h.sqrt

theorem BinaryOp.alike {e e' d d' : Exact} (op : BinaryOp) (h : e.Alike e') (h' : d.Alike d') :
    (op.exact e d).Alike (op.exact e' d') := by
  cases op with
  | add => exact h.add h'
  | sub => exact h.add h'.neg
  | mul => exact h.mul h'

namespace Binary

variable {x y : Binary32}

theorem Alike.exact (h : x.Alike y) : x.exact.Alike y.exact := by
  rcases h with rfl | ⟨hx, hy⟩ | ⟨hx, hy⟩
  · exact .refl _
  · rw [exact_of_isNaN hx, exact_of_isNaN hy]
    exact .refl _
  · have hzero {z : Binary32} (hz : z.isZero) : z.exact = .finite z.negative 0 := by
      have hrank : z.rank = 0 := by simpa [isZero] using hz
      rw [exact_of_isFinite (show z.rank < _ from hrank ▸ Format.infinity_single), hrank,
        Format.magnitude_zero]
    rw [hzero hx, hzero hy]
    exact .zeros _ _

/-- Numbers that are alike round to data that are alike. -/
theorem alike_of_rounds {e e' : Exact} (h : e.Alike e') (hx : e.Rounds x) (hy : e'.Rounds y) :
    x.Alike y := by
  cases h with
  | refl =>
    cases e with
    | nan => exact .inr (.inl ⟨hx, hy⟩)
    | infinite n => exact .inl (hx.trans hy.symm)
    | finite n m =>
      obtain ⟨nx, rx, hrx⟩ := x
      obtain ⟨ny, ry, hry⟩ := y
      obtain ⟨rfl, hx⟩ := hx
      obtain ⟨hn, hy⟩ := hy
      obtain rfl : ny = nx := hn
      obtain rfl : rx = ry := hx.eq hy
      exact .inl rfl
  | zeros n n' => exact .inr (.inr ⟨isZero_of_rounds hx, isZero_of_rounds hy⟩)

theorem alike_unsignZero (x : Binary32) : x.Alike x.unsignZero := by
  unfold unsignZero
  split
  · next h => exact .inr (.inr ⟨h, rfl⟩)
  · exact .inl rfl

end Binary

/-- The formula with all its data replaced by their images. -/
def Formula.map (f : Binary32 → Binary32) : Formula → Formula
  | datum x => datum (f x)
  | pi => pi
  | unary op p => unary op (p.map f)
  | binary op p q => binary op (p.map f) (q.map f)

theorem Formula.alike_map {f : Binary32 → Binary32} (hf : ∀ x : Binary32, x.Alike (f x))
    (p : Formula) : p.calculated.Alike (p.map f).calculated := by
  induction p with
  | datum x => exact hf x
  | pi => exact .inl rfl
  | unary op p ih =>
    exact Binary.alike_of_rounds (op.alike ih.exact) (op.rounds _) (op.rounds _)
  | binary op p q ihp ihq =>
    exact Binary.alike_of_rounds (op.alike ihp.exact ihq.exact) (op.rounds _ _) (op.rounds _ _)

@[simp] theorem Shape.formula_map (f : Binary32 → Binary32) (s : Shape) :
    (s.map f).formula = s.formula.map f := by
  cases s <;> rfl

/-- The signs of the zeros among the dimensions of a shape change no more of its area than the sign
of a zero. -/
theorem Shape.alike_area (s : Shape) : s.area.Alike (s.map Binary.unsignZero).area := by
  rw [← calculated_formula, ← calculated_formula, formula_map]
  exact Formula.alike_map Binary.alike_unsignZero _

end Planimeter
