import Planimeter.Calculation
import Planimeter.Proofs.Binary.Single
import Mathlib.Analysis.Real.Pi.Bounds
/-!
# Areas as formulas

The area of a shape is a formula over its dimensions. A formula is worth what it says: every
operation in it is carried out exactly on what its operands are worth and rounded once. The main
statement is that the calculated area is the worth of the formula of its shape, and that the formula
is worth nothing else.
-/
namespace Planimeter

inductive UnaryOp where
  | half | sqrt

inductive BinaryOp where
  | add | sub | mul

namespace UnaryOp

/-- The exact operation. -/
noncomputable def exact : UnaryOp → Exact → Exact
  | half => .half
  | sqrt => .sqrt

/-- The operation on data. -/
def onData : UnaryOp → Binary32 → Binary32
  | half => .half
  | sqrt => .sqrt

end UnaryOp

namespace BinaryOp

/-- The exact operation. -/
noncomputable def exact : BinaryOp → Exact → Exact → Exact
  | add => .add
  | sub => .sub
  | mul => .mul

/-- The operation on data. -/
def onData : BinaryOp → Binary32 → Binary32 → Binary32
  | add => .add
  | sub => .sub
  | mul => .mul

end BinaryOp

/-- Formulas over data, with the ratio of a circle's circumference to its diameter. -/
inductive Formula where
  | datum (x : Binary32)
  | pi
  | unary (op : UnaryOp) (p : Formula)
  | binary (op : BinaryOp) (p q : Formula)

namespace Formula

/-- A formula is worth a datum that its last exact result rounds to, its operands being worth what
they were rounded to before. -/
inductive Worth : Formula → Binary32 → Prop where
  | datum {x z : Binary32} (h : x.exact.Rounds z) : Worth (datum x) z
  | pi {z : Binary32} (h : (Exact.finite false Real.pi).Rounds z) : Worth pi z
  | unary {op : UnaryOp} {p : Formula} {x z : Binary32} (hp : Worth p x)
      (h : (op.exact x.exact).Rounds z) : Worth (unary op p) z
  | binary {op : BinaryOp} {p q : Formula} {x y z : Binary32} (hp : Worth p x) (hq : Worth q y)
      (h : (op.exact x.exact y.exact).Rounds z) : Worth (binary op p q) z

/-- A formula calculated on data. -/
def calculated : Formula → Binary32
  | datum x => x
  | pi => Shape.pi
  | unary op p => op.onData p.calculated
  | binary op p q => op.onData p.calculated q.calculated

end Formula

theorem UnaryOp.rounds (op : UnaryOp) (x : Binary32) : (op.exact x.exact).Rounds (op.onData x) := by
  cases op with
  | half => exact Binary.rounds_half Format.fractionBits_single Format.infinity_single x
  | sqrt => exact Binary.rounds_sqrt Format.fractionBits_single Format.infinity_single x

theorem BinaryOp.rounds (op : BinaryOp) (x y : Binary32) :
    (op.exact x.exact y.exact).Rounds (op.onData x y) := by
  cases op with
  | add => exact Binary.rounds_add Format.fractionBits_single Format.infinity_single x y
  | sub => exact Binary.rounds_sub Format.fractionBits_single Format.infinity_single x y
  | mul => exact Binary.rounds_mul Format.fractionBits_single Format.infinity_single x y

/-- The constant is the datum nearest to the number. -/
theorem rounds_pi : (Exact.finite false Real.pi).Rounds Shape.pi := by
  have hbelow : Format.single.middle (Shape.pi.rank - 1) = 26353589 / 2 ^ 23 := by
    rw [Format.middle_eq, show Format.single.units (Shape.pi.rank - 1) +
      Format.single.units (Shape.pi.rank - 1 + 1) = 26353589 * 2 ^ 127 by decide +kernel]
    norm_num [Format.scale, Format.single]
  have habove : Format.single.middle Shape.pi.rank = 26353591 / 2 ^ 23 := by
    rw [Format.middle_eq, show Format.single.units Shape.pi.rank +
      Format.single.units (Shape.pi.rank + 1) = 26353591 * 2 ^ 127 by decide +kernel]
    norm_num [Format.scale, Format.single]
  have hlow : Format.single.middle (Shape.pi.rank - 1) < Real.pi := by
    rw [hbelow]
    exact lt_trans (by norm_num) Real.pi_gt_d20
  have hhigh : Real.pi < Format.single.middle Shape.pi.rank := by
    rw [habove]
    exact lt_trans Real.pi_lt_d20 (by norm_num)
  exact ⟨rfl, Format.isNearest_of_middle Format.fractionBits_single (by decide) (fun _ => hlow.le)
    hhigh.le fun _ => ⟨hlow, hhigh⟩⟩

/-- Data that differ in the payload of a NaN stand for the same. -/
theorem Binary.exact_congr {x y : Binary32} (h : x.canonical = y.canonical) :
    x.exact = y.exact := by
  rw [← Binary.exact_canonical Format.fractionBits_single, h,
    Binary.exact_canonical Format.fractionBits_single]

namespace Formula

variable {p : Formula} {x y : Binary32}

theorem worth_calculated (p : Formula) : p.Worth p.calculated := by
  induction p with
  | datum x => exact .datum (Binary.rounds_exact Format.fractionBits_single x)
  | pi => exact .pi rounds_pi
  | unary op p hp => exact .unary hp (op.rounds _)
  | binary op p q hp hq => exact .binary hp hq (op.rounds _ _)

/-- A formula is worth one datum, NaNs not told apart. -/
theorem Worth.canonical_eq (h : p.Worth x) (h' : p.Worth y) : x.canonical = y.canonical := by
  induction h generalizing y with
  | datum h =>
    cases h' with
    | datum h' => exact h.canonical_eq h'
  | pi h =>
    cases h' with
    | pi h' => exact h.canonical_eq h'
  | unary _ h ih =>
    cases h' with
    | unary hp' h' =>
      rw [Binary.exact_congr (ih hp')] at h
      exact h.canonical_eq h'
  | binary _ _ h ihp ihq =>
    cases h' with
    | binary hp' hq' h' =>
      rw [Binary.exact_congr (ihp hp'), Binary.exact_congr (ihq hq')] at h
      exact h.canonical_eq h'

/-- Which NaN a formula is worth is left open. -/
theorem Worth.congr (h : p.Worth x) (hxy : x.canonical = y.canonical) : p.Worth y := by
  have hround {e : Exact} (h : e.Rounds x) : e.Rounds y := by
    rwa [← Exact.rounds_canonical_iff Format.fractionBits_single, ← hxy,
      Exact.rounds_canonical_iff Format.fractionBits_single]
  cases h with
  | datum h => exact .datum (hround h)
  | pi h => exact .pi (hround h)
  | unary hp h => exact .unary hp (hround h)
  | binary hp hq h => exact .binary hp hq (hround h)

/-- A formula is worth what is calculated and nothing else. -/
theorem worth_iff : p.Worth x ↔ p.calculated.canonical = x.canonical :=
  ⟨fun h => p.worth_calculated.canonical_eq h, fun h => p.worth_calculated.congr h⟩

end Formula

namespace Shape

open Formula in
/-- The formula of an area: the product of the edges, `(π * r) * r` for a circle, and for a triangle
with half the circumference `s = ((a + b) + c) / 2` the root of
`((s * (s - a)) * (s - b)) * (s - c)`. -/
def formula : Shape → Formula
  | square e => binary .mul (datum e) (datum e)
  | rectangle l w => binary .mul (datum l) (datum w)
  | circle r => binary .mul (binary .mul .pi (datum r)) (datum r)
  | triangle a b c =>
    let s := unary .half (binary .add (binary .add (datum a) (datum b)) (datum c))
    unary .sqrt (binary .mul (binary .mul (binary .mul s (binary .sub s (datum a)))
      (binary .sub s (datum b))) (binary .sub s (datum c)))
  | parallelogram b h => binary .mul (datum b) (datum h)

@[simp] theorem calculated_formula (s : Shape) : s.formula.calculated = s.area := by
  cases s <;> rfl

/-- The area of a shape is what its formula is worth, and the formula is worth nothing else, NaNs
not told apart. -/
theorem area_iff_worth (s : Shape) (x : Binary32) :
    (Calculation.area (some s)).map Binary.canonical = .ok x.canonical ↔ s.formula.Worth x := by
  have hmap : (Calculation.area (some s)).map Binary.canonical = .ok s.area.canonical := rfl
  simp [Formula.worth_iff, hmap]

end Shape

end Planimeter
