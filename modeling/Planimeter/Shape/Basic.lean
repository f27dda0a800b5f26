import Planimeter.Binary.Arithmetic
/-!
# Shapes and their areas

Five kinds of plane shapes with their dimensions in single precision. Dimensions are taken as they
come: an area is what the formula gives, a negative number or NaN included. Where a shape may be
missing, as in a message of a newer sender, it is an `Option Shape`.
-/
namespace Planimeter

inductive Kind where
  | square | rectangle | circle | triangle | parallelogram
  deriving DecidableEq, Repr

namespace Kind

def all : List Kind := [square, rectangle, circle, triangle, parallelogram]

def name : Kind → String
  | square => "square"
  | rectangle => "rectangle"
  | circle => "circle"
  | triangle => "triangle"
  | parallelogram => "parallelogram"

/-- The number of dimensions. -/
def arity : Kind → Nat
  | square => 1
  | rectangle => 2
  | circle => 1
  | triangle => 3
  | parallelogram => 2

def ofName? (name : String) : Option Kind := all.find? fun k => k.name == name

end Kind

inductive Shape where
  | square (edge : Binary32)
  | rectangle (length width : Binary32)
  | circle (radius : Binary32)
  | triangle (a b c : Binary32)
  | parallelogram (base height : Binary32)
  deriving DecidableEq, Repr

namespace Shape

def kind : Shape → Kind
  | square _ => .square
  | rectangle _ _ => .rectangle
  | circle _ => .circle
  | triangle _ _ _ => .triangle
  | parallelogram _ _ => .parallelogram

/-- The dimensions in the order in which they are written. -/
def dims : Shape → List Binary32
  | square e => [e]
  | rectangle l w => [l, w]
  | circle r => [r]
  | triangle a b c => [a, b, c]
  | parallelogram b h => [b, h]

/-- The shape of a kind with the given dimensions, if they are as many as the kind takes. -/
def ofDims? : Kind → List Binary32 → Option Shape
  | .square, [e] => some (square e)
  | .rectangle, [l, w] => some (rectangle l w)
  | .circle, [r] => some (circle r)
  | .triangle, [a, b, c] => some (triangle a b c)
  | .parallelogram, [b, h] => some (parallelogram b h)
  | _, _ => none

@[simp] theorem length_dims (s : Shape) : s.dims.length = s.kind.arity := by
  cases s <;> rfl

@[simp] theorem ofDims?_dims (s : Shape) : ofDims? s.kind s.dims = some s := by
  cases s <;> rfl

/-- The shape of a kind with every dimension zero. -/
def zero : Kind → Shape
  | .square => square .zero
  | .rectangle => rectangle .zero .zero
  | .circle => circle .zero
  | .triangle => triangle .zero .zero .zero
  | .parallelogram => parallelogram .zero .zero

@[simp] theorem kind_zero (k : Kind) : (zero k).kind = k := by
  cases k <;> rfl

/-- The shape with every dimension replaced by its image. -/
def map (f : Binary32 → Binary32) : Shape → Shape
  | square e => square (f e)
  | rectangle l w => rectangle (f l) (f w)
  | circle r => circle (f r)
  | triangle a b c => triangle (f a) (f b) (f c)
  | parallelogram b h => parallelogram (f b) (f h)

/-- The shape with the dimension at a place replaced; places beyond the last leave it as it is. -/
def set : Shape → Nat → Binary32 → Shape
  | square _, 0, x => square x
  | rectangle _ w, 0, x => rectangle x w
  | rectangle l _, 1, x => rectangle l x
  | circle _, 0, x => circle x
  | triangle _ b c, 0, x => triangle x b c
  | triangle a _ c, 1, x => triangle a x c
  | triangle a b _, 2, x => triangle a b x
  | parallelogram _ h, 0, x => parallelogram x h
  | parallelogram b _, 1, x => parallelogram b x
  | s, _, _ => s

@[simp] theorem dims_set (s : Shape) (i : Nat) (x : Binary32) :
    (s.set i x).dims = s.dims.set i x := by
  rcases i with _ | _ | _ | i <;> cases s <;> rfl

/-- The ratio of a circle's circumference to its diameter, in single precision. -/
def pi : Binary32 := .ofBits 0x40490FDB

/-- The area of a triangle from its edges, by way of half its circumference. -/
def heron (a b c : Binary32) : Binary32 :=
  let s := ((a.add b).add c).half
  (((s.mul (s.sub a)).mul (s.sub b)).mul (s.sub c)).sqrt

def area : Shape → Binary32
  | square e => e.mul e
  | rectangle l w => l.mul w
  | circle r => (pi.mul r).mul r
  | triangle a b c => heron a b c
  | parallelogram b h => b.mul h

end Shape

end Planimeter
