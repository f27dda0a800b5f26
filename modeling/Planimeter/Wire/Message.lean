import Planimeter.Shape.Basic
import Planimeter.Wire.Field
/-!
# Messages

The three messages of the service and the messages of the five kinds inside them. Reading merges
field after field into a message that is empty at first: dimensions and variants replace what was
there, save that a variant seen again adds to the one before; list elements are appended. Writing
puts the fields in the order of their numbers and leaves out a dimension equal to zero.
-/
namespace Planimeter

namespace Kind

/-- The name of the message that holds a variant. -/
def messageName : Kind → String
  | square => "Square"
  | rectangle => "Rectangle"
  | circle => "Circle"
  | triangle => "Triangle"
  | parallelogram => "Parallelogram"

/-- The names of the dimensions, in the order of their field numbers from 1. -/
def fieldNames : Kind → List String
  | square => ["edge_length"]
  | rectangle => ["length", "width"]
  | circle => ["radius"]
  | triangle => ["edge_a", "edge_b", "edge_c"]
  | parallelogram => ["base_length", "height"]

/-- The field number of a variant. -/
def number : Kind → Nat
  | square => 1
  | rectangle => 2
  | circle => 3
  | triangle => 4
  | parallelogram => 5

def ofNumber? (n : Nat) : Option Kind := all.find? fun k => k.number == n

end Kind

namespace Wire

/-- Messages nest at most this deep. -/
def depthLimit : Nat := 100

/-- The word that four bytes store, the lowest first. -/
def wordOfBytes (bytes : List UInt8) : Nat := bytes.foldr (fun b n => b.toNat + 256 * n) 0

def readFloat (i : Input) : Except Failure (Binary32 × i.Shorter) :=
  match i.take? 4 with
  | none => fail .underflow
  | some (bytes, ⟨r, h⟩) => .ok (.ofBits (wordOfBytes bytes), ⟨r, by omega⟩)

/-- Merges a field of a variant. -/
def mergeDim (budget : Nat) (s : Shape) (key : Key) (i : Input) :
    Except Failure (Shape × i.Rest) :=
  match s.kind.fieldNames[key.field - 1]? with
  | some name =>
    within s.kind.messageName name <| expectType key.type .fixed32 <|
      (readFloat i).map fun (x, rest) => (s.set (key.field - 1) x, rest.toRest)
  | none => (skipField budget key i).map fun rest => (s, rest)

/-- The shape that a variant is merged into. -/
def openVariant (kind : Kind) : Option Shape → Shape
  | some s => if s.kind = kind then s else .zero kind
  | none => .zero kind

/-- Merges a field of a message that holds a shape. -/
def mergeShape (budget : Nat) (m : Option Shape) (key : Key) (i : Input) :
    Except Failure (Option Shape × i.Rest) :=
  match Kind.ofNumber? key.field with
  | some kind =>
    within "ShapeMessage" "shape" <| expectType key.type .delimited <|
      if budget = 0 then fail .tooDeep
      else
        (mergeDelimited (fieldStep (mergeDim (budget - 1))) (openVariant kind m) i).map
          fun (s, rest) => (some s, rest)
  | none => (skipField budget key i).map fun rest => (m, rest)

/-- Merges a field of a request for several areas. -/
def mergeRequest (budget : Nat) (shapes : Array (Option Shape)) (key : Key) (i : Input) :
    Except Failure (Array (Option Shape) × i.Rest) :=
  if key.field = 1 then
    within "AreaRequest" "shapes" <| expectType key.type .delimited <|
      if budget = 0 then fail .tooDeep
      else
        (mergeDelimited (fieldStep (mergeShape (budget - 1))) none i).map
          fun (m, rest) => (shapes.push m, rest)
  else (skipField budget key i).map fun rest => (shapes, rest)

/-- Appends one value of a list. -/
def pushFloat (values : Array Binary32) (i : Input) :
    Except Failure (Array Binary32 × i.Shorter) :=
  (readFloat i).map fun (x, rest) => (values.push x, rest)

/-- Merges a field of a response; its values come one by one or packed. -/
def mergeResponse (budget : Nat) (values : Array Binary32) (key : Key) (i : Input) :
    Except Failure (Array Binary32 × i.Rest) :=
  if key.field = 1 then
    within "AreaResponse" "value" <|
      if key.type = .delimited then mergeDelimited pushFloat values i
      else expectType key.type .fixed32 <|
        (pushFloat values i).map fun (values, rest) => (values, rest.toRest)
  else (skipField budget key i).map fun rest => (values, rest)

/-- Merges all fields of the bytes into a message. -/
def mergeBytes (merge : Nat → α → Key → (i : Input) → Except Failure (α × i.Rest))
    (a : α) (bytes : List UInt8) : Except Failure α :=
  (mergeUntil 0 (fieldStep (merge depthLimit)) a (.ofList bytes)).map Prod.fst

def decodeShape (bytes : List UInt8) : Except Failure (Option Shape) :=
  mergeBytes mergeShape none bytes

def decodeRequest (bytes : List UInt8) : Except Failure (List (Option Shape)) :=
  (mergeBytes mergeRequest #[] bytes).map Array.toList

def decodeResponse (bytes : List UInt8) : Except Failure (List Binary32) :=
  (mergeBytes mergeResponse #[] bytes).map Array.toList

/-- The four bytes of a datum, the lowest first. -/
def encodeFloat (x : Binary32) : List UInt8 :=
  let word := x.toBits
  [.ofNat word, .ofNat (word / 256), .ofNat (word / 65536), .ofNat (word / 16777216)]

def encodeDelimited (field : Nat) (body : List UInt8) : List UInt8 :=
  Key.encode ⟨field, .delimited⟩ ++ encodeVarint body.length ++ body

/-- The dimensions from field number `field` on. -/
def encodeDims : (field : Nat) → List Binary32 → List UInt8
  | _, [] => []
  | field, x :: xs =>
    (if x.isZero then [] else Key.encode ⟨field, .fixed32⟩ ++ encodeFloat x)
      ++ encodeDims (field + 1) xs

def encodeShape : Option Shape → List UInt8
  | none => []
  | some s => encodeDelimited s.kind.number (encodeDims 1 s.dims)

def encodeRequest (shapes : List (Option Shape)) : List UInt8 :=
  shapes.flatMap fun m => encodeDelimited 1 (encodeShape m)

def encodeResponse : List Binary32 → List UInt8
  | [] => []
  | values => encodeDelimited 1 (values.flatMap encodeFloat)

end Wire

end Planimeter
