import Planimeter.Log.Event
import Planimeter.Shape.Text
/-!
# Calculation of areas

One area at a time or several at once. Several are all or nothing: the first missing shape refuses
the whole request, and no area after it is looked at.
-/
namespace Planimeter

/-- A shape is missing, or of a kind that is not known. -/
inductive AreaError where
  | unrecognized
  deriving DecidableEq, Repr

def AreaError.message : AreaError → String
  | .unrecognized => "not a valid shape"

/-- A question to the service. -/
inductive Request where
  | one (shape : Option Shape)
  | multi (shapes : List (Option Shape))
  deriving DecidableEq, Repr

namespace Calculation

private def event (message : String) (fields : List (String × FieldValue)) : Event :=
  ⟨.debug, "area_calculator::domain::service", message, fields⟩

def area : Option Shape → Except AreaError Binary32
  | some s => .ok s.area
  | none => .error .unrecognized

/-- The areas of all shapes, or the position of the first one that is missing. -/
def areas : List (Option Shape) → Except Nat (List Binary32)
  | [] => .ok []
  | none :: _ => .error 0
  | some s :: rest =>
    match areas rest with
    | .ok values => .ok (s.area :: values)
    | .error index => .error (index + 1)

def calculateOne (shape : Option Shape) : Logged (Except AreaError (List Binary32)) where
  events := [event "calculating area for one shape"
    [("shape", .bare (Shape.textOrUnrecognized shape))]]
  result := (area shape).map fun value => [value]

def calculateMulti (shapes : List (Option Shape)) : Logged (Except AreaError (List Binary32)) :=
  let started := event "calculating areas for multiple shapes" [("count", .count shapes.length)]
  match areas shapes with
  | .ok values => ⟨[started], .ok values⟩
  | .error index =>
    ⟨[started, event "rejecting batch on invalid shape" [("index", .count index)]],
      .error .unrecognized⟩

def answer : Request → Logged (Except AreaError (List Binary32))
  | .one shape => calculateOne shape
  | .multi shapes => calculateMulti shapes

end Calculation

end Planimeter
