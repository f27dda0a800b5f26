import Planimeter.Calculation
import Planimeter.Rpc.Status
/-!
# The service behind its remote interface

A request is reported, calculated, and refused with a status if a shape is missing.
-/
namespace Planimeter.Rpc

private def event (level : Level) (message : String) (fields : List (String × FieldValue)) :
    Event :=
  ⟨level, "area_calculator::api::grpc::server", message, fields⟩

def statusOfAreaError : AreaError → Status
  | .unrecognized => { code := .invalidArgument, message := "Invalid request: Not a valid shape" }

/-- The name of the remote method that answers a request. -/
def method : Request → String
  | .one _ => "CalculateOne"
  | .multi _ => "CalculateMulti"

private def accepted : Request → Event
  | .one _ => event .info "Calculating the area for one shape" []
  | .multi shapes =>
    event .info "Calculating the area for multiple shapes" [("count", .count shapes.length)]

/-- The answer of the service to a request that has arrived. -/
def handle (r : Request) : Logged (Except Status (List Binary32)) :=
  let answer := (Calculation.answer r).after (accepted r)
  match answer.result with
  | .ok values => ⟨answer.events, .ok values⟩
  | .error e =>
    ⟨answer.events ++ [event .warn s!"rejecting {method r} request" [("error", .bare e.message)]],
      .error (statusOfAreaError e)⟩

end Planimeter.Rpc
