import Planimeter.Client.Error
/-!
# Local clients

A client that calculates in its own process has no connection and makes no second attempt; it fails
only where a shape is missing.
-/
namespace Planimeter

/-- The answer of a client that calculates in its own process. -/
def answerLocally (r : Request) : Logged (Except ClientError (List Binary32)) :=
  (Calculation.answer r).map fun result => result.mapError ClientError.ofAreaError

end Planimeter
