import Planimeter.Client.Error
import Planimeter.Rpc.Frame
/-!
# Peers

What a client may find at the other end of a connection, and what becomes of a request on its way
there and back: it is encoded, refused if it is too long, decoded, answered, and the answer goes the
same way back.
-/
namespace Planimeter

/-- An answer laid out in advance. -/
inductive Planned where
  | failure (status : Status)
  | areas (values : List Binary32)
  deriving DecidableEq, Repr

/-- A peer gives the planned answers first and then those of the service, and keeps the requests
that arrived; a silent peer lets every request run out of time. -/
inductive Peer where
  | answering (planned : List Planned) (received : List Request)
  | silent
  deriving DecidableEq, Repr

namespace Peer

/-- The service itself. -/
def service : Peer := answering [] []

def received : Peer → List Request
  | answering _ received => received
  | silent => []

/-- Takes a message over the wire: what is too long or cannot be decoded does not arrive. -/
def transmit (encode : α → List UInt8) (decode : List UInt8 → Except Wire.Failure α) (a : α) :
    Except Status α :=
  let bytes := encode a
  if Rpc.messageLimit < bytes.length then .error (Rpc.tooLarge bytes.length)
  else (decode bytes).mapError Rpc.undecodable

/-- A request as it arrives. -/
def transmitRequest : Request → Except Status Request
  | .one shape => (transmit Wire.encodeShape Wire.decodeShape shape).map Request.one
  | .multi shapes => (transmit Wire.encodeRequest Wire.decodeRequest shapes).map Request.multi

def transmitAreas (values : List Binary32) : Except Status (List Binary32) :=
  transmit Wire.encodeResponse Wire.decodeResponse values

/-- A status as it arrives: a failure that says `ok` has no message to go with it. -/
def transmitStatus (s : Status) : Status :=
  if s.code = .ok then { code := .internal, message := "Missing response message." } else s

def timedOut : Status :=
  { code := .cancelled, message := "Timeout expired", sources := [.timeoutExpired] }

def transmitAnswer : Except Status (List Binary32) → Except Status (List Binary32)
  | .ok values => transmitAreas values
  | .error s => .error (transmitStatus s)

/-- Sends a request to a peer and waits for the answer. -/
def ask (r : Request) : Peer → Logged (Except Status (List Binary32)) × Peer
  | silent => (⟨[], .error timedOut⟩, silent)
  | answering planned received =>
    match transmitRequest r with
    | .error s => (⟨[], .error s⟩, answering planned received)
    | .ok arrived =>
      let received := received ++ [arrived]
      match planned with
      | .failure s :: rest =>
        (⟨[], transmitAnswer (.error s)⟩, answering rest received)
      | .areas values :: rest =>
        (⟨[], transmitAnswer (.ok values)⟩, answering rest received)
      | [] => ((Rpc.handle arrived).map transmitAnswer, answering [] received)

/-- Asks a peer in another process, whose events stay there. -/
def askRemote (r : Request) (p : Peer) : Logged (Except Status (List Binary32)) × Peer :=
  let (answer, p) := p.ask r
  (⟨[], answer.result⟩, p)

end Peer

end Planimeter
