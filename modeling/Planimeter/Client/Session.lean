import Planimeter.Client.Peer
import Planimeter.Client.Retry
import Planimeter.Net.Uri
/-!
# Sessions

A client connects to a service and then asks it. Both are attempts with retries; a connection is
retried whatever went wrong, a call only when the same call may succeed later.
-/
namespace Planimeter.Session

def event (level : Level) (message : String) (fields : List (String × FieldValue)) : Event :=
  ⟨level, "area_calculator_sdk::client", message, fields⟩

def connectionRetried (s : ClientSettings) (attempt : Nat) (error : String) (pause : Duration) :
    Event :=
  event .warn "gRPC connection failed, retrying..."
    [("service", .quoted s.serviceName), ("attempt", .count attempt),
      ("max_retries", .count s.maxRetries), ("error", .bare error),
      ("backoff_ms", .count pause.wholeMillis)]

def connectionEnded (s : ClientSettings) (uri : String) (attempt : Nat) :
    Except String Unit → List Event
  | .ok _ =>
    [event .info "gRPC client connected"
      [("service", .quoted s.serviceName), ("uri", .bare uri), ("attempt", .count attempt)]]
  | .error error =>
    [event .error "gRPC connection failed after all retries"
      [("service", .quoted s.serviceName), ("attempt", .count attempt), ("error", .bare error)]]

/-- Connects to the service that an identifier names. What an identifier names, if it is accepted,
is left to `read`; `dial` makes one attempt. -/
def connect (s : ClientSettings) (read : String → Except String ι) (uri : String)
    (dial : ι → σ → Except String Unit × σ) (state : σ) :
    Except Fault (Logged (Except ClientError Unit) × σ) :=
  match read uri with
  | .error problem => .ok (⟨[], .error (.internal s!"invalid endpoint '{uri}': {problem}")⟩, state)
  | .ok address => do
    let attempt state := let (outcome, state) := dial address state; (⟨[], outcome⟩, state)
    let (run, state) ← retry s (fun _ => true) attempt state
    let events := run.events (connectionRetried s) (connectionEnded s uri)
    let result := run.last.result.mapError fun error =>
      .transport s!"failed to connect to {uri} after {run.count} attempts: {error}"
    return (⟨events, result⟩, state)

/-- The name of an operation in events. -/
def operation : Request → String
  | .one _ => "calculator.calculate_one"
  | .multi _ => "calculator.calculate_multi"

def callRetried (op : String) (attempt : Nat) (status : Status) (pause : Duration) : Event :=
  event .warn "gRPC call failed, retrying..."
    [("op", .quoted op), ("attempt", .count attempt), ("code", .bare status.code.text),
      ("message", .bare status.message), ("backoff_ms", .count pause.wholeMillis)]

def callEnded (op : String) (attempt : Nat) : Except Status (List Binary32) → List Event
  | .ok _ =>
    if attempt ≤ 1 then []
    else [event .info "gRPC call succeeded after retries"
      [("op", .quoted op), ("attempt", .count attempt)]]
  | .error status =>
    [event .debug "gRPC call giving up"
      [("op", .quoted op), ("attempt", .count attempt), ("code", .bare status.code.text)]]

/-- Asks a peer, whose state is `σ`, for areas. `send` makes one attempt. -/
def call (s : ClientSettings) (r : Request)
    (send : Request → σ → Logged (Except Status (List Binary32)) × σ) (state : σ) :
    Except Fault (Logged (Except ClientError (List Binary32)) × σ) := do
  let (run, state) ← retry s Status.isRetryable (send r) state
  let events := run.events (callRetried (operation r)) (callEnded (operation r))
  return (⟨events, run.last.result.mapError ClientError.ofStatus⟩, state)

/-- Asks a peer several things in turn. -/
def calls (s : ClientSettings) : List Request → Peer →
    Except Fault (List (Logged (Except ClientError (List Binary32))) × Peer)
  | [], peer => .ok ([], peer)
  | r :: rs, peer => do
    let (answer, peer) ← call s r Peer.ask peer
    let (answers, peer) ← calls s rs peer
    return (answer :: answers, peer)

/-- The connection that a client opened, the answers to its calls, and the peer after them. -/
structure Transcript where
  connection : Logged (Except ClientError Unit)
  answers : List (Logged (Except ClientError (List Binary32)))
  peer : Peer

/-- Connects to a peer and asks it several things in turn; without a connection nothing is asked. -/
def run (s : ClientSettings) (uri : String) (dial : Uri → Except String Unit)
    (requests : List Request) (peer : Peer) : Except Fault Transcript := do
  let (connection, _) ←
    connect s Uri.ofEndpoint uri (fun address (_ : Unit) => (dial address, ())) ()
  match connection.result with
  | .error _ => return ⟨connection, [], peer⟩
  | .ok _ =>
    let (answers, peer) ← calls s requests peer
    return ⟨connection, answers, peer⟩

end Planimeter.Session
