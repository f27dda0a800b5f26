import Planimeter.Config.Basic
import Planimeter.Log.Event
/-!
# Hosting

The service binds the configured address, tells where it listens, and goes on until a signal ends
it.
-/
namespace Planimeter

/-- What ends a service. -/
inductive Signal where
  | terminate | interrupt
  deriving DecidableEq, Repr

def Signal.name : Signal → String
  | .terminate => "SIGTERM"
  | .interrupt => "Ctrl+C"

/-- Why a service does not listen. -/
inductive ListenError where
  | badAddress (e : BadListenAddr)
  | notBound (address : SocketAddress) (reason : String)
  deriving DecidableEq, Repr

namespace ListenError

def message : ListenError → String
  | badAddress e => e.message
  | notBound address _ => s!"failed to bind {address.text}"

def cause : ListenError → String
  | badAddress _ => BadListenAddr.cause
  | notBound _ reason => reason

end ListenError

namespace Host

private def event (message : String) (fields : List (String × FieldValue)) : Event :=
  ⟨.info, "area_calculator::host", message, fields⟩

/-- Binds the configured address. `bind` yields the address with the port that was chosen. -/
def listen (bind : SocketAddress → Except String SocketAddress) (c : Config) :
    Except ListenError (Logged SocketAddress) := do
  let address ← c.socketAddress.mapError .badAddress
  let bound ← (bind address).mapError (.notBound address)
  return ⟨[event "area calculator listening"
    [("bound_addr", .bare bound.text), ("transport", .quoted "tcp")]], bound⟩

/-- What is told when a signal comes. -/
def shutdown (s : Signal) : List Event :=
  [event s!"Received {s.name} signal" [],
    event "Shutdown signal received, initiating graceful shutdown" [],
    event "gRPC server stopped" []]

end Host

end Planimeter
