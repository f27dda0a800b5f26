import Planimeter.Net.SocketAddress
import Planimeter.Yaml.Write
/-!
# Configuration

Where the service listens and what it logs. A configuration is printed as the document that a
configuration file with the same meaning would hold.
-/
namespace Planimeter

/-- The form of log lines. -/
inductive LogFormat where
  | pretty | compact | json
  deriving DecidableEq, Repr

namespace LogFormat

def all : List LogFormat := [pretty, compact, json]

def name : LogFormat → String
  | pretty => "pretty"
  | compact => "compact"
  | json => "json"

def ofName? (name : String) : Option LogFormat := all.find? fun f => f.name = name

end LogFormat

structure Config where
  /-- The address to listen at, as it was given. -/
  listenAddr : String := "127.0.0.1:50051"
  /-- What is logged, unless the environment tells otherwise. -/
  level : String := "info"
  format : LogFormat := .pretty
  deriving DecidableEq, Repr

/-- What a command line changes in a configuration. -/
structure Overrides where
  listen : Option String := none
  /-- The number of flags that ask for more to be logged. -/
  verbose : Nat := 0
  deriving DecidableEq, Repr

/-- The address to listen at is no address. -/
structure BadListenAddr where
  given : String
  deriving DecidableEq, Repr

namespace BadListenAddr

def message (e : BadListenAddr) : String := s!"invalid server.listen_addr '{e.given}'"

def cause : String := "invalid socket address syntax"

end BadListenAddr

namespace Config

/-- What is logged after a number of flags. -/
def levelOfFlags : Nat → Option String
  | 0 => none
  | 1 => some "info"
  | 2 => some "debug"
  | _ => some "trace"

def override (o : Overrides) (c : Config) : Config :=
  { c with
    listenAddr := o.listen.getD c.listenAddr
    level := (levelOfFlags o.verbose).getD c.level }

def socketAddress (c : Config) : Except BadListenAddr SocketAddress :=
  match SocketAddress.parse? c.listenAddr with
  | some address => .ok address
  | none => .error ⟨c.listenAddr⟩

def yaml (c : Config) : String :=
  String.ofList ("server:\n  listen_addr: ".toList ++ Yaml.Write.scalar c.listenAddr.toList
    ++ "logging:\n  level: ".toList ++ Yaml.Write.scalar c.level.toList
    ++ "  format: ".toList ++ Yaml.Write.scalar c.format.name.toList)

end Config

end Planimeter
