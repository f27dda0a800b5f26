import Planimeter.Client.Session
import Planimeter.Config.Load
import Planimeter.Host
/-!
# Tasks

A task of the program prints, logs and asks a peer, and may end early. What it did before it ended
is kept, so that an error cannot take back what was printed.
-/
namespace Planimeter.Command

/-- What the program finds around it: files, variables, the text of the time, and a network with a
peer whose state is `σ`. -/
structure Surroundings (σ : Type) where
  /-- The content of a file, unless there is no such file. -/
  file : String → Option ByteArray
  environment : List (String × String)
  time : String
  /-- Binds an address and yields the one with the port that was chosen. -/
  bind : SocketAddress → Except String SocketAddress
  /-- What ends the service, if anything does. -/
  signal : Option Signal
  /-- Makes one attempt to connect. -/
  dial : Uri → σ → Except String Unit × σ
  /-- Makes one attempt to ask. -/
  send : Request → σ → Logged (Except Status (List Binary32)) × σ

inductive Failure where
  | loading (e : LoadError)
  | listening (e : ListenError)
  | asking (e : ClientError)
  deriving Repr

namespace Failure

def message : Failure → String
  | loading e => e.message
  | listening e => e.message
  | asking e => e.message

def cause? : Failure → Option String
  | loading e => e.cause?
  | listening e => some e.cause
  | asking _ => none

/-- The lines of a text, each behind four blanks. -/
def indented (text : String) : String :=
  let lines := (Text.pieces '\n' text.toList).map fun line => "    " ++ String.ofList line
  "\n".intercalate lines

/-- What the program tells of a failure. -/
def report (f : Failure) : String :=
  match f.cause? with
  | none => s!"Error: {f.message}\n"
  | some cause => s!"Error: {f.message}\n\nCaused by:\n{indented cause}\n"

end Failure

/-- What a task has done so far. -/
structure Progress (σ : Type) where
  printed : String
  events : List Event
  peer : σ

/-- Why a task does not come to its end. -/
inductive Stop where
  | failed (f : Failure)
  | crashed (f : Fault)
  /-- The service listens and nothing ends it. -/
  | serving (address : SocketAddress)

abbrev Task (σ α : Type) := ExceptT Stop (StateM (Progress σ)) α

namespace Task

def print (text : String) : Task σ Unit :=
  modify fun p => { p with printed := p.printed ++ text }

def log (events : List Event) : Task σ Unit :=
  modify fun p => { p with events := p.events ++ events }

/-- Does what may fail without a trace. -/
def attempt (failure : ε → Failure) (result : Except ε α) : Task σ α :=
  match result with
  | .ok a => return a
  | .error e => throw (.failed (failure e))

/-- Has a client do something with the peer. -/
def client (act : σ → Except Fault (Logged (Except ClientError α) × σ)) : Task σ α := do
  match act (← get).peer with
  | .error fault => throw (.crashed fault)
  | .ok (outcome, peer) =>
    modify fun p => { p with peer }
    log outcome.events
    attempt .asking outcome.result

end Task

end Planimeter.Command
