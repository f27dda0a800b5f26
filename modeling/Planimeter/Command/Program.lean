import Planimeter.Command.Arguments
import Planimeter.Command.Task
import Planimeter.Log.Logger
/-!
# The program

A run reads the command line, loads the configuration, installs the logger and carries out the
command. Its outcome is an exit code, or a service that goes on, and what was written to the two
standard streams.
-/
namespace Planimeter.Command

private def event (message : String) (fields : List (String × FieldValue)) : Event :=
  ⟨.info, "area_calculator", message, fields⟩

/-- Starts the service, which goes on until a signal comes. -/
def serve (s : Surroundings σ) (c : Config) : Task σ Unit := do
  let started ← Task.attempt .listening (Host.listen s.bind c)
  Task.log started.events
  match s.signal with
  | some signal => Task.log (Host.shutdown signal)
  | none => throw (.serving started.result)

/-- Prints the configuration if it is one to start the service with. -/
def check (c : Config) : Task σ Unit := do
  Task.log [event "Checking configuration..." []]
  let _ ← Task.attempt (fun e => .listening (.badAddress e)) c.socketAddress
  Task.print "Configuration is valid\n"
  Task.print s!"{c.yaml}\n"

/-- A single attempt to connect and to ask, each within a time limit. -/
def clientSettings (timeout : Fin UInt64.size) : ClientSettings where
  serviceName := "area-calculator-cli"
  connectTimeout := .millis timeout timeout.isLt
  rpcTimeout := .millis timeout timeout.isLt
  maxRetries := 0

private def ask (s : Surroundings σ) (settings : ClientSettings) (r : Request) :
    Task σ (List Binary32) :=
  Task.client fun peer => Session.call settings r s.send peer

/-- Asks for the areas of all shapes, together or one by one. -/
def areas (s : Surroundings σ) (settings : ClientSettings) (multi : Bool) (shapes : List Shape) :
    Task σ (List Binary32) := do
  if multi then
    Task.log [event "requesting areas for multiple shapes" [("count", .count shapes.length)]]
    ask s settings (.multi (shapes.map some))
  else
    let answers ← shapes.mapM fun shape => do
      Task.log [event "requesting area for one shape" [("shape", .bare shape.text)]]
      ask s settings (.one (some shape))
    return answers.flatten

/-- Prints the areas of shapes once all are there. -/
def calculate (s : Surroundings σ) (endpoint : String) (multi : Bool) (timeout : Fin UInt64.size)
    (shapes : List Shape) : Task σ Unit := do
  let settings := clientSettings timeout
  Task.client fun peer => Session.connect settings Uri.ofEndpoint endpoint s.dial peer
  let values ← areas s settings multi shapes
  values.forM fun value => Task.print s!"Area: {value.text}\n"

/-- Carries out a command; without one the service is started. -/
def perform (s : Surroundings σ) (c : Config) : Option Action → Task σ Unit
  | none => serve s c
  | some (.run _) => serve s c
  | some .check => check c
  | some (.calculate endpoint multi timeout shapes) => calculate s endpoint multi timeout shapes

inductive Ending where
  | exited (code : Nat)
  /-- The service listens and nothing ends it. -/
  | serving (address : SocketAddress)
  deriving DecidableEq, Repr

/-- How a run ends, what it wrote, and the state that it left the peer in. -/
structure Outcome (σ : Type) where
  ending : Ending
  stdout : String := ""
  stderr : String := ""
  peer : σ

namespace Interruption

/-- The outcome of a command line that asks for no more than a text, or is not in order. -/
def outcome (peer : σ) : Interruption → Outcome σ
  | help scope => { ending := .exited 0, stdout := scope.helpText, peer }
  | version => { ending := .exited 0, stdout := s!"{programName} {programVersion}\n", peer }
  | wrong e => { ending := .exited 2, stderr := e.report, peer }

end Interruption

namespace Invocation

/-- What the command line changes in the configuration. -/
def overrides (i : Invocation) : Overrides where
  listen := match i.action with
    | some (.run listen) => listen
    | _ => none
  verbose := i.verbose

/-- What is asked for once the configuration is there. -/
def task (i : Invocation) (s : Surroundings σ) (c : Config) : Task σ Unit :=
  if i.printConfig then Task.print s!"Effective configuration:\n{c.yaml}\n"
  else perform s c i.action

end Invocation

namespace Stop

def ending : Stop → Ending
  | failed _ => .exited 1
  | crashed _ => .exited 101
  | serving address => .serving address

/-- What is told when a run stops, after the log. -/
def report : Stop → String
  | failed f => f.report
  | crashed f => s!"{f.message}\n"
  | serving _ => ""

end Stop

/-- The configuration file that a path names. -/
def configFile (s : Surroundings σ) (path : String) : ConfigFile := ⟨path, s.file path⟩

/-- The configuration that is in force, and the logger that it asks for. -/
def prepare (s : Surroundings σ) (i : Invocation) :
    Except Fault (Except LoadError (Config × Logger)) := do
  match ← Config.load (i.config.map (configFile s)) s.environment with
  | .error e => return .error e
  | .ok loaded =>
    let c := loaded.override i.overrides
    return .ok (c, ← Logger.ofConfig s.environment c)

/-- Runs the program. -/
def run (s : Surroundings σ) (arguments : List String) (peer : σ) : Outcome σ :=
  let stopped (stop : Stop) : Outcome σ := { ending := stop.ending, stderr := stop.report, peer }
  match Invocation.ofArguments arguments with
  | .error interruption => interruption.outcome peer
  | .ok invocation =>
    match prepare s invocation with
    | .error fault => stopped (.crashed fault)
    | .ok (.error e) => stopped (.failed (.loading e))
    | .ok (.ok (c, logger)) =>
      let (result, done) := (invocation.task s c).run.run ⟨"", [], peer⟩
      let log := logger.text s.time done.events
      match result with
      | .ok () => { ending := .exited 0, stdout := done.printed, stderr := log, peer := done.peer }
      | .error stop =>
        { ending := stop.ending, stdout := done.printed, stderr := log ++ stop.report
          peer := done.peer }

end Planimeter.Command
