import Planimeter.Log.Filter
import Planimeter.Log.Line
/-!
# Loggers

A logger turns the events that pass its filter into lines. A program installs one logger; an attempt
to install another is reported to the first and changes nothing.
-/
namespace Planimeter

structure Logger where
  filter : Filter
  format : LogFormat
  deriving DecidableEq, Repr

namespace Logger

/-- The variable whose value goes before the configured level. -/
def variableName : String := "RUST_LOG"

/-- The logger that a configuration asks for in an environment. -/
def ofConfig (environment : List (String × String)) (c : Config) : Except Fault Logger := do
  let filter ← Filter.choose (environment.reverse.lookup variableName) c.level
  return ⟨filter, c.format⟩

/-- The lines of the events that pass, each with the same time. -/
def text (l : Logger) (time : String) (events : List Event) : String :=
  String.join ((events.filter l.filter.passes).map (Event.line l.format time))

def alreadyInstalled : Event :=
  ⟨.debug, "area_calculator::logging", "tracing subscriber already installed",
    [("error", .bare "a global default trace dispatcher has already been set")]⟩

/-- Installs a logger, unless there is one. -/
def install (current : Option Logger) (next : Logger) : Logged Logger :=
  match current with
  | none => ⟨[], next⟩
  | some logger => ⟨[alreadyInstalled], logger⟩

end Logger

end Planimeter
