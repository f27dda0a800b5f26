/-!
# Commands and options

What a command line of the program may consist of, and the help texts that tell it.
-/
namespace Planimeter.Command

/-- The program itself or one of its commands; each has options of its own. -/
inductive Scope where
  | program | run | check | calculate | help
  deriving DecidableEq, Repr

inductive Opt where
  | config | printConfig | verbose | listen | endpoint | multi | timeout | help | version
  deriving DecidableEq, Repr

namespace Opt

/-- The name after two hyphens. -/
def long : Opt → String
  | config => "config"
  | printConfig => "print-config"
  | verbose => "verbose"
  | listen => "listen"
  | endpoint => "endpoint"
  | multi => "multi"
  | timeout => "timeout-ms"
  | help => "help"
  | version => "version"

/-- The letter after one hyphen. -/
def short? : Opt → Option Char
  | config => some 'c'
  | verbose => some 'v'
  | help => some 'h'
  | version => some 'V'
  | _ => none

/-- What the value of the option is called, if it takes one. -/
def valueName? : Opt → Option String
  | config => some "CONFIG"
  | listen => some "LISTEN"
  | endpoint => some "ENDPOINT"
  | timeout => some "TIMEOUT_MS"
  | _ => none

def takesValue (o : Opt) : Bool := o.valueName?.isSome

/-- The value of an option that is not given. -/
def default? : Opt → Option String
  | endpoint => some "http://127.0.0.1:50051"
  | timeout => some "1000"
  | _ => none

/-- The option as messages show it; three points tell that it may be given several times. -/
def shown (o : Opt) : String :=
  match o, o.valueName? with
  | verbose, _ => s!"--{o.long}..."
  | _, some name => s!"--{o.long} <{name}>"
  | _, none => s!"--{o.long}"

def about : Opt → String
  | config => "Path to configuration file"
  | printConfig => "Print effective configuration (YAML) and exit"
  | verbose => "Log verbosity level (-v info, -vv debug, -vvv trace)"
  | listen => "Listen address override, e.g. 0.0.0.0:50051"
  | endpoint => "Server URI"
  | multi => "Send all shapes in one CalculateMulti call"
  | timeout => "Connect timeout and per-call deadline in milliseconds"
  | help => "Print help"
  | version => "Print version"

end Opt

/-- The name of the program. -/
def programName : String := "area-calculator"

def programVersion : String := "0.2.8"

/-- The argument for shapes as messages show it. -/
def shapesShown : String := "<SHAPES>..."

namespace Scope

def options : Scope → List Opt
  | program => [.config, .printConfig, .verbose, .help, .version]
  | run => [.config, .listen, .verbose, .help]
  | check => [.config, .verbose, .help]
  | calculate => [.config, .endpoint, .multi, .timeout, .verbose, .help]
  | help => []

/-- The commands of the program. -/
def commands : List Scope := [run, check, calculate, help]

def name : Scope → String
  | program => programName
  | run => "run"
  | check => "check"
  | calculate => "calculate"
  | help => "help"

def ofName? (name : String) : Option Scope := commands.find? fun s => s.name = name

def about : Scope → String
  | program => "Area Calculator - gRPC service computing areas of geometric shapes"
  | run => "Start the server"
  | check => "Validate configuration and exit"
  | calculate => "Send shapes to a running server and print their areas"
  | help => "Print this message or the help of the given subcommand(s)"

/-- What follows the name in the usage line. -/
def usage : Scope → String
  | program => " [OPTIONS] [COMMAND]"
  | run => " run [OPTIONS]"
  | check => " check [OPTIONS]"
  | calculate => s!" calculate [OPTIONS] {shapesShown}"
  | help => " help [COMMAND]..."

/-- The arguments that are no options, and what they are. -/
def arguments : Scope → List (String × String)
  | calculate =>
    [(shapesShown, "Shapes as <kind>=<dims>, e.g. square=3 rectangle=3,4 triangle=3,4,5")]
  | help => [("[COMMAND]...", "Print help for the subcommand(s)")]
  | _ => []

end Scope

/-- Two columns under a heading, the first as wide as its longest entry; nothing if there are no
rows. -/
def table (heading : String) (rows : List (String × String)) : String :=
  let width := (rows.map fun row => row.1.length).foldl max 0
  let line (row : String × String) : String :=
    let gap := String.ofList (List.replicate (width - row.1.length) ' ')
    s!"  {row.1}{gap}  {row.2}\n"
  if rows.isEmpty then "" else s!"\n{heading}:\n{String.join (rows.map line)}"

namespace Opt

/-- The row of the option in a help text. -/
def row (o : Opt) : String × String :=
  let lead := match o.short? with
    | some c => s!"-{c}, "
    | none => "    "
  let note := match o.default? with
    | some value => s!" [default: {value}]"
    | none => ""
  (lead ++ o.shown, o.about ++ note)

end Opt

namespace Scope

def helpText (s : Scope) : String :=
  let commands := if s = program then commands.map fun c => (c.name, c.about) else []
  s!"{s.about}\n\nUsage: {programName}{s.usage}\n" ++ table "Commands" commands
    ++ table "Arguments" s.arguments ++ table "Options" (s.options.map Opt.row)

end Scope

end Planimeter.Command
