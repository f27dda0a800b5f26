import Planimeter.Config.Basic
import Planimeter.Config.Environment
import Planimeter.Yaml.Read
/-!
# Loading a configuration

The default configuration, a file and the environment are laid over each other, and then each
setting must have the right type. A setting that is hidden by a later source is never looked at.
-/
namespace Planimeter

/-- What a setting should be. -/
inductive Wanted where
  | text
  | format
  | formatEntry
  | formatContent
  | serverSection
  | loggingSection
  deriving DecidableEq, Repr

def Wanted.name : Wanted → String
  | text => "a string"
  | format => "enum LogFormat"
  | formatEntry => "enum"
  | formatContent => "unit"
  | serverSection => "struct ServerConfig"
  | loggingSection => "struct LoggingConfig"

/-- What is wrong with a setting. -/
inductive SettingProblem where
  | wrongType (found : Setting) (wanted : Wanted)
  | unknownFormat (name : String)
  deriving Repr

structure SettingError where
  problem : SettingProblem
  origin : Origin
  /-- The names that lead to the setting. -/
  path : List String
  deriving Repr

/-- The kind of a value, and the value itself if it is a scalar. -/
def Value.describe : Value → String
  | .null => "unit"
  | .bool b => s!"bool {b}"
  | .unsigned .w64 n => s!"unsigned int \x60{n}\x60"
  | .unsigned .w128 n => s!"integer \x60{n}\x60 as u128"
  | .signed .w64 n => s!"signed int \x60{n}\x60"
  | .signed .w128 n => s!"integer \x60{n}\x60 as i128"
  | .float x => s!"float \x60{x.text}\x60"
  | .char c => s!"string {Text.quoted c.toString}"
  | .text s => s!"string {Text.quoted s}"
  | .list _ => "sequence"
  | .table _ => "map"

def Setting.describe : Setting → String
  | .value _ v => v.describe
  | .table _ _ => "map"

namespace SettingProblem

def message : SettingProblem → String
  | wrongType found wanted => s!"invalid type: found {found.describe}, expected {wanted.name}"
  | unknownFormat name =>
    let names := ", ".intercalate (LogFormat.all.map fun f => s!"\x60{f.name}\x60")
    s!"unknown variant: found \x60{name}\x60, expected \x60one of {names}\x60"

end SettingProblem

namespace Origin

/-- The source in messages. -/
def name : Origin → String
  | builtin => "defaults"
  | file name => s!"{name} YAML file"
  | environment => s!"\x60{Environment.namePrefix}\x60 environment variable(s)"

/-- The key that a path is in the source. -/
def key (path : List String) : Origin → String
  | environment => ".".intercalate (path.map fun s => String.ofList (s.toList.map Char.toUpper))
  | _ => ".".intercalate ("default" :: path)

end Origin

namespace SettingError

def message (e : SettingError) : String :=
  s!"{e.problem.message} for key {Text.quoted (e.origin.key e.path)} in {e.origin.name}"

end SettingError

inductive LoadError where
  | missingFile (name : String)
  | unreadable (name : String) (e : Yaml.ReadError)
  | badSetting (e : SettingError)
  deriving Repr

namespace LoadError

def message : LoadError → String
  | missingFile name => s!"config file does not exist: {name}"
  | _ => "failed to load configuration"

def cause? : LoadError → Option String
  | missingFile _ => none
  | unreadable name e => some s!"{e.message} in {Origin.name (.file name)}"
  | badSetting e => some e.message

end LoadError

namespace Setting

def wrongType (path : List String) (s : Setting) (wanted : Wanted) : Except SettingError α :=
  .error ⟨.wrongType s wanted, s.origin, path⟩

/-- A text, or a character as a text of one. -/
def toText (path : List String) (s : Setting) : Except SettingError String :=
  match s with
  | value _ (.text t) => .ok t
  | value _ (.char c) => .ok c.toString
  | _ => s.wrongType path .text

def formatOfName (origin : Origin) (path : List String) (name : String) :
    Except SettingError LogFormat :=
  match LogFormat.ofName? name with
  | some f => .ok f
  | none => .error ⟨.unknownFormat name, origin, path⟩

/-- The entry whose name comes first in the order of characters. -/
def firstEntry? : List (String × Setting) → Option (String × Setting)
  | [] => none
  | (name, s) :: rest =>
    match firstEntry? rest with
    | some (name', s') => if name' < name then some (name', s') else some (name, s)
    | none => some (name, s)

/-- The name of a format, or a table whose first entry is named so and holds nothing. -/
def toFormat (path : List String) (s : Setting) : Except SettingError LogFormat :=
  match s with
  | value origin (.text name) => formatOfName origin path name
  | table _ entries =>
    match firstEntry? entries with
    | none => s.wrongType path .formatEntry
    | some (name, content) => do
      let f ← formatOfName content.origin (path ++ [name]) name
      match content with
      | value _ .null => return f
      | _ => content.wrongType (path ++ [name]) .formatContent
  | _ => s.wrongType path .format

/-- A setting in a section, and the name that leads to it there. -/
abbrev Field := Option (String × Setting)

/-- A section: a table, or a list of the settings in a fixed order. -/
inductive Section where
  | table (entries : List (String × Setting))
  | list (origin : Origin) (items : List Value)
  deriving Repr

def toSection (path : List String) (wanted : Wanted) (s : Setting) : Except SettingError Section :=
  match s with
  | .table _ entries => .ok (.table entries)
  | .value origin (.list items) => .ok (.list origin items)
  | _ => s.wrongType path wanted

/-- The setting with a name, or at an index if names are missing. -/
def Section.field (name : String) (index : Nat) : Section → Field
  | .table entries => (entries.lookup name).map (name, ·)
  | .list origin items => items[index]?.map fun v => (toString index, ofValue origin v)

/-- Reads a setting of a section, if it is there. -/
def readField (read : List String → Setting → Except SettingError α) (path : List String)
    (default : α) : Field → Except SettingError α
  | none => .ok default
  | some (name, s) => read (path ++ [name]) s

end Setting

namespace Config

open Setting

/-- Reads the section on logging: a table in the order of names, a list in its own order. -/
def readLogging (s : Section) (c : Config) : Except SettingError Config := do
  let format : Except SettingError LogFormat :=
    readField toFormat ["logging"] c.format (s.field "format" 1)
  let level : Except SettingError String := readField toText ["logging"] c.level (s.field "level" 0)
  match s with
  | .table _ => return { c with format := ← format, level := ← level }
  | .list _ _ => return { c with level := ← level, format := ← format }

def readServer (s : Section) (c : Config) : Except SettingError Config := do
  return { c with
    listenAddr := ← readField toText ["server"] c.listenAddr (s.field "listen_addr" 0) }

/-- Reads one section, if it is there. -/
def readSection (name : String) (wanted : Wanted)
    (read : Section → Config → Except SettingError Config)
    (entries : List (String × Setting)) (c : Config) : Except SettingError Config :=
  match entries.lookup name with
  | none => .ok c
  | some s => do read (← s.toSection [name] wanted) c

/-- Reads the sections in the order of their names. What is not told is as in `{}`. -/
def ofEntries (entries : List (String × Setting)) : Except SettingError Config := do
  let c ← readSection "logging" .loggingSection readLogging entries {}
  readSection "server" .serverSection readServer entries c

/-- A configuration as settings. -/
def settings (c : Config) : List (String × Value) :=
  [("logging", .table [("format", .text c.format.name), ("level", .text c.level)]),
    ("server", .table [("listen_addr", .text c.listenAddr)])]

end Config

/-- A configuration file: its name, and its content unless there is no such file. -/
structure ConfigFile where
  name : String
  content : Option ByteArray

namespace Config

def fileSettings (file : ConfigFile) : Except LoadError (List (String × Value)) := do
  let some content := file.content | throw (.missingFile file.name)
  (Yaml.readFile content).mapError (.unreadable file.name)

/-- The default configuration with that of a file, if one is given, laid over it. -/
def fileLayers (file : Option ConfigFile) : Except LoadError Setting := do
  let defaults := Setting.ofValue .builtin (.table ({} : Config).settings)
  match file with
  | none => return defaults
  | some file => return defaults.overlay (.ofValue (.file file.name) (.table (← fileSettings file)))

/-- Loads the configuration from a file, if one is given, and the environment. The environment is
read unless there is no such file, and a fault there comes before what is wrong in the file. -/
def load (file : Option ConfigFile) (environment : List (String × String)) :
    Except Fault (Except LoadError Config) := do
  match fileLayers file with
  | .error (.missingFile name) => return .error (.missingFile name)
  | below =>
    let above ← Environment.settings environment
    return do
      match (← below).overlay above with
      | .table _ entries => (ofEntries entries).mapError .badSetting
      | .value _ _ => return {}

end Config

end Planimeter
