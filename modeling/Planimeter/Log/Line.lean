import Planimeter.Config.Basic
import Planimeter.Log.Event
import Planimeter.Text.Json
import Planimeter.Text.Quoted
/-!
# Log lines

An event as text, in one of three forms. Each tells the time, the level, the target, the message and
the fields; texts in fields are quoted or bare as the field tells.
-/
namespace Planimeter

namespace FieldValue

def text : FieldValue → String
  | count n => toString n
  | bare s => s
  | quoted s => Text.quoted s

def json : FieldValue → String
  | count n => toString n
  | bare s => Text.Json.string s
  | quoted s => Text.Json.string s

end FieldValue

namespace Level

/-- The name in five characters. -/
def column (l : Level) : String :=
  String.ofList (List.replicate (5 - l.name.length) ' ') ++ l.name

end Level

namespace Event

/-- A line with an empty one after it. -/
def pretty (time : String) (e : Event) : String :=
  let fields := e.fields.map fun (name, value) => s!", {name}: {value.text}"
  s!"  {time} {e.level.column} {e.target}: {e.message}{String.join fields}\n\n"

def compact (time : String) (e : Event) : String :=
  let fields := e.fields.map fun (name, value) => s!" {name}={value.text}"
  s!"{time} {e.level.column} {e.target}: {e.message}{String.join fields}\n"

def json (time : String) (e : Event) : String :=
  let fields := ("message", Text.Json.string e.message) ::
    e.fields.map fun (name, value) => (name, value.json)
  let line := Text.Json.object
    [("timestamp", Text.Json.string time), ("level", Text.Json.string e.level.name),
      ("fields", Text.Json.object fields), ("target", Text.Json.string e.target)]
  line ++ "\n"

/-- The text of an event in a form. -/
def line (format : LogFormat) (time : String) (e : Event) : String :=
  match format with
  | .pretty => e.pretty time
  | .compact => e.compact time
  | .json => e.json time

end Event

end Planimeter
