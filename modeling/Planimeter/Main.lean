import Planimeter.Command.Program
/-!
# The command line

Hands the arguments, the environment and the configuration file to the program, writes what it
writes, and exits as it exits. There is no network here: nothing can be bound, and no peer is
reached.
-/
namespace Planimeter.Command

/-- The variables of the environment in their order, as the system keeps them: each ends with a
byte zero. -/
def splitEnvironment (block : ByteArray) : List (String × String) :=
  let texts := block.toList.splitOn 0
  texts.filterMap fun bytes => do
    let text ← String.fromUTF8? ⟨bytes.toArray⟩
    let (name, value) ← Text.cut? '=' text.toList
    return (String.ofList name, String.ofList value)

/-- The content of a file, unless it cannot be read. -/
def readContent (path : String) : IO (Option ByteArray) := do
  try
    return some (← IO.FS.readBinFile path)
  catch _ =>
    return none

/-- The time since the machine was started, in seconds. -/
def clock : IO String := do
  let millis ← IO.monoMsNow
  let fraction := toString (1000 + millis % 1000)
  return s!"{millis / 1000}.{fraction.drop 1}s"

/-- The program as it finds itself on a machine, with the file at a path if it has one. -/
def surroundings (path : Option String) : IO (Surroundings Unit) := do
  let content ← match path with
    | some path => readContent path
    | none => pure none
  let block ← readContent "/proc/self/environ"
  return {
    file := fun name => if some name = path then content else none
    environment := splitEnvironment (block.getD .empty)
    time := ← clock
    bind := fun _ => .error "Operation not supported (os error 95)"
    signal := none
    dial := fun _ _ => (.error "transport error", ())
    send := fun _ _ =>
      (⟨[], .error { code := .unavailable, message := "transport error" }⟩, ()) }

end Planimeter.Command

def main (arguments : List String) : IO UInt32 := do
  let path := match Planimeter.Command.Invocation.ofArguments arguments with
    | .ok invocation => invocation.config
    | .error _ => none
  let outcome := Planimeter.Command.run (← Planimeter.Command.surroundings path) arguments ()
  IO.print outcome.stdout
  IO.eprint outcome.stderr
  match outcome.ending with
  | .exited code => return code.toUInt32
  | .serving _ => return 0
