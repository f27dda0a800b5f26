import Planimeter.Command.Scope
import Planimeter.Shape.Text
import Planimeter.Text.Blank
import Planimeter.Text.Digit
import Planimeter.Text.Terminal
/-!
# Command lines

The arguments are read from left to right. What is wrong with the value of an option or with a shape
shows only when the next option is met or the arguments end, so that an unknown option in between is
told first.
-/
namespace Planimeter.Command

/-- Why a text is no number of milliseconds. -/
inductive NumberError where
  | empty
  | notDigit
  | tooLarge
  deriving DecidableEq, Repr

def NumberError.message : NumberError → String
  | empty => "cannot parse integer from empty string"
  | notDigit => "invalid digit found in string"
  | tooLarge => "number too large to fit in target type"

inductive UsageError where
  | unknownArgument (argument : String)
  | unknownCommand (name : String)
  | missingValue (o : Opt)
  | unexpectedValue (o : Opt) (value : String)
  | repeatedOption (o : Opt)
  | badTimeout (value : String) (e : NumberError)
  | badShape (value : String) (e : Shape.TextError)
  | missingShapes
  deriving Repr

namespace UsageError

open Text.Terminal (styled)

/-- What is wrong, with what was given and what it was given for in a style. -/
def description : UsageError → String
  | unknownArgument argument => s!"unexpected argument '{styled argument}' found"
  | unknownCommand name => s!"unrecognized subcommand '{styled name}'"
  | missingValue o => s!"a value is required for '{styled o.shown}' but none was supplied"
  | unexpectedValue o value =>
    s!"unexpected value '{styled value}' for '{styled o.shown}' found; no more were expected"
  | repeatedOption o => s!"the argument '{styled o.shown}' cannot be used multiple times"
  | badTimeout value e =>
    s!"invalid value '{styled value}' for '{styled Opt.timeout.shown}': {e.message}"
  | badShape value e => s!"invalid value '{styled value}' for '{styled shapesShown}': {e.message}"
  | missingShapes =>
    s!"the following required arguments were not provided:\n  {styled shapesShown}"

/-- What is told of the error. It goes to a file, so that no style shows, nor any other sequence for
a terminal in what was given. -/
def report (e : UsageError) : String :=
  let help := styled s!"--{Opt.help.long}"
  Text.Terminal.shown
    (styled "error:" ++ s!" {e.description}\n\nFor more information, try '{help}'.\n")

end UsageError

/-- Reading ends before the end of the arguments: with a help text, the version, or an error. -/
inductive Interruption where
  | help (scope : Scope)
  | version
  | wrong (e : UsageError)
  deriving Repr

def wrong (e : UsageError) : Except Interruption α := .error (.wrong e)

/-- The options and shapes of one scope so far. -/
structure Given where
  config : Option String := none
  printConfig : Bool := false
  /-- How often it is asked to log more, if it is. -/
  verbose : Option Nat := none
  listen : Option String := none
  endpoint : Option String := none
  multi : Bool := false
  timeout : Option (Fin UInt64.size) := none
  shapes : List Shape := []
  deriving Repr

/-- What was met and is not looked at yet. -/
inductive Pending where
  | nothing
  | option (o : Opt) (value : Option String)
  | shapes (texts : List String)
  deriving Repr

/-- An option waits for its value. -/
def Pending.awaitsValue : Pending → Bool
  | option _ none => true
  | _ => false

/-- The number that digits write, up to the first one that makes it too large. -/
def milliseconds (n : Nat) : List Char → Except NumberError (Fin UInt64.size)
  | [] => if h : n < UInt64.size then .ok ⟨n, h⟩ else .error .tooLarge
  | c :: cs =>
    match Text.digit? 10 c with
    | none => .error .notDigit
    | some d => if 10 * n + d < UInt64.size then milliseconds (10 * n + d) cs else .error .tooLarge

/-- Reads digits with an optional plus. -/
def readMilliseconds (text : String) : Except NumberError (Fin UInt64.size) :=
  match text.toList with
  | [] => .error .empty
  | ['+'] => .error .notDigit
  | '+' :: cs => milliseconds 0 cs
  | cs => milliseconds 0 cs

namespace Given

/-- The option was given before. -/
def has (g : Given) : Opt → Bool
  | .config => g.config.isSome
  | .printConfig => g.printConfig
  | .listen => g.listen.isSome
  | .endpoint => g.endpoint.isSome
  | .multi => g.multi
  | .timeout => g.timeout.isSome
  | _ => false

/-- Takes an option with its value. -/
def setValue (g : Given) (o : Opt) (value : String) : Except Interruption Given :=
  if g.has o then wrong (.repeatedOption o)
  else match o with
    | .config =>
      if value.isEmpty then wrong (.missingValue o) else .ok { g with config := some value }
    | .listen => .ok { g with listen := some value }
    | .endpoint => .ok { g with endpoint := some value }
    | .timeout =>
      match readMilliseconds value with
      | .ok n => .ok { g with timeout := some n }
      | .error e => wrong (.badTimeout value e)
    | _ => .ok g

/-- Takes an option without a value. -/
def setFlag (g : Given) (scope : Scope) (o : Opt) : Except Interruption Given :=
  if g.has o then wrong (.repeatedOption o)
  else match o with
    | .help => .error (.help scope)
    | .version => .error .version
    | .verbose => .ok { g with verbose := some (g.verbose.getD 0 + 1) }
    | .printConfig => .ok { g with printConfig := true }
    | .multi => .ok { g with multi := true }
    | _ => .ok g

def addShape (g : Given) (text : String) : Except Interruption Given :=
  match Shape.ofText text with
  | .ok shape => .ok { g with shapes := g.shapes ++ [shape] }
  | .error e => wrong (.badShape text e)

/-- Looks at what is pending. -/
def settle (g : Given) : Pending → Except Interruption Given
  | .nothing => .ok g
  | .option o none => wrong (.missingValue o)
  | .option o (some value) => g.setValue o value
  | .shapes texts => texts.foldlM addShape g

end Given

/-- One scope while its arguments are read. -/
structure Reading where
  given : Given := {}
  pending : Pending := .nothing
  deriving Repr

namespace Reading

def settled (r : Reading) : Except Interruption Given := r.given.settle r.pending

/-- Meets an option, perhaps with a value attached. -/
def meet (r : Reading) (scope : Scope) (o : Opt) (attached : Option String) :
    Except Interruption Reading := do
  if o.takesValue then
    let given ← r.settled
    match attached with
    | some value => return ⟨← given.setValue o value, .nothing⟩
    | none => return ⟨given, .option o none⟩
  else
    if let some value := attached then wrong (.unexpectedValue o value)
    return ⟨← (← r.settled).setFlag scope o, .nothing⟩

/-- Reads an argument after two hyphens. -/
def long (r : Reading) (scope : Scope) (body : List Char) : Except Interruption Reading :=
  let (name, attached) := match Text.cut? '=' body with
    | some (name, value) => (String.ofList name, some (String.ofList value))
    | none => (String.ofList body, none)
  match scope.options.find? fun o => o.long = name with
  | some o => r.meet scope o attached
  | none => wrong (.unknownArgument s!"--{name}")

/-- Reads the letters after one hyphen. A letter of an option with a value takes the rest as its
value, of which an equals sign in front is no part. -/
def short (scope : Scope) (r : Reading) : List Char → Except Interruption Reading
  | [] => .ok r
  | c :: cs =>
    match scope.options.find? fun o => o.short? = some c with
    | none => wrong (.unknownArgument s!"-{c}")
    | some o => do
      if o.takesValue then
        let attached := match cs with
          | [] => none
          | '=' :: value => some (String.ofList value)
          | value => some (String.ofList value)
        r.meet scope o attached
      else short scope (← r.meet scope o none) cs

/-- Reads an argument that is no option. Only one scope has a use for it. -/
def positional (r : Reading) (scope : Scope) (afterHyphens : Bool) (argument : String) :
    Except Interruption Reading :=
  match scope, r.pending with
  | .calculate, .shapes texts => .ok { r with pending := .shapes (texts ++ [argument]) }
  | .calculate, _ => do return ⟨← r.settled, .shapes [argument]⟩
  | .program, _ =>
    if afterHyphens ∧ (Scope.ofName? argument).isSome then wrong (.unknownArgument argument)
    else wrong (.unknownCommand argument)
  | _, _ => wrong (.unknownArgument argument)

end Reading

/-- What one scope was given, and the command in it with the arguments that follow, if there is
one. -/
structure ScopeLine where
  reading : Reading
  command : Option (Scope × List String)
  deriving Repr

/-- Reads the arguments of a scope up to a command or to the end. After two hyphens alone no
argument is an option or a command. -/
def readScope (scope : Scope) (afterHyphens : Bool) (r : Reading) :
    List String → Except Interruption ScopeLine
  | [] => .ok ⟨r, none⟩
  | argument :: rest =>
    if afterHyphens then do
      readScope scope true (← r.positional scope true argument) rest
    else
      match if scope = .program ∧ !r.pending.awaitsValue then Scope.ofName? argument else none with
      | some command => .ok ⟨r, some (command, rest)⟩
      | none =>
        match argument.toList with
        | ['-', '-'] => readScope scope true r rest
        | '-' :: '-' :: body => do readScope scope false (← r.long scope body) rest
        | '-' :: c :: cs => do readScope scope false (← r.short scope (c :: cs)) rest
        | _ =>
          match r.pending with
          | .option o none =>
            readScope scope false { r with pending := .option o (some argument) } rest
          | _ => do readScope scope false (← r.positional scope false argument) rest

/-- The scope whose help is asked for by names of commands. -/
def helpScope (scope : Scope) : List String → Except Interruption Scope
  | [] => .ok scope
  | name :: names =>
    match if scope = .program then Scope.ofName? name else none with
    | some scope => helpScope scope names
    | none => wrong (.unknownCommand name)

/-- What a command does, with the options that it alone has. -/
inductive Action where
  | run (listen : Option String)
  | check
  | calculate (endpoint : String) (multi : Bool) (timeout : Fin UInt64.size) (shapes : List Shape)
  deriving Repr

/-- A command line that is in order. -/
structure Invocation where
  config : Option String
  printConfig : Bool
  verbose : Nat
  action : Option Action
  deriving Repr

/-- The milliseconds of the time limit that is not given. -/
def defaultTimeout : Fin UInt64.size := ⟨1000, by decide⟩

/-- Reads the arguments of a command. -/
def readCommand (scope : Scope) (arguments : List String) :
    Except Interruption (Given × Option Action) := do
  if scope = .help then throw (.help (← helpScope .program arguments))
  let given ← (← readScope scope false {} arguments).reading.settled
  match scope with
  | .run => return (given, some (.run given.listen))
  | .check => return (given, some .check)
  | .calculate =>
    if given.shapes.isEmpty then wrong .missingShapes
    let endpoint := (given.endpoint <|> Opt.endpoint.default?).getD ""
    return (given, some (.calculate endpoint given.multi (given.timeout.getD defaultTimeout)
      given.shapes))
  | _ => return (given, none)

/-- Reads the arguments of the program. What a command is given of the options that may stand
before or after it takes the place of what stands before. -/
def Invocation.ofArguments (arguments : List String) : Except Interruption Invocation := do
  let line ← readScope .program false {} arguments
  let (inner, action) ← match line.command with
    | some (scope, rest) => readCommand scope rest
    | none => pure ({}, none)
  let outer ← line.reading.settled
  return {
    config := inner.config <|> outer.config
    printConfig := outer.printConfig
    verbose := (inner.verbose <|> outer.verbose).getD 0
    action }

end Planimeter.Command
