import Planimeter.Binary.Decimal
import Planimeter.Log.Event
import Planimeter.Log.Pattern
import Planimeter.Text.Slice
/-!
# Filters

A filter is a list of directives. Each limits how urgent an event must be whose target begins in a
certain way and which has certain fields. Of the directives that apply to an event the most specific
decides, and of equally specific ones the last; an event to which none applies does not pass.
-/
namespace Planimeter

/-- The least urgent level that passes, if any does. -/
abbrev Limit := Option Level

namespace Limit

/-- A limit by its number or by its name in any case. -/
def ofText? (cs : List Char) : Option Limit :=
  let digits := match cs with
    | '+' :: cs => cs
    | cs => cs
  match Text.natural? 10 digits, Text.lower (String.ofList cs) with
  | some 0, _ => some none
  | some 1, _ => some (some .error)
  | some 2, _ => some (some .warn)
  | some 3, _ => some (some .info)
  | some 4, _ => some (some .debug)
  | some 5, _ => some (some .trace)
  | _, "off" => some none
  | _, "error" => some (some .error)
  | _, "warn" => some (some .warn)
  | _, "info" => some (some .info)
  | _, "debug" => some (some .debug)
  | _, "trace" => some (some .trace)
  | _, _ => none

/-- An event of a level passes. -/
def admits (limit : Limit) (level : Level) : Bool :=
  match limit with
  | none => false
  | some least => level.rank ≤ least.rank

end Limit

/-- A field that an event must have, perhaps with a value of a certain look. -/
structure FieldPattern where
  name : List Char
  value : Option (List Char)
  deriving DecidableEq, Repr

structure Directive where
  /-- What the target begins with. -/
  target : Option (List Char) := none
  /-- The span that the event must lie in. -/
  span : Option (List Char) := none
  fields : List FieldPattern := []
  limit : Limit := some .trace
  deriving DecidableEq, Repr

namespace Directive

/-- The characters that a directive may begin with besides letters, numbers and a bracket. -/
def isLeadingMark (c : Char) : Bool := c == '-' || c == ':' || c == '_'

/-- A limit after an equals sign; none means that everything passes. -/
def limitAfterEquals? (cs : List Char) : Option Limit :=
  if cs.isEmpty then some (some .trace) else Limit.ofText? cs

/-- What a value may have to look like: a number, or what a pattern says. -/
def isValueTest (cs : List Char) : Bool :=
  (Binary.ofText (String.ofList cs) : Except NumeralError Binary64).isOk || Pattern.isPattern cs

/-- A field, with a value behind an equals sign; what follows a second one does not count. -/
def fieldPattern? (cs : List Char) : Option FieldPattern :=
  match Text.cut? '=' cs with
  | none => some ⟨cs, none⟩
  | some (name, rest) =>
    let value := rest.takeWhile (· != '=')
    if isValueTest value then some ⟨name, some value⟩ else none

/-- A reader of a directive finds none, or stops at a fault. -/
abbrev Reading := OptionT (Except Fault)

/-- A place in a directive. The structure of a directive is that of its text without blanks around
it, but its parts are taken, by their positions there, from the text with the blanks. -/
structure Place where
  /-- The text with the blanks. -/
  whole : List Char
  position : Nat := 0
  /-- The text without the blanks, from the position on. -/
  rest : List Char

namespace Place

/-- The next place with a character that satisfies `p`, or the end. -/
def find (p : Char → Bool) (here : Place) : Place :=
  let passed := here.rest.takeWhile fun c => !p c
  { here with
    position := here.position + Text.byteCount passed, rest := here.rest.drop passed.length }

/-- The place behind an ASCII character. -/
def next (here : Place) : Place :=
  { here with position := here.position + 1, rest := here.rest.tail }

/-- The part between two places. -/
def upTo (here there : Place) : Reading (List Char) :=
  Text.slice here.position there.position here.whole

/-- The part from a place to the end. -/
def toEnd (here : Place) : Reading (List Char) := Text.sliceFrom here.position here.whole

/-- Reads a limit up to the end. -/
def limit (here : Place) : Reading Limit := do
  match limitAfterEquals? (← here.toEnd) with
  | some limit => return limit
  | none => failure

/-- Reads what follows a bracket that was closed. -/
def afterBracket (d : Directive) (here : Place) : Reading Directive := do
  match here.rest with
  | [] => return d
  | '=' :: _ => return { d with limit := ← here.next.limit }
  | _ => failure

/-- Reads a field up to the brace and the bracket that close it. -/
def fieldPart (d : Directive) (here : Place) : Reading Directive := do
  let there := here.find (· == '\x7d')
  if there.rest.isEmpty then failure
  let field ← here.upTo there
  if field.isEmpty then failure
  let some field := fieldPattern? field | failure
  let behind := there.next
  if behind.rest.head? ≠ some ']' then failure
  behind.next.afterBracket { d with fields := [field] }

/-- Reads a span up to the bracket that closes it, or up to a field. -/
def spanPart (d : Directive) (here : Place) : Reading Directive := do
  let there := here.find fun c => c == ']' || c == '\x7b'
  if there.rest.isEmpty then failure
  let span ← here.upTo there
  if there.rest.head? = some ']' then there.next.afterBracket { d with span := some span }
  else there.next.fieldPart { d with span := if span.isEmpty then none else some span }

/-- Reads a whole directive. -/
def directive (here : Place) : Reading Directive := do
  match here.rest with
  | [] => failure
  | '[' :: _ => here.next.spanPart {}
  | first :: _ =>
    if !(isLeadingMark first || Text.isAlphanumeric first) then failure
    let there := here.find fun c => c == '=' || c == '['
    match there.rest with
    | [] =>
      let whole ← here.toEnd
      match Limit.ofText? whole with
      | some limit => return { limit }
      | none => return { target := some whole }
    | c :: _ =>
      let d : Directive := { target := some (← here.upTo there) }
      if c = '=' then return { d with limit := ← there.next.limit }
      else there.next.spanPart d

end Place

/-- The directive that a text writes, if it is one. -/
def ofText? (piece : List Char) : Except Fault (Option Directive) :=
  (Place.directive { whole := piece, rest := Text.trim piece }).run

/-- The directive asks for no more than can be told from an event without its spans. -/
def isStatic (d : Directive) : Bool := d.span.isNone && d.fields.all fun f => f.value.isNone

/-- The directive applies to an event. -/
def applies (d : Directive) (e : Event) : Bool :=
  d.isStatic
    && d.target.all (fun lead => lead.isPrefixOf e.target.toList)
    && d.fields.all fun f =>
      f.name == "message".toList || e.fields.any fun (name, _) => name.toList == f.name

/-- One directive is at most as specific as another that applies to the same event: its target is
shorter, or is as long and there are fewer fields. -/
def isAtMost (d d' : Directive) : Bool :=
  let weight (d : Directive) := match d.target with
    | none => 0
    | some lead => lead.length + 1
  let names (d : Directive) := d.fields.map FieldPattern.name
  if weight d ≠ weight d' then weight d < weight d'
  else if d.fields.length ≠ d'.fields.length then d.fields.length < d'.fields.length
  else !(names d' < names d)

end Directive

structure Filter where
  directives : List Directive
  deriving DecidableEq, Repr

namespace Filter

/-- Only errors pass. -/
def errors : Filter := ⟨[{ limit := some .error }]⟩

/-- Reads directives with commas between them; empty ones do not count. A text without any lets
only errors pass. -/
def ofText? (text : String) : Except Fault (Option Filter) := OptionT.run do
  let pieces := (Text.pieces ',' text.toList).filter fun piece => !piece.isEmpty
  let directives ← pieces.mapM fun piece => OptionT.mk (Directive.ofText? piece)
  return if directives.isEmpty then errors else ⟨directives⟩

/-- The directive that decides about an event. -/
def decisive? (f : Filter) (e : Event) : Option Directive :=
  (f.directives.filter fun d => d.applies e).foldl (fun best d =>
    match best with
    | some b => if b.isAtMost d then some d else some b
    | none => some d) none

def passes (f : Filter) (e : Event) : Bool :=
  (f.decisive? e).any fun d => d.limit.admits e.level

/-- What passes if no source tells. -/
def default : Filter := ⟨[{ limit := some .info }]⟩

/-- The filter of the first text that is one: that of the environment, if there is one, that of the
configuration, and the default. -/
def choose (environment : Option String) (level : String) : Except Fault Filter := do
  let given ← match environment with
    | some text => ofText? text
    | none => pure none
  match given with
  | some f => return f
  | none => return (← ofText? level).getD default

end Filter

end Planimeter
