/-!
# Log events

What the parts of the service report while they work. A computation that reports is a result
together with its events in order; nothing is printed before the end of a run.
-/
namespace Planimeter

/-- How urgent an event is, the most urgent first. -/
inductive Level where
  | error | warn | info | debug | trace
  deriving DecidableEq, Repr

namespace Level

def name : Level → String
  | error => "ERROR"
  | warn => "WARN"
  | info => "INFO"
  | debug => "DEBUG"
  | trace => "TRACE"

/-- The position in the order of urgency, from 1. -/
def rank : Level → Nat
  | error => 1
  | warn => 2
  | info => 3
  | debug => 4
  | trace => 5

end Level

/-- The value of a field: a count, a text that is shown bare, or a text that is shown in quotes. -/
inductive FieldValue where
  | count (n : Nat)
  | bare (text : String)
  | quoted (text : String)
  deriving DecidableEq, Repr

structure Event where
  level : Level
  target : String
  message : String
  fields : List (String × FieldValue)
  deriving DecidableEq, Repr

/-- A result and the events on the way to it. -/
structure Logged (α : Type) where
  events : List Event
  result : α
  deriving Repr

namespace Logged

def map (f : α → β) (l : Logged α) : Logged β := ⟨l.events, f l.result⟩

/-- The computation with an event before its own. -/
def after (event : Event) (l : Logged α) : Logged α := { l with events := event :: l.events }

/-- The computation with more events after its own. -/
def followedBy (l : Logged α) (events : List Event) : Logged α :=
  { l with events := l.events ++ events }

end Logged

end Planimeter
