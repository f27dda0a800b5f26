import Planimeter.Yaml.Event
import Planimeter.Yaml.Token.Scan
/-!
# Documents

The events of the first document of a text, with every alias resolved. An anchor is numbered by the
count of different names before it, and an alias stands for the node that had the number of its
anchor last.
-/
namespace Planimeter.Yaml

/-- Why the events of a document end early. -/
inductive Break where
  | malformed (e : SyntaxError)
  | unknownAnchor (m : Mark)
  deriving DecidableEq, Repr

/-- The events of a document without its end. -/
structure Document where
  events : List (PlacedEvent Nat)
  /-- The number of events before the node with a number. -/
  places : List (Nat × Nat)
  ended : Option Break
  deriving Repr

namespace Document

/-- The anchors so far: the numbers of names, and the places of numbers, the last one first. -/
structure Anchors where
  numbers : List (List Char × Nat) := []
  places : List (Nat × Nat) := []

/-- Notes the anchor, if there is one, of a node with `count` events before it. -/
def Anchors.note (p : Properties) (count : Nat) (a : Anchors) : Anchors :=
  match p.anchor with
  | none => a
  | some name =>
    let number := (a.numbers.map Prod.fst).eraseDups.length
    ⟨(name, number) :: a.numbers, (number, count) :: a.places⟩

/-- Resolves the aliases up to the end of the document. `events` are those so far, backwards. -/
def resolve (failure : Option SyntaxError) (a : Anchors) (events : List (PlacedEvent Nat)) :
    List (PlacedEvent (List Char)) → Document × List (PlacedEvent (List Char))
  | [] => (⟨events.reverse, a.places, failure.map .malformed⟩, [])
  | (event, mark) :: rest =>
    let add (p : Properties) (event : Event Nat) :=
      resolve failure (a.note p events.length) ((event, mark) :: events) rest
    match event with
    | .documentEnd => (⟨events.reverse, a.places, none⟩, rest)
    | .aliasOf name =>
      match a.numbers.lookup name with
      | some number => add {} (.aliasOf number)
      | none => (⟨events.reverse, a.places, some (.unknownAnchor mark)⟩, rest)
    | .scalar p text style => add p (.scalar p text style)
    | .sequenceStart p => add p (.sequenceStart p)
    | .sequenceEnd => add {} .sequenceEnd
    | .mappingStart p => add p (.mappingStart p)
    | .mappingEnd => add {} .mappingEnd

/-- The events from the node with a number on. -/
def node (d : Document) (number : Nat) : List (PlacedEvent Nat) :=
  d.events.drop ((d.places.lookup number).getD d.events.length)

end Document

/-- The first document of a text, and whether anything follows it, be it in error. -/
structure Stream where
  first : Document
  hasMore : Bool
  deriving Repr

def Stream.ofSource (source : Source) : Stream :=
  let (lexemes, failure) := tokens source
  let (events, failure) := Event.ofTokens lexemes failure
  let (first, rest) := Document.resolve failure {} [] events
  ⟨first, !rest.isEmpty || (first.ended.isNone && failure.isSome)⟩

end Planimeter.Yaml
