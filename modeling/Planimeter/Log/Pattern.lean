import Planimeter.Text.Blank
import Planimeter.Text.Digit
import Planimeter.Text.Letter
/-!
# Patterns

A pattern says what the value of a field must look like: characters and sets of characters one after
the other, repeated, grouped, and as alternatives. Only whether a text is a pattern is decided here,
by reading it from left to right with the open groups on a stack. Braces cannot be closed in a field
of a directive, so that all forms with braces are left out.

A pattern is refused as well if it could match less than whole characters, if it asks for the
boundaries of words outside ASCII, or if it is nested too deeply.
-/
namespace Planimeter.Pattern

/-- What flags in a pattern switch. -/
structure Modes where
  /-- Characters are those of all scripts. -/
  unicode : Bool := true
  /-- Blanks, and comments from a number sign to the end of the line, do not count. -/
  spaced : Bool := false
  deriving DecidableEq, Repr

/-- Skips blanks and comments. -/
def skipComments (inComment : Bool) : List Char → List Char
  | [] => []
  | c :: cs =>
    if inComment then skipComments (c != '\n') cs
    else if Text.isBlank c then skipComments false cs
    else if c = '#' then skipComments true cs
    else c :: cs

def Modes.skip (m : Modes) (cs : List Char) : List Char :=
  if m.spaced then skipComments false cs else cs

/-- What follows, which must not be the end. -/
def Modes.skip? (m : Modes) (cs : List Char) : Option (List Char) :=
  match m.skip cs with
  | [] => none
  | cs => some cs

/-- The flags without those that have no effect on what is a pattern. -/
inductive Flag where
  | unicode
  | spaced
  | other (c : Char)
  deriving DecidableEq, Repr

def Flag.ofChar? (c : Char) : Option Flag :=
  if c = 'u' then some .unicode
  else if c = 'x' then some .spaced
  else if c = 'i' ∨ c = 'm' ∨ c = 's' ∨ c = 'U' ∨ c = 'R' then some (.other c)
  else none

def Modes.set (m : Modes) (on : Bool) : Flag → Modes
  | .unicode => { m with unicode := on }
  | .spaced => { m with spaced := on }
  | .other _ => m

/-- Flags so far: those given, and whether a minus was met, which switches off what follows. -/
structure FlagList where
  modes : Modes
  given : List Flag := []
  isNegated : Bool := false
  /-- The last character was the minus. -/
  isDangling : Bool := false
  deriving Repr

/-- Reads flags up to a colon or a closing parenthesis; tells which of the two it is, and whether
there was anything before it. -/
def flags (f : FlagList) : List Char → Option (Modes × Bool × Bool × List Char)
  | [] => none
  | c :: cs =>
    if c = ':' ∨ c = ')' then
      if f.isDangling then none
      else some (f.modes, c == ':', f.isNegated || !f.given.isEmpty, cs)
    else if c = '-' then
      if f.isNegated then none else flags { f with isNegated := true, isDangling := true } cs
    else
      match Flag.ofChar? c with
      | none => none
      | some flag =>
        if flag ∈ f.given then none
        else flags { f with
          modes := f.modes.set (!f.isNegated) flag, given := flag :: f.given
          isDangling := false } cs

/-- What a backslash and the characters after it stand for. -/
inductive Escape where
  /-- A character; one that is given by two digits may be an octet. -/
  | literal (c : Char) (isOctet : Bool)
  /-- A place that all scripts have: a start or an end. -/
  | edge
  | wordBoundary
  /-- The digits, blanks or word characters, or all others. -/
  | family (isNegated : Bool)
  /-- A general category. -/
  | category
  deriving DecidableEq, Repr

/-- The characters that have a meaning in some place. -/
def isMeta (c : Char) : Bool := "\\.+*?()|[]\x7b\x7d^$#&-~".toList.contains c

/-- The ASCII characters that a backslash makes stand for themselves. -/
def isEscapable (c : Char) : Bool :=
  isMeta c || (c.toNat < 0x80 && !c.isAlphanum && c != '<' && c != '>')

/-- The character that a letter or another character stands for after a backslash. -/
def character? : Char → Option Char
  | 'a' => some '\x07'
  | 'f' => some '\x0c'
  | 't' => some '\t'
  | 'n' => some '\n'
  | 'r' => some '\r'
  | 'v' => some '\x0b'
  | c => if isEscapable c then some c else none

/-- Reads `count` hexadecimal digits, between which blanks may not count. -/
def digits (m : Modes) (n : Nat) : (count : Nat) → List Char → Option (Nat × List Char)
  | 0, cs => some (n, cs)
  | count + 1, cs => do
    let cs ← m.skip? cs
    let d ← cs.head?.bind Text.hexDigit?
    digits m (16 * n + d) count cs.tail

/-- Reads a character by its number. -/
def number (m : Modes) (count : Nat) (cs : List Char) : Option (Escape × List Char) := do
  let (n, cs) ← digits m 0 count cs
  if h : n.isValidChar then some (.literal (.ofNatAux n h) (count == 2), m.skip cs) else none

/-- Reads the letter of a general category. -/
def category (m : Modes) (cs : List Char) : Option (Escape × List Char) := do
  let cs ← m.skip? cs
  let c ← cs.head?
  if "clmnpsz".toList.contains c.toLower then some (.category, m.skip cs.tail) else none

/-- Reads what follows a backslash. -/
def escape (m : Modes) : List Char → Option (Escape × List Char)
  | [] => none
  | c :: cs =>
    match c with
    | 'x' => number m 2 cs
    | 'u' => number m 4 cs
    | 'U' => number m 8 cs
    | 'p' | 'P' => category m cs
    | 'd' | 's' | 'w' => some (.family false, cs)
    | 'D' | 'S' | 'W' => some (.family true, cs)
    | 'A' | 'z' => some (.edge, cs)
    | 'b' | 'B' | '<' | '>' => some (.wordBoundary, cs)
    | _ => (character? c).map fun c => (.literal c false, cs)

/-- An escape may stand outside sets: without other scripts than ASCII there are no categories and
nothing that is less than a character. -/
def Escape.isAllowed (m : Modes) : Escape → Bool
  | literal c isOctet => m.unicode || !isOctet || c.toNat < 0x80
  | edge => true
  | wordBoundary => !m.unicode
  | family isNegated => m.unicode || !isNegated
  | category => m.unicode

/-- An escape may be an element of a set. -/
def Escape.isElement (m : Modes) : Escape → Bool
  | literal c _ => m.unicode || c.toNat < 0x80
  | family isNegated => m.unicode || !isNegated
  | category => m.unicode
  | _ => false

/-- The height of several parts together, each of a given height; a part alone is just itself. -/
def together : List Nat → Nat
  | [] => 0
  | [height] => height
  | heights => heights.foldl max 0 + 1

/-- The greatest height of a pattern. -/
def heightLimit : Nat := 250

/-- A set that is open: the height of what stands before the last operator, if there was one, and
the heights of the elements since. -/
structure OpenSet where
  left : Option Nat := none
  elements : List Nat := []
  deriving Repr

namespace OpenSet

def add (height : Nat) (s : OpenSet) : OpenSet := { s with elements := height :: s.elements }

def height (s : OpenSet) : Nat :=
  match s.left with
  | none => together s.elements
  | some left => max left (together s.elements) + 1

/-- The set after an operator. -/
def operate (s : OpenSet) : OpenSet := ⟨some s.height, []⟩

end OpenSet

/-- The names of sets of ASCII characters. -/
def setNames : List String :=
  ["alnum", "alpha", "ascii", "blank", "cntrl", "digit", "graph", "lower", "print", "punct",
    "space", "upper", "word", "xdigit"]

/-- Reads the name of a set between colons, after a bracket; tells whether all other characters are
meant. -/
def namedSet? : List Char → Option (Bool × List Char)
  | ':' :: cs =>
    let isNegated := cs.head? == some '^'
    let cs := if isNegated then cs.tail else cs
    match Text.cut? ':' cs with
    | some (name, ']' :: rest) =>
      if setNames.contains (String.ofList name) then some (isNegated, rest) else none
    | _ => none
  | _ => none

/-- Reads the hyphens that a set may begin with. -/
def leadingHyphens (m : Modes) (s : OpenSet) : Nat → List Char → Option (OpenSet × List Char)
  | steps + 1, '-' :: cs => do leadingHyphens m (s.add 0) steps (← m.skip? cs)
  | _, cs => some (s, cs)

/-- Reads the beginning of a set after its bracket. A closing bracket there is an element. -/
def openSet (m : Modes) (cs : List Char) : Option (OpenSet × List Char) := do
  let cs ← m.skip? cs
  let cs ← if cs.head? = some '^' then (if m.unicode then m.skip? cs.tail else none) else some cs
  let (s, cs) ← leadingHyphens m {} (cs.length + 1) cs
  match cs with
  | ']' :: rest => if s.elements.isEmpty then return (s.add 0, ← m.skip? rest) else return (s, cs)
  | _ => return (s, cs)

/-- Reads a character or an escape in a set. -/
def element (m : Modes) : List Char → Option (Escape × List Char)
  | [] => none
  | '\\' :: cs => escape m cs
  | c :: cs => some (.literal c false, cs)

/-- The character behind a hyphen that tells whether the hyphen stands for a range. -/
def afterHyphen (m : Modes) (cs : List Char) : Option Char :=
  if m.spaced then
    match cs.dropWhile Text.isBlank with
    | '#' :: cs => (cs.dropWhile Text.isBlank).head?
    | cs => cs.head?
  else cs.head?

/-- Reads an element or a range. -/
def range (m : Modes) (cs : List Char) : Option (List Char) := do
  let (first, cs) ← element m cs
  let cs ← m.skip? cs
  let after := afterHyphen m cs.tail
  if cs.head? ≠ some '-' ∨ after = some ']' ∨ after = some '-' then
    if first.isElement m then some cs else none
  else
    let (last, cs) ← element m (← m.skip? cs.tail)
    match first, last with
    | .literal a _, .literal b _ =>
      if first.isElement m && last.isElement m && a ≤ b then some cs else none
    | _, _ => none

/-- Reads a set to its end. `outer` are the sets around it, the innermost first; the result is the
height of the outermost. -/
def readSet (m : Modes) (s : OpenSet) (outer : List OpenSet) :
    Nat → List Char → Option (Nat × List Char)
  | 0, _ => none
  | steps + 1, cs => do
    match m.skip cs with
    | [] => none
    | '[' :: cs =>
      match namedSet? cs with
      | some (isNegated, rest) =>
        if isNegated && !m.unicode then none else readSet m (s.add 0) outer steps rest
      | none =>
        let (inner, rest) ← openSet m cs
        readSet m inner (s :: outer) steps rest
    | ']' :: cs =>
      match outer with
      | [] => return (s.height + 1, cs)
      | around :: outer => readSet m (around.add (s.height + 1)) outer steps cs
    | '&' :: '&' :: cs => readSet m s.operate outer steps cs
    | '-' :: '-' :: cs => readSet m s.operate outer steps cs
    | '~' :: '~' :: cs => readSet m s.operate outer steps cs
    | cs => readSet m (s.add 0) outer steps (← range m cs)

/-- A part of a sequence. -/
structure Part where
  height : Nat
  /-- An operator for repetition may follow. -/
  isRepeatable : Bool := true
  deriving Repr

/-- A group that is open, or the whole pattern. -/
structure Group where
  /-- The heights of the alternatives before the last. -/
  alternatives : List Nat := []
  /-- The parts of the last alternative, backwards. -/
  parts : List Part := []
  modes : Modes := {}
  deriving Repr

namespace Group

def add (p : Part) (g : Group) : Group := { g with parts := p :: g.parts }

def alternative (g : Group) : Nat := together (g.parts.map Part.height)

def height (g : Group) : Nat := together (g.alternative :: g.alternatives)

end Group

/-- A pattern that is partly read. -/
structure State where
  group : Group := {}
  /-- The groups around the innermost open one. -/
  outer : List Group := []
  /-- The names of groups so far. -/
  names : List (List Char) := []
  rest : List Char
  deriving Repr

namespace State

def goOn (rest : List Char) (s : State) : State := { s with rest }

/-- Adds a part and goes on behind it. -/
def take (p : Part) (rest : List Char) (s : State) : State :=
  { s with group := s.group.add p, rest }

/-- Repeats the last part. A question mark behind the operator belongs to it. -/
def repetition (s : State) (rest : List Char) : Option State :=
  match s.group.parts with
  | [] => none
  | p :: parts =>
    if !p.isRepeatable then none
    else
      let rest := if rest.head? = some '?' then rest.tail else rest
      some { s with group := { s.group with parts := ⟨p.height + 1, true⟩ :: parts }, rest }

/-- Opens a group in which some modes hold. -/
def openGroup (modes : Modes) (rest : List Char) (s : State) : State :=
  { s with group := { modes }, outer := s.group :: s.outer, rest }

def closeGroup (s : State) (rest : List Char) : Option State :=
  match s.outer with
  | [] => none
  | around :: outer =>
    some { s with group := around.add ⟨s.group.height + 1, true⟩, outer, rest }

def isNameStart (c : Char) : Bool := c == '_' || Text.isAlphabetic c

def isNamePart (c : Char) : Bool :=
  c == '_' || c == '.' || c == '[' || c == ']' || Text.isAlphanumeric c

/-- Reads the name of a group up to the angle bracket that closes it. No two groups have one
name. -/
def namedGroup (s : State) (cs : List Char) : Option State := do
  let (name, rest) ← Text.cut? '>' cs
  match name with
  | [] => none
  | c :: cs =>
    if isNameStart c && cs.all isNamePart && !s.names.contains name then
      some ({ s with names := name :: s.names }.openGroup s.group.modes rest)
    else none

/-- Reads flags, for a group or for the rest of the one that they stand in. -/
def flagGroup (s : State) (cs : List Char) : Option State := do
  let (modes, isGroup, isGiven, rest) ← flags { modes := s.group.modes } cs
  if isGroup then some (s.openGroup modes rest)
  else if isGiven then
    some { s with group := { s.group with modes, parts := ⟨0, false⟩ :: s.group.parts }, rest }
  else none

/-- Reads what follows an opening parenthesis. A pattern does not look around. -/
def parenthesis (s : State) (cs : List Char) : Option State :=
  match s.group.modes.skip cs with
  | '?' :: '=' :: _ => none
  | '?' :: '!' :: _ => none
  | '?' :: '<' :: '=' :: _ => none
  | '?' :: '<' :: '!' :: _ => none
  | '?' :: 'P' :: '<' :: cs => s.namedGroup cs
  | '?' :: '<' :: cs => s.namedGroup cs
  | '?' :: cs => s.flagGroup cs
  | cs => some (s.openGroup s.group.modes cs)

/-- Reads what the character in front begins. -/
def step (s : State) (c : Char) (cs : List Char) : Option State :=
  let m := s.group.modes
  match c with
  | '(' => s.parenthesis cs
  | ')' => s.closeGroup cs
  | '|' =>
    let alternatives := s.group.alternative :: s.group.alternatives
    some { s with group := { s.group with alternatives, parts := [] }, rest := cs }
  | '[' => do
    let (inner, rest) ← openSet m cs
    let (height, rest) ← readSet m inner [] (rest.length + 1) rest
    some (s.take ⟨height, true⟩ rest)
  | '?' | '*' | '+' => s.repetition cs
  | '\x7b' => none
  | '\\' => do
    let (e, rest) ← escape m cs
    if e.isAllowed m then some (s.take ⟨0, true⟩ rest) else none
  | '.' => if m.unicode then some (s.take ⟨0, true⟩ cs) else none
  | _ => some (s.take ⟨0, true⟩ cs)

/-- Reads to the end. -/
def run : Nat → State → Option State
  | 0, _ => none
  | steps + 1, s =>
    match s.group.modes.skip s.rest with
    | [] => some s
    | c :: cs => do run steps (← s.step c cs)

end State

/-- The text is a pattern. -/
def isPattern (cs : List Char) : Bool :=
  match State.run (cs.length + 1) { rest := cs } with
  | some s => s.outer.isEmpty && s.group.height ≤ heightLimit
  | none => false

end Planimeter.Pattern
