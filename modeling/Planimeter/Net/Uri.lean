/-!
# Uniform resource identifiers

The address of a service: an absolute identifier, a path, a bare authority, or `*`. Only what
decides whether an identifier is accepted and where it leads is kept. The rules look at bytes, so a
character outside ASCII counts as bytes from 128 upwards, which no authority admits and every path
does. What a client is told to connect to may name a socket of the file system as well, of which any
path is accepted.
-/
namespace Planimeter

structure Uri where
  scheme : Option String
  authority : String
  path : String
  deriving DecidableEq, Repr

namespace Uri

/-- Identifiers are at most this many bytes long. -/
def maxLength : Nat := 65534

def maxSchemeLength : Nat := 64

private def isOneOf (chars : String) (c : Char) : Bool := chars.toList.contains c

def isSchemeChar (c : Char) : Bool := c.isAlphanum || isOneOf "+-.~" c

/-- The characters of an authority, apart from `%`, which only user information may hold. -/
def isAuthorityChar (c : Char) : Bool := c.isAlphanum || isOneOf "!$&\x27()*+,-.:;=@[]_~" c

/-- What ends an authority. -/
def endsAuthority (c : Char) : Bool := isOneOf "/?#" c

/-- The characters that a path may hold as they are. -/
def isPathChar (c : Char) : Bool :=
  0x80 ≤ c.toNat || (0x20 < c.toNat && c.toNat < 0x7F && !isOneOf "#<>?\x60" c)

/-- The characters that a query may hold as they are. -/
def isQueryChar (c : Char) : Bool :=
  0x80 ≤ c.toNat || (0x20 < c.toNat && c.toNat < 0x7F && !isOneOf "\"#<>" c)

/-- What has been seen of an authority: the colons since the user information or the closing
bracket, the two brackets, whether a `%` is unaccounted for, and whether the last character was
`@`. -/
structure AuthorityState where
  colons : Nat := 0
  opened : Bool := false
  closed : Bool := false
  percent : Bool := false
  afterAt : Bool := false

/-- One more character of an authority, or `none` if it must not stand there. -/
def AuthorityState.next? (s : AuthorityState) (c : Char) : Option AuthorityState :=
  let s := { s with afterAt := c = '@' }
  if c = ':' then if 8 ≤ s.colons then none else some { s with colons := s.colons + 1 }
  else if c = '[' then if s.percent || s.opened then none else some { s with opened := true }
  else if c = ']' then
    if !s.opened || s.closed then none
    else some { s with closed := true, colons := 0, percent := false }
  else if c = '@' then some { s with colons := 0, percent := false }
  else if c = '%' then some { s with percent := true }
  else if isAuthorityChar c then some s
  else none

/-- Whether an authority may end here. -/
def AuthorityState.complete (s : AuthorityState) : Bool :=
  s.opened == s.closed && s.colons ≤ 1 && !s.percent && !s.afterAt

/-- Splits an authority, which may be empty, off a text. -/
def splitAuthority? (cs : List Char) : Option (List Char × List Char) := do
  let authority := cs.takeWhile fun c => !endsAuthority c
  let final ← authority.foldlM AuthorityState.next? {}
  if final.complete then some (authority, cs.drop authority.length) else none

/-- The length of a scheme at the head of a text, which `://` has to follow. A first letter is not
asked for. -/
def schemeLength? (cs : List Char) : Option Nat :=
  let scheme := cs.takeWhile isSchemeChar
  if (cs.drop scheme.length).take 3 = [':', '/', '/'] && 3 < cs.length then some scheme.length
  else none

/-- The path of a path with a query and a fragment. -/
def path? (cs : List Char) : Option (List Char) :=
  let path := cs.takeWhile isPathChar
  match cs.drop path.length with
  | [] => some path
  | '#' :: _ => some path
  | '?' :: query =>
    match query.dropWhile isQueryChar with
    | [] => some path
    | '#' :: _ => some path
    | _ => none
  | _ => none

private def absolute? (scheme : String) (cs : List Char) : Option Uri := do
  let (authority, rest) ← splitAuthority? cs
  if authority.isEmpty then none
  let path ← path? rest
  some ⟨some scheme, String.ofList authority, if path.isEmpty then "/" else String.ofList path⟩

def parse? (text : String) : Option Uri :=
  let cs := text.toList
  if text.isEmpty || maxLength < text.utf8ByteSize then none
  else if text = "*" then some ⟨none, "", "*"⟩
  else if cs.head? = some '/' then
    (path? cs).map fun path => ⟨none, "", String.ofList path⟩
  else match schemeLength? cs with
    | some n =>
      if maxSchemeLength < n then none
      else absolute? (String.ofList ((cs.take n).map Char.toLower)) (cs.drop (n + 3))
    | none =>
      match splitAuthority? cs with
      | some (authority, []) => some ⟨none, String.ofList authority, ""⟩
      | _ => none

/-- What a text names behind `unix:` or `unix://`. -/
def socketPath? (text : String) : Option String :=
  match text.toList with
  | 'u' :: 'n' :: 'i' :: 'x' :: ':' :: '/' :: '/' :: path => some (String.ofList path)
  | 'u' :: 'n' :: 'i' :: 'x' :: ':' :: path => some (String.ofList path)
  | _ => none

/-- Reads what a client is told to connect to, or says what is wrong with it. -/
def ofEndpoint (text : String) : Except String Uri :=
  match socketPath? text with
  | some path => .ok ⟨some "unix", "", path⟩
  | none => (parse? text).elim (.error "invalid URI") .ok

end Uri

end Planimeter
