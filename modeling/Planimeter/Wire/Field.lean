import Planimeter.Wire.Varint
/-!
# Fields of the wire format

A message is a sequence of fields, each a key and a payload. This file has the keys, the ways to
fail, the loop over the fields of a message that ends where its announced length does, and the
skipping of fields that a message does not know. A submessage is read from the same input as the
message around it: a field that runs past the end of its submessage is read first and refused then.
-/
namespace Planimeter.Wire

/-- How the payload of a field is laid out. -/
inductive WireType where
  | varint | fixed64 | delimited | startGroup | endGroup | fixed32
  deriving DecidableEq, Repr

namespace WireType

def ofNat? : Nat → Option WireType
  | 0 => some varint
  | 1 => some fixed64
  | 2 => some delimited
  | 3 => some startGroup
  | 4 => some endGroup
  | 5 => some fixed32
  | _ => none

def toNat : WireType → Nat
  | varint => 0
  | fixed64 => 1
  | delimited => 2
  | startGroup => 3
  | endGroup => 4
  | fixed32 => 5

def name : WireType → String
  | varint => "Varint"
  | fixed64 => "SixtyFourBit"
  | delimited => "LengthDelimited"
  | startGroup => "StartGroup"
  | endGroup => "EndGroup"
  | fixed32 => "ThirtyTwoBit"

end WireType

/-- Why bytes are no message. -/
inductive Cause where
  | invalidVarint
  | keyTooLarge (key : Nat)
  | unknownWireType (number : Nat)
  | fieldNumberZero
  | wireType (actual expected : WireType)
  | underflow
  | lengthExceeded
  | unexpectedEndGroup
  | tooDeep
  deriving DecidableEq, Repr

def Cause.message : Cause → String
  | .invalidVarint => "invalid varint"
  | .keyTooLarge key => s!"invalid key value: {key}"
  | .unknownWireType n => s!"invalid wire type value: {n}"
  | .fieldNumberZero => "invalid tag value: 0"
  | .wireType actual expected => s!"invalid wire type: {actual.name} (expected {expected.name})"
  | .underflow => "buffer underflow"
  | .lengthExceeded => "delimited length exceeded"
  | .unexpectedEndGroup => "unexpected end group tag"
  | .tooDeep => "recursion limit reached"

/-- A failure with the known fields that it passed through, innermost first. -/
structure Failure where
  path : List String
  cause : Cause
  deriving DecidableEq, Repr

def Failure.message (f : Failure) : String :=
  "failed to decode Protobuf message: " ++ String.join (f.path.map (· ++ ": ")) ++ f.cause.message

def fail (cause : Cause) : Except Failure α := .error ⟨[], cause⟩

/-- Notes that a failure passed through a field of a message. -/
def within (message field : String) (result : Except Failure α) : Except Failure α :=
  result.mapError fun f => { f with path := f.path ++ [message ++ "." ++ field] }

/-- The key of a field. -/
structure Key where
  field : Nat
  type : WireType
  deriving DecidableEq, Repr

def Key.encode (k : Key) : List UInt8 := encodeVarint (8 * k.field + k.type.toNat)

def readKey (i : Input) : Except Failure (Key × i.Shorter) :=
  match readVarint i with
  | none => fail .invalidVarint
  | some (key, rest) =>
    if UInt32.size ≤ key then fail (.keyTooLarge key)
    else match WireType.ofNat? (key % 8) with
      | none => fail (.unknownWireType (key % 8))
      | some type => if key / 8 = 0 then fail .fieldNumberZero else .ok (⟨key / 8, type⟩, rest)

/-- Repeats a step until `limit` bytes are left. -/
def mergeUntil (limit : Nat) (step : α → (i : Input) → Except Failure (α × i.Shorter))
    (a : α) (start : Input) : Except Failure (α × start.Rest) :=
  go a start (Nat.le_refl _)
where
  go (a : α) (i : Input) (h : i.size ≤ start.size) : Except Failure (α × start.Rest) :=
    if i.size ≤ limit then
      if i.size = limit then .ok (a, ⟨i, h⟩) else fail .lengthExceeded
    else match step a i with
      | .error e => .error e
      | .ok (a, ⟨r, hr⟩) => go a r (Nat.le_trans (Nat.le_of_lt hr) h)
  termination_by i.size

/-- Repeats a step over the bytes that a leading length announces. -/
def mergeDelimited (step : α → (i : Input) → Except Failure (α × i.Shorter))
    (a : α) (i : Input) : Except Failure (α × i.Rest) :=
  match readVarint i with
  | none => fail .invalidVarint
  | some (length, body) =>
    if body.1.size < length then fail .underflow
    else (mergeUntil (body.1.size - length) step a body.1).map
      fun (a, rest) => (a, body.toRest.trans rest)

/-- A step that reads a key and then leaves the payload to `merge`. -/
def fieldStep (merge : α → Key → (i : Input) → Except Failure (α × i.Rest))
    (a : α) (i : Input) : Except Failure (α × i.Shorter) :=
  match readKey i with
  | .error e => .error e
  | .ok (key, ⟨payload, h⟩) =>
    match merge a key payload with
    | .error e => .error e
    | .ok (a, ⟨r, hr⟩) => .ok (a, ⟨r, Nat.lt_of_le_of_lt hr h⟩)

/-- Passes over a number of bytes. -/
def skipBytes (n : Nat) (i : Input) : Except Failure i.Rest :=
  match i.take? n with
  | none => fail .underflow
  | some (_, ⟨r, h⟩) => .ok ⟨r, by omega⟩

/-- Passes over a payload that is no group. -/
def skipPayload (type : WireType) (i : Input) : Except Failure i.Rest :=
  match type with
  | .varint =>
    match readVarint i with
    | none => fail .invalidVarint
    | some (_, rest) => .ok rest.toRest
  | .fixed64 => skipBytes 8 i
  | .fixed32 => skipBytes 4 i
  | .delimited =>
    match readVarint i with
    | none => fail .invalidVarint
    | some (length, body) => (skipBytes length body.1).map body.toRest.trans
  | .startGroup | .endGroup => fail .unexpectedEndGroup

/-- Passes over the fields of the open groups, innermost first, until all are closed. A field may
lie inside fewer than `budget` groups. -/
def skipGroups (budget : Nat) (start : Input) (groups : List Nat) (i : Input)
    (h : i.size ≤ start.size) : Except Failure start.Rest :=
  match groups with
  | [] => .ok ⟨i, h⟩
  | group :: outer =>
    match readKey i with
    | .error e => .error e
    | .ok (key, ⟨r, hr⟩) =>
      have hle : r.size ≤ start.size := Nat.le_trans (Nat.le_of_lt hr) h
      if key.type = .endGroup then
        if key.field = group then skipGroups budget start outer r hle
        else fail .unexpectedEndGroup
      else if budget ≤ groups.length then fail .tooDeep
      else if key.type = .startGroup then skipGroups budget start (key.field :: groups) r hle
      else match skipPayload key.type r with
        | .error e => .error e
        | .ok ⟨s, hs⟩ => skipGroups budget start groups s (Nat.le_trans hs hle)
termination_by i.size

/-- Passes over the payload of a field that is not known. -/
def skipField (budget : Nat) (key : Key) (i : Input) : Except Failure i.Rest :=
  if budget = 0 then fail .tooDeep
  else if key.type = .startGroup then skipGroups budget i [key.field] i (Nat.le_refl _)
  else skipPayload key.type i

/-- Refuses a known field whose payload is laid out otherwise than it has to be. -/
def expectType (actual expected : WireType) (next : Except Failure α) : Except Failure α :=
  if actual = expected then next else fail (.wireType actual expected)

end Planimeter.Wire
