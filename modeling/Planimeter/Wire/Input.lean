/-!
# Input of the wire format

A message is read from bytes that know how many they are, so that asking for what is left costs
nothing. A reader returns what it read with the rest, and says in the type that the rest is shorter;
that is what ends the loops over the fields of a message.
-/
namespace Planimeter.Wire

structure Input where
  bytes : List UInt8
  size : Nat
  size_eq : size = bytes.length

namespace Input

def ofList (bytes : List UInt8) : Input := ⟨bytes, bytes.length, rfl⟩

/-- What may be left of an input after a reader that may take nothing. -/
abbrev Rest (i : Input) := { r : Input // r.size ≤ i.size }

/-- What may be left of an input after a reader that takes at least a byte. -/
abbrev Shorter (i : Input) := { r : Input // r.size < i.size }

/-- The first byte and the rest. -/
def next? (i : Input) : Option (UInt8 × i.Shorter) :=
  match h : i.bytes with
  | [] => none
  | b :: bs => some (b, ⟨⟨bs, i.size - 1, by simp [i.size_eq, h]⟩, by simp [i.size_eq, h]⟩)

/-- The first `n` bytes and the rest, if there are as many. -/
def take? (n : Nat) (i : Input) : Option (List UInt8 × { r : Input // r.size + n = i.size }) :=
  if h : n ≤ i.size then
    some (i.bytes.take n,
      ⟨⟨i.bytes.drop n, i.size - n, by simp [i.size_eq]⟩, Nat.sub_add_cancel h⟩)
  else none

/-- A shorter rest is a rest. -/
def Shorter.toRest {i : Input} (r : i.Shorter) : i.Rest := ⟨r.1, Nat.le_of_lt r.2⟩

/-- What is left of a rest is left of the whole. -/
def Rest.trans {i : Input} (r : i.Rest) (s : r.1.Rest) : i.Rest := ⟨s.1, Nat.le_trans s.2 r.2⟩

end Input

end Planimeter.Wire
