import Planimeter.Net.SocketAddress
import Planimeter.Proofs.Binary.Plain
import Planimeter.Proofs.Text.Digits
import Planimeter.Proofs.Text.Pieces
/-!
# Reading written addresses

The readers of numbers, of addresses of version 4 and of groups, each in front of a text that begins
with what it reads. A number ends where no digit follows; a list of groups ends where a bracket, a
zone or two colons follow. That a group is not taken for the beginning of an embedded address of
version 4 is due to the point, which does not follow it.
-/
namespace Planimeter

namespace Text.Reader

variable {α β : Type} {r : Reader α} {f : α → Reader β} {cs rest : List Char} {a : α}

theorem bind_of_some (h : r cs = some (a, rest)) : (r >>= f) cs = f a rest := by
  change (r cs).bind _ = _
  rw [h]
  rfl

theorem bind_of_none (h : r cs = none) : (r >>= f) cs = none := by
  change (r cs).bind _ = _
  rw [h]
  rfl

@[simp] theorem char_cons (c : Char) (rest : List Char) : char c (c :: rest) = some ((), rest) := by
  rw [char, if_pos rfl]

theorem char_of_head (c : Char) (h : cs.head? ≠ some c) : char c cs = none := by
  cases cs with
  | nil => rfl
  | cons c' rest => rw [char, if_neg (by simpa using h)]

end Text.Reader

namespace SocketAddress

open Text (Reader digit?)

variable {base bound n : Nat} {most : Option Nat} {cs rest : List Char}

/-- No digit of the base follows. -/
def Stops (base : Nat) (rest : List Char) : Prop := ∀ c ∈ rest.head?, digit? base c = none

/-- A number is the value of all digits in front, if they are not too many and it is not too
large. -/
theorem number_eq (base bound : Nat) (most : Option Nat) (cs : List Char) :
    number base bound most cs =
      if most.any (· < (cs.takeWhile fun c => (digit? base c).isSome).length) then none
      else (Text.natural? base (cs.takeWhile fun c => (digit? base c).isSome)).bind fun n =>
        if h : n < bound then some (⟨n, h⟩, cs.dropWhile fun c => (digit? base c).isSome)
        else none := by
  have hdigits : Reader.takeWhile (fun c => (digit? base c).isSome) cs =
      some (cs.takeWhile fun c => (digit? base c).isSome,
        cs.dropWhile fun c => (digit? base c).isSome) := rfl
  rw [number, Reader.bind_of_some hdigits]
  split
  · rfl
  · cases Text.natural? base (cs.takeWhile fun c => (digit? base c).isSome) with
    | none => rfl
    | some n =>
      change (if h : n < bound then pure ⟨n, h⟩ else Reader.fail : Reader (Fin bound)) _ =
        if h : n < bound then some (⟨n, h⟩, _) else none
      split <;> rfl

theorem number_toDigits (hone : 1 < base) (hbase : base ≤ 16) (hn : n < bound)
    (hmost : ∀ m ∈ most, (Nat.toDigits base n).length ≤ m) (hrest : Stops base rest) :
    number base bound most (Nat.toDigits base n ++ rest) = some (⟨n, hn⟩, rest) := by
  have hstop : ∀ c ∈ rest.head?, (digit? base c).isSome = false := fun c hc => by simp [hrest c hc]
  obtain ⟨htake, hdrop⟩ :=
    Text.span_append (fun c => Text.digit?_of_mem_toDigits (n := n) hone hbase) hstop
  have hlength : most.any (· < (Nat.toDigits base n).length) = false := by
    cases most with
    | none => rfl
    | some m => simpa using hmost m rfl
  rw [number_eq, htake, hdrop, hlength, Text.natural?_toDigits hone hbase]
  simp [hn]

theorem rest_of_number {x : Fin bound} (h : number base bound most cs = some (x, rest)) :
    rest = cs.dropWhile fun c => (digit? base c).isSome := by
  rw [number_eq] at h
  split at h
  · contradiction
  · obtain ⟨n, -, hn⟩ := Option.bind_eq_some_iff.1 h
    split at hn
    · exact (Prod.mk.inj (Option.some.inj hn)).2.symm
    · contradiction

theorem number_of_stops (h : Stops base cs) : number base bound most cs = none := by
  have htake : (cs.takeWhile fun c => (digit? base c).isSome) = [] := by
    cases cs with
    | nil => rfl
    | cons c cs => simp [h c rfl]
  rw [number_eq, htake]
  simp [Text.natural?]

theorem byte_toDigits (x : Fin 256) (hrest : Stops 10 rest) :
    byte (Nat.toDigits 10 x ++ rest) = some (x, rest) := by
  have hthree : (Nat.toDigits 10 x).length ≤ 3 :=
    (Nat.length_toDigits_le_iff (by decide) (by decide)).2 (Nat.lt_of_lt_of_le x.isLt (by decide))
  have hnumber : number 10 256 (some 3) (Nat.toDigits 10 x ++ rest) = some (x, rest) :=
    number_toDigits (by decide) (by decide) x.isLt (by simpa using hthree) hrest
  rw [byte, hnumber]
  by_cases hzero : x.val = 0
  · simp [hzero]
  · have hhead : (Nat.toDigits 10 x ++ rest).head? ≠ some '0' := by
      rw [List.head?_append_of_ne_nil _ Nat.toDigits_ne_nil]
      exact Decimal.head?_toDigits_ne hzero
    simp only [Option.bind_eq_bind, Option.bind_some]
    exact if_neg fun h => hhead h.1

end SocketAddress

/-- The characters of an address of version 4. -/
@[simp] theorem Ipv4.toList_text (x : Ipv4) : x.text.toList = Nat.toDigits 10 x.a ++ '.' ::
    (Nat.toDigits 10 x.b ++ '.' :: (Nat.toDigits 10 x.c ++ '.' :: Nat.toDigits 10 x.d)) := by
  simp [text, toString]

namespace SocketAddress

open Text (Reader digit?)

variable {cs rest : List Char}

theorem stops_cons {base : Nat} {c : Char} (h : digit? base c = none) : Stops base (c :: rest) := by
  intro c' hc'
  rwa [← Option.some.inj hc']

theorem ipv4_text (x : Ipv4) (hrest : Stops 10 rest) :
    ipv4 (x.text.toList ++ rest) = some (x, rest) := by
  have hpoint (cs : List Char) : Stops 10 ('.' :: cs) := stops_cons (by decide)
  rw [Ipv4.toList_text, ipv4]
  simp only [List.append_assoc, List.cons_append]
  rw [Reader.bind_of_some (byte_toDigits x.a (hpoint _)),
    Reader.bind_of_some (Reader.char_cons _ _),
    Reader.bind_of_some (byte_toDigits x.b (hpoint _)),
    Reader.bind_of_some (Reader.char_cons _ _),
    Reader.bind_of_some (byte_toDigits x.c (hpoint _)),
    Reader.bind_of_some (Reader.char_cons _ _),
    Reader.bind_of_some (byte_toDigits x.d hrest)]
  rfl

/-- Without a point after the first number there is no address of version 4. -/
theorem ipv4_of_no_point (h : (cs.dropWhile fun c => (digit? 10 c).isSome).head? ≠ some '.') :
    ipv4 cs = none := by
  cases hbyte : byte cs with
  | none => exact Reader.bind_of_none hbyte
  | some result =>
    obtain ⟨n, rest⟩ := result
    have hrest : rest = cs.dropWhile fun c => (digit? 10 c).isSome := by
      obtain ⟨⟨n', rest'⟩, hnumber, hcheck⟩ := Option.bind_eq_some_iff.1 hbyte
      dsimp only at hcheck
      split at hcheck
      · contradiction
      · rw [← (Prod.mk.inj (Option.some.inj hcheck)).2]
        exact rest_of_number hnumber
    rw [ipv4, Reader.bind_of_some hbyte]
    exact Reader.bind_of_none (Reader.char_of_head _ (by rwa [hrest]))

/-- What may follow a group in an address. -/
def AfterGroup (rest : List Char) : Prop := ∀ c ∈ rest.head?, c = ':' ∨ c = ']' ∨ c = '%'

theorem AfterGroup.stops {base : Nat} (h : AfterGroup rest) : Stops base rest := by
  intro c hc
  rcases h c hc with rfl | rfl | rfl <;> rfl

@[simp] theorem separated_cons (isFirst : Bool) (r : Reader α) (cs : List Char) :
    separated isFirst r ((if isFirst then [] else [':']) ++ cs) = r cs := by
  cases isFirst with
  | false => exact Reader.bind_of_some (Reader.char_cons ':' cs)
  | true => rfl

/-- A group is not the beginning of an address of version 4. -/
theorem ipv4_group (g : Group) (h : AfterGroup rest) :
    ipv4 (Nat.toDigits 16 g ++ rest) = none := by
  apply ipv4_of_no_point
  rw [List.dropWhile_append]
  split
  · intro hpoint
    have hstop : Stops 10 rest := h.stops
    cases rest with
    | nil => contradiction
    | cons c rest =>
      rw [List.dropWhile_cons_of_neg (by simp [hstop c rfl])] at hpoint
      rcases h '.' hpoint with h | h | h <;> contradiction
  · next hne =>
    rw [List.head?_append_of_ne_nil _ (by simpa using hne)]
    intro hpoint
    have hmem := (List.dropWhile_sublist _).mem (List.mem_of_mem_head? hpoint)
    have hdigit := Text.digit?_of_mem_toDigits (by decide) (by decide) hmem
    contradiction

theorem groups_cons (most : Nat) (isFirst : Bool) (g : Group) (h : AfterGroup rest) :
    groups (most + 1) isFirst ((if isFirst then [] else [':']) ++ (Nat.toDigits 16 g ++ rest)) =
      ((g :: (groups most false rest).1.1, (groups most false rest).1.2),
        (groups most false rest).2) := by
  have hfour : (Nat.toDigits 16 g).length ≤ 4 :=
    (Nat.length_toDigits_le_iff (by decide) (by decide)).2 (Nat.lt_of_lt_of_le g.isLt (by decide))
  have hnumber : number 16 65536 (some 4) (Nat.toDigits 16 g ++ rest) = some (g, rest) :=
    number_toDigits (by decide) (by decide) g.isLt (by simpa using hfour) h.stops
  simp [groups, ipv4_group g h, hnumber]

/-- Where no more groups of an address follow. -/
inductive Closes : List Char → Prop where
  | bracket (rest : List Char) : Closes (']' :: rest)
  | zone (rest : List Char) : Closes ('%' :: rest)
  | zeros (rest : List Char) : Closes (':' :: ':' :: rest)

theorem afterGroup_cons {c : Char} (h : c = ':' ∨ c = ']' ∨ c = '%') : AfterGroup (c :: rest) := by
  intro c' hc'
  rwa [← Option.some.inj hc']

theorem Closes.afterGroup (h : Closes rest) : AfterGroup rest := by
  cases h <;> exact afterGroup_cons (by decide)

/-- A reader that needs a digit in front finds none there. -/
theorem separated_closes {r : Reader α} (hr : ∀ cs, AfterGroup cs → r cs = none) (isFirst : Bool)
    (h : Closes rest) : separated isFirst r rest = none := by
  cases isFirst with
  | true => exact hr rest h.afterGroup
  | false =>
    cases h with
    | bracket rest => exact Reader.bind_of_none (Reader.char_of_head ':' (by simp))
    | zone rest => exact Reader.bind_of_none (Reader.char_of_head ':' (by simp))
    | zeros rest =>
      exact (Reader.bind_of_some (Reader.char_cons ':' _)).trans (hr _ (afterGroup_cons (.inl rfl)))

theorem groups_closes (most : Nat) (isFirst : Bool) (h : Closes rest) :
    groups most isFirst rest = (([], false), rest) := by
  cases most with
  | zero => rfl
  | succ most =>
    have hipv4 : separated isFirst ipv4 rest = none := separated_closes
      (fun cs hcs => Reader.bind_of_none (by rw [byte, number_of_stops hcs.stops]; rfl)) isFirst h
    have hnumber : separated isFirst (number 16 65536 (some 4)) rest = none :=
      separated_closes (fun cs hcs => number_of_stops hcs.stops) isFirst h
    rw [groups, hipv4, hnumber, ite_self]

/-- Groups with a colon before each. -/
def colons (gs : List Group) : List Char := gs.flatMap fun g => ':' :: Nat.toDigits 16 g

@[simp] theorem colons_cons (g : Group) (gs : List Group) :
    colons (g :: gs) = ':' :: (Nat.toDigits 16 g ++ colons gs) := rfl

theorem afterGroup_colons (gs : List Group) (h : AfterGroup rest) :
    AfterGroup (colons gs ++ rest) := by
  cases gs with
  | nil => exact h
  | cons g gs => exact afterGroup_cons (.inl rfl)

theorem groups_colons {most : Nat} {gs : List Group} (hmost : gs.length ≤ most)
    (h : Closes rest) : groups most false (colons gs ++ rest) = ((gs, false), rest) := by
  induction gs generalizing most with
  | nil => exact groups_closes most false h
  | cons g gs ih =>
    obtain ⟨most, rfl⟩ := Nat.exists_eq_add_of_le' (Nat.le_trans (Nat.le_add_left 1 _) hmost)
    have hrest := ih (Nat.le_of_succ_le_succ hmost)
    have hcons := groups_cons most false g (afterGroup_colons gs h.afterGroup)
    rw [hrest] at hcons
    rw [colons_cons, ← hcons]
    simp

end SocketAddress

/-- The characters of some groups: the first, and the others with a colon before each. -/
@[simp] theorem Ipv6.toList_groupsText (g : Group) (gs : List Group) :
    (groupsText (g :: gs)).toList = Nat.toDigits 16 g ++ SocketAddress.colons gs := by
  rw [groupsText, String.toList_intercalate, List.map_map]
  induction gs generalizing g with
  | nil => simp [SocketAddress.colons, Text.hex]
  | cons g' gs ih =>
    rw [SocketAddress.colons_cons, ← ih g', List.map_cons, List.map_cons,
      List.intercalate_cons_cons]
    simp [Text.hex]

namespace SocketAddress

variable {cs rest : List Char}

theorem groups_text (most : Nat) (gs : List Group) (hmost : gs.length ≤ most) (h : Closes rest) :
    groups most true ((Ipv6.groupsText gs).toList ++ rest) = ((gs, false), rest) := by
  cases gs with
  | nil => exact groups_closes most true h
  | cons g gs =>
    obtain ⟨most, rfl⟩ := Nat.exists_eq_add_of_le' (Nat.le_trans (Nat.le_add_left 1 _) hmost)
    have hcons := groups_cons most true g (afterGroup_colons gs h.afterGroup)
    rw [groups_colons (Nat.le_of_succ_le_succ hmost) h] at hcons
    rw [Ipv6.toList_groupsText, List.append_assoc]
    exact hcons

end SocketAddress

end Planimeter
