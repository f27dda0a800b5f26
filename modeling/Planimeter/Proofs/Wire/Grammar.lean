import Planimeter.Proofs.Wire.Reading
/-!
# The grammar of the wire format

Which bytes spell a number, a key, a field that is passed over, and a message. A message is a
sequence of fields, and each field adds items to what the message holds: a dimension with its place,
a variant with its dimensions, a shape, areas, or nothing where the field is not known. A submessage
is a piece of the bytes as long as announced and is derived from this piece alone, so that no field
of it can reach beyond its end.
-/
namespace Planimeter.Wire

/-- Groups of seven bits, the lowest first; every byte but the last has its high bit set. -/
inductive Groups : List UInt8 → Nat → Prop where
  | last {b : UInt8} (h : b < 128) : Groups [b] b.toNat
  | more {b : UInt8} {bytes : List UInt8} {n : Nat} (h : ¬b < 128) (hmore : Groups bytes n) :
      Groups (b :: bytes) (b.toNat - 128 + 128 * n)

/-- A number is spelled in at most `limit` bytes, and if it takes all of them the last is at most
1. -/
structure Spelled (limit : Nat) (bytes : List UInt8) (n : Nat) : Prop where
  groups : Groups bytes n
  length_le : bytes.length ≤ limit
  last_le : ∀ b ∈ bytes[limit - 1]?, b ≤ 1

/-- A number takes at most ten bytes, of which the tenth is at most 1. -/
abbrev IsVarint : List UInt8 → Nat → Prop := Spelled 10

/-- A key is a number of 32 bits, made of a field number other than zero and a wire type. -/
structure IsKey (bytes : List UInt8) (key : Key) : Prop where
  varint : IsVarint bytes (8 * key.field + key.type.toNat)
  lt : 8 * key.field + key.type.toNat < UInt32.size
  pos : 0 < key.field

/-- A datum is four bytes, the lowest first. -/
inductive Datum : List UInt8 → List Binary32 → Prop where
  | mk {bytes : List UInt8} (h : bytes.length = 4) : Datum bytes [.ofBits (wordOfBytes bytes)]

mutual

/-- The payloads of fields that are passed over, where `depth` submessages and groups are around the
field. -/
inductive Skipped : (depth : Nat) → Key → List UInt8 → Prop where
  | varint {depth field n : Nat} {payload : List UInt8} (hdepth : depth < depthLimit)
      (h : IsVarint payload n) : Skipped depth ⟨field, .varint⟩ payload
  | fixed64 {depth field : Nat} {payload : List UInt8} (hdepth : depth < depthLimit)
      (h : payload.length = 8) : Skipped depth ⟨field, .fixed64⟩ payload
  | fixed32 {depth field : Nat} {payload : List UInt8} (hdepth : depth < depthLimit)
      (h : payload.length = 4) : Skipped depth ⟨field, .fixed32⟩ payload
  | delimited {depth field : Nat} {length body : List UInt8} (hdepth : depth < depthLimit)
      (h : IsVarint length body.length) : Skipped depth ⟨field, .delimited⟩ (length ++ body)
  | group {depth field : Nat} {fields close : List UInt8} (hdepth : depth < depthLimit)
      (hfields : SkippedFields (depth + 1) fields) (hclose : IsKey close ⟨field, .endGroup⟩) :
      Skipped depth ⟨field, .startGroup⟩ (fields ++ close)

/-- Sequences of fields that are passed over. -/
inductive SkippedFields : (depth : Nat) → List UInt8 → Prop where
  | nil {depth : Nat} : SkippedFields depth []
  | cons {depth : Nat} {key : Key} {bytes payload rest : List UInt8} (hkey : IsKey bytes key)
      (hpayload : Skipped depth key payload) (hrest : SkippedFields depth rest) :
      SkippedFields depth (bytes ++ payload ++ rest)

end

section

variable {β : Type}

/-- Any number of pieces one after the other, with the items of all of them. -/
inductive Sequence (Piece : List UInt8 → List β → Prop) : List UInt8 → List β → Prop where
  | nil : Sequence Piece [] []
  | cons {piece rest : List UInt8} {items more : List β} (hpiece : Piece piece items)
      (hrest : Sequence Piece rest more) : Sequence Piece (piece ++ rest) (items ++ more)

/-- A key and its payload. -/
inductive Field (Payload : Key → List UInt8 → List β → Prop) : List UInt8 → List β → Prop where
  | mk {key : Key} {bytes payload : List UInt8} {items : List β} (hkey : IsKey bytes key)
      (hpayload : Payload key payload items) : Field Payload (bytes ++ payload) items

/-- The fields of a message. -/
abbrev Fields (Payload : Key → List UInt8 → List β → Prop) : List UInt8 → List β → Prop :=
  Sequence (Field Payload)

/-- A body behind the number of its bytes. -/
inductive Delimited (Body : List UInt8 → List β → Prop) : List UInt8 → List β → Prop where
  | mk {length body : List UInt8} {items : List β} (hlength : IsVarint length body.length)
      (hbody : Body body items) : Delimited Body (length ++ body) items

end

/-- The payloads of the fields of a variant: dimensions by their numbers, and what is not known. -/
inductive DimPayload (depth : Nat) (kind : Kind) :
    Key → List UInt8 → List (Nat × Binary32) → Prop where
  | dim {place : Nat} {x : Binary32} {payload : List UInt8} (hplace : place < kind.arity)
      (h : Datum payload [x]) : DimPayload depth kind ⟨place + 1, .fixed32⟩ payload [(place, x)]
  | unknown {key : Key} {payload : List UInt8} (hkey : kind.arity < key.field)
      (h : Skipped depth key payload) : DimPayload depth kind key payload []

/-- The payloads of the fields of a message that holds a shape. -/
inductive ShapePayload (depth : Nat) :
    Key → List UInt8 → List (Kind × List (Nat × Binary32)) → Prop where
  | variant {kind : Kind} {payload : List UInt8} {dims : List (Nat × Binary32)}
      (h : Delimited (Fields (DimPayload (depth + 1) kind)) payload dims) :
      ShapePayload depth ⟨kind.number, .delimited⟩ payload [(kind, dims)]
  | unknown {key : Key} {payload : List UInt8} (hkey : ∀ kind : Kind, key.field ≠ kind.number)
      (h : Skipped depth key payload) : ShapePayload depth key payload []

/-- The shape after a variant: its dimensions are set one after the other, in the shape before it if
that is of the same kind, and otherwise in one with every dimension zero. -/
def addVariant (m : Option Shape) (variant : Kind × List (Nat × Binary32)) : Option Shape :=
  some (variant.2.foldl (fun s d => s.set d.1 d.2) (openVariant variant.1 m))

/-- The payloads of the fields of a request for several areas. -/
inductive RequestPayload (depth : Nat) : Key → List UInt8 → List (Option Shape) → Prop where
  | shape {payload : List UInt8} {variants : List (Kind × List (Nat × Binary32))}
      (h : Delimited (Fields (ShapePayload (depth + 1))) payload variants) :
      RequestPayload depth ⟨1, .delimited⟩ payload [variants.foldl addVariant none]
  | unknown {key : Key} {payload : List UInt8} (hkey : key.field ≠ 1)
      (h : Skipped depth key payload) : RequestPayload depth key payload []

/-- The payloads of the fields of a response, whose areas come one by one or packed. -/
inductive ResponsePayload (depth : Nat) : Key → List UInt8 → List Binary32 → Prop where
  | single {payload : List UInt8} {x : Binary32} (h : Datum payload [x]) :
      ResponsePayload depth ⟨1, .fixed32⟩ payload [x]
  | packed {payload : List UInt8} {values : List Binary32}
      (h : Delimited (Sequence Datum) payload values) :
      ResponsePayload depth ⟨1, .delimited⟩ payload values
  | unknown {key : Key} {payload : List UInt8} (hkey : key.field ≠ 1)
      (h : Skipped depth key payload) : ResponsePayload depth key payload []

variable {i : Input} {limit n : Nat} {b : UInt8} {bytes tail : List UInt8}

theorem Groups.ne_nil (h : Groups bytes n) : bytes ≠ [] := by
  cases h <;> exact List.cons_ne_nil _ _

/-- The first byte of a number tells whether it is the last one. -/
theorem groups_cons_iff : Groups (b :: bytes) n ↔
    (b < 128 ∧ bytes = [] ∧ n = b.toNat) ∨
      (¬b < 128 ∧ ∃ high, Groups bytes high ∧ n = b.toNat - 128 + 128 * high) := by
  constructor
  · intro h
    cases h with
    | last hb => exact .inl ⟨hb, rfl, rfl⟩
    | more hb hmore => exact .inr ⟨hb, _, hmore, rfl⟩
  · rintro (⟨hb, rfl, rfl⟩ | ⟨hb, high, hmore, rfl⟩)
    · exact .last hb
    · exact .more hb hmore

theorem Spelled.ne_nil (h : Spelled limit bytes n) : bytes ≠ [] := h.groups.ne_nil

theorem not_spelled_zero : ¬Spelled 0 bytes n := fun h =>
  h.ne_nil (List.length_eq_zero_iff.1 (Nat.le_zero.1 h.length_le))

theorem spelled_cons_iff : Spelled (limit + 1) (b :: bytes) n ↔
    (b < 128 ∧ bytes = [] ∧ (limit = 0 → b ≤ 1) ∧ n = b.toNat) ∨
      (¬b < 128 ∧ ∃ high, Spelled limit bytes high ∧ n = b.toNat - 128 + 128 * high) := by
  constructor
  · rintro ⟨hgroups, hlength, hlast⟩
    rcases groups_cons_iff.1 hgroups with ⟨hb, rfl, hn⟩ | ⟨hb, high, hmore, hn⟩
    · refine .inl ⟨hb, rfl, ?_, hn⟩
      rintro rfl
      exact hlast b rfl
    · -- more bytes follow, so that one at least is left for them
      have hle : bytes.length ≤ limit := by simpa using hlength
      have hpos : 0 < bytes.length := List.length_pos_iff.2 hmore.ne_nil
      obtain ⟨limit, rfl⟩ := Nat.exists_eq_add_of_le' (Nat.le_trans hpos hle)
      exact .inr ⟨hb, high, ⟨hmore, hle, hlast⟩, hn⟩
  · rintro (⟨hb, rfl, hlast, rfl⟩ | ⟨hb, high, ⟨hmore, hle, hlast⟩, rfl⟩)
    · refine ⟨.last hb, by simp, fun c hc => ?_⟩
      cases limit with
      | zero =>
        obtain rfl : b = c := by simpa using hc
        exact hlast rfl
      | succ limit => simp at hc
    · have hpos : 0 < bytes.length := List.length_pos_iff.2 hmore.ne_nil
      obtain ⟨limit, rfl⟩ := Nat.exists_eq_add_of_le' (Nat.le_trans hpos hle)
      exact ⟨.more hb hmore, by simpa using hle, hlast⟩

/-- A number below 128 is spelled by one byte. -/
theorem isVarint_byte (h : b < 128) : IsVarint [b] b.toNat := ⟨.last h, by simp, by simp⟩

theorem isKey_byte {key : Key} (h : b < 128) (hb : 8 * key.field + key.type.toNat = b.toNat)
    (hpos : 0 < key.field) : IsKey [b] key :=
  ⟨hb ▸ isVarint_byte h, hb ▸ Nat.lt_trans b.toNat_lt (by decide), hpos⟩

theorem next?_nil (h : i.bytes = []) : i.next? = none := by
  unfold Input.next?
  split
  · rfl
  · next hcons => simp [h] at hcons

theorem readGroups_succ {next : i.Shorter} (h : i.next? = some (b, next)) :
    readGroups (limit + 1) i =
      if b < 128 then if limit = 0 ∧ 1 < b then none else some (b.toNat, next)
      else (readGroups limit next.1).map fun (high, rest) =>
        (b.toNat - 128 + 128 * high, ⟨rest.1, Nat.lt_trans rest.2 next.2⟩) := by
  simp only [readGroups, h, Option.bind_eq_bind, Option.bind_some, Option.map_eq_bind]
  congr 1
  simp

/-- Reading takes from the input what spells a number. -/
theorem readGroups_iff (limit : Nat) :
    (∃ rest, readGroups limit i = some (n, rest) ∧ rest.1.bytes = tail) ↔
      ∃ bytes, Spelled limit bytes n ∧ i.bytes = bytes ++ tail := by
  induction limit generalizing i n with
  | zero =>
    constructor
    · rintro ⟨rest, h, -⟩
      contradiction
    · rintro ⟨bytes, h, -⟩
      exact absurd h not_spelled_zero
  | succ limit ih =>
    cases hi : i.bytes with
    | nil =>
      constructor
      · rintro ⟨rest, h, -⟩
        simp [readGroups, next?_nil hi] at h
      · rintro ⟨bytes, h, hbytes⟩
        exact absurd (List.append_eq_nil_iff.1 hbytes.symm).1 h.ne_nil
    | cons b front =>
      obtain ⟨next, hnext, rfl⟩ := next?_cons hi
      rw [readGroups_succ hnext]
      constructor
      · rintro ⟨rest, h, rfl⟩
        split at h
        · next hb =>
          split at h
          · contradiction
          · next hlast =>
            obtain ⟨rfl, rfl⟩ := Prod.mk.inj (Option.some.inj h)
            have hle : limit = 0 → b ≤ 1 := fun h0 => UInt8.not_lt.1 fun h1 => hlast ⟨h0, h1⟩
            exact ⟨[b], spelled_cons_iff.2 (.inl ⟨hb, rfl, hle, rfl⟩), rfl⟩
        · next hb =>
          obtain ⟨⟨high, left⟩, hread, heq⟩ := Option.map_eq_some_iff.1 h
          obtain ⟨rfl, rfl⟩ := Prod.mk.inj heq
          obtain ⟨bytes, hmore, hbytes⟩ := ih.1 ⟨left, hread, rfl⟩
          refine ⟨b :: bytes, spelled_cons_iff.2 (.inr ⟨hb, high, hmore, rfl⟩), ?_⟩
          rw [hbytes, List.cons_append]
      · rintro ⟨bytes, h, hbytes⟩
        obtain ⟨c, more, rfl⟩ := List.exists_cons_of_ne_nil h.ne_nil
        obtain ⟨rfl, hmore⟩ := List.cons.inj hbytes
        rcases spelled_cons_iff.1 h with ⟨hb, rfl, hle, rfl⟩ | ⟨hb, high, hhigh, rfl⟩
        · have hlast : ¬(limit = 0 ∧ 1 < b) := fun h => absurd h.2 (UInt8.not_lt.2 (hle h.1))
          rw [if_pos hb, if_neg hlast]
          exact ⟨next, rfl, hmore⟩
        · obtain ⟨rest, hread, htail⟩ := ih.2 ⟨more, hhigh, hmore⟩
          rw [if_neg hb, hread]
          exact ⟨⟨rest.1, _⟩, rfl, htail⟩

theorem readVarint_iff : (∃ rest, readVarint i = some (n, rest) ∧ rest.1.bytes = tail) ↔
    ∃ bytes, IsVarint bytes n ∧ i.bytes = bytes ++ tail :=
  readGroups_iff 10

theorem toNat_of_ofNat? {type : WireType} (h : WireType.ofNat? n = some type) : type.toNat = n := by
  unfold WireType.ofNat? at h
  split at h <;> simp only [Option.some.injEq, reduceCtorEq] at h <;> subst h <;> rfl

theorem readKey_iff {key : Key} : Reads (readKey i) key tail ↔
    ∃ bytes, IsKey bytes key ∧ i.bytes = bytes ++ tail := by
  constructor
  · rintro ⟨rest, h, htail⟩
    unfold readKey at h
    split at h
    · contradiction
    · next n rest' hread =>
      obtain ⟨bytes, hspelled, hbytes⟩ := readVarint_iff.1 ⟨rest', hread, rfl⟩
      split at h
      · contradiction
      · next hsize =>
        split at h
        · contradiction
        · next type htype =>
          split at h
          · contradiction
          · next hfield =>
            obtain ⟨rfl, rfl⟩ := Prod.mk.inj (Except.ok.inj h)
            have hn : 8 * (n / 8) + type.toNat = n := by
              rw [toNat_of_ofNat? htype, Nat.div_add_mod]
            refine ⟨bytes, ⟨?_, ?_, Nat.pos_of_ne_zero hfield⟩, by rw [hbytes, htail]⟩
            · rwa [hn]
            · rw [hn]
              exact Nat.not_le.1 hsize
  · rintro ⟨bytes, ⟨hspelled, hlt, hpos⟩, hbytes⟩
    obtain ⟨rest, hread, htail⟩ := readVarint_iff.2 ⟨bytes, hspelled, hbytes⟩
    have htype := toNat_lt_eight key.type
    have hdiv : (8 * key.field + key.type.toNat) / 8 = key.field := by omega
    have hmod : (8 * key.field + key.type.toNat) % 8 = key.type.toNat := by omega
    refine ⟨rest, ?_, htail⟩
    simp only [readKey, hread, hdiv, hmod, ofNat?_toNat, if_neg (Nat.not_le.2 hlt),
      if_neg (Nat.ne_of_gt hpos)]

theorem take?_iff {count : Nat} :
    (∃ rest, i.take? count = some (bytes, rest) ∧ rest.1.bytes = tail) ↔
      bytes.length = count ∧ i.bytes = bytes ++ tail := by
  constructor
  · rintro ⟨rest, h, rfl⟩
    unfold Input.take? at h
    split at h
    · next hle =>
      obtain ⟨rfl, rfl⟩ := Prod.mk.inj (Option.some.inj h)
      refine ⟨?_, (List.take_append_drop count i.bytes).symm⟩
      rw [List.length_take, ← i.size_eq, Nat.min_eq_left hle]
    · contradiction
  · rintro ⟨hcount, hbytes⟩
    exact take?_append hcount hbytes

theorem readFloat_iff {x : Binary32} : Reads (readFloat i) x tail ↔
    ∃ bytes, Datum bytes [x] ∧ i.bytes = bytes ++ tail := by
  constructor
  · rintro ⟨rest, h, rfl⟩
    unfold readFloat at h
    split at h
    · contradiction
    · next bytes left hleft htake =>
      obtain ⟨rfl, rfl⟩ := Prod.mk.inj (Except.ok.inj h)
      obtain ⟨hlength, hbytes⟩ := take?_iff.1 ⟨_, htake, rfl⟩
      exact ⟨bytes, .mk hlength, hbytes⟩
  · rintro ⟨bytes, ⟨hlength⟩, hbytes⟩
    obtain ⟨rest, htake, htail⟩ := take?_append hlength hbytes
    refine ⟨⟨rest.1, by omega⟩, ?_, htail⟩
    simp only [readFloat, htake]

@[simp] theorem map_eq_ok_iff {ε α β : Type} {result : Except ε α} {f : α → β} {b : β} :
    result.map f = .ok b ↔ ∃ a, result = .ok a ∧ f a = b := by
  cases result <;> simp [Except.map]

/-- The reader has passed over what was before `tail`. -/
def Passes {P : Input → Prop} (result : Except Failure (Subtype P)) (tail : List UInt8) : Prop :=
  ∃ rest, result = .ok rest ∧ rest.1.bytes = tail

theorem skipBytes_iff {count : Nat} : Passes (skipBytes count i) tail ↔
    ∃ bytes, bytes.length = count ∧ i.bytes = bytes ++ tail := by
  constructor
  · rintro ⟨rest, h, rfl⟩
    unfold skipBytes at h
    split at h
    · contradiction
    · next bytes left hleft htake =>
      obtain rfl := Except.ok.inj h
      exact ⟨bytes, take?_iff.1 ⟨_, htake, rfl⟩⟩
  · rintro ⟨bytes, hlength, hbytes⟩
    obtain ⟨rest, htake, htail⟩ := take?_append hlength hbytes
    refine ⟨⟨rest.1, by omega⟩, ?_, htail⟩
    simp only [skipBytes, htake]

/-- A payload that is no group is passed over as the grammar has it. -/
theorem skipPayload_iff {depth : Nat} (hdepth : depth < depthLimit) {key : Key}
    (hkey : key.type ≠ .startGroup) : Passes (skipPayload key.type i) tail ↔
      ∃ payload, Skipped depth key payload ∧ i.bytes = payload ++ tail := by
  obtain ⟨field, type⟩ := key
  cases type with
  | varint =>
    constructor
    · rintro ⟨rest, h, rfl⟩
      simp only [skipPayload] at h
      split at h
      · contradiction
      · next n left hread =>
        obtain rfl := Except.ok.inj h
        obtain ⟨bytes, hspelled, hbytes⟩ := readVarint_iff.1 ⟨left, hread, rfl⟩
        exact ⟨bytes, .varint hdepth hspelled, hbytes⟩
    · rintro ⟨payload, hpayload, hbytes⟩
      cases hpayload with | varint _ hspelled =>
      obtain ⟨rest, hread, htail⟩ := readVarint_iff.2 ⟨payload, hspelled, hbytes⟩
      refine ⟨rest.toRest, ?_, htail⟩
      simp only [skipPayload, hread]
  | fixed64 =>
    refine skipBytes_iff.trans ⟨?_, ?_⟩
    · rintro ⟨payload, hlength, hbytes⟩
      exact ⟨payload, .fixed64 hdepth hlength, hbytes⟩
    · rintro ⟨payload, hpayload, hbytes⟩
      cases hpayload with | fixed64 _ hlength =>
      exact ⟨payload, hlength, hbytes⟩
  | fixed32 =>
    refine skipBytes_iff.trans ⟨?_, ?_⟩
    · rintro ⟨payload, hlength, hbytes⟩
      exact ⟨payload, .fixed32 hdepth hlength, hbytes⟩
    · rintro ⟨payload, hpayload, hbytes⟩
      cases hpayload with | fixed32 _ hlength =>
      exact ⟨payload, hlength, hbytes⟩
  | delimited =>
    constructor
    · rintro ⟨rest, h, rfl⟩
      simp only [skipPayload] at h
      split at h
      · contradiction
      · next n left hread =>
        obtain ⟨length, hspelled, hlength⟩ := readVarint_iff.1 ⟨left, hread, rfl⟩
        obtain ⟨past, hpast, rfl⟩ := map_eq_ok_iff.1 h
        obtain ⟨body, rfl, hbody⟩ := skipBytes_iff.1 ⟨past, hpast, rfl⟩
        refine ⟨length ++ body, .delimited hdepth hspelled, ?_⟩
        rw [hlength, List.append_assoc]
        exact congrArg (length ++ ·) hbody
    · rintro ⟨payload, hpayload, hbytes⟩
      cases hpayload with | delimited _ hspelled =>
      rw [List.append_assoc] at hbytes
      obtain ⟨left, hread, hleft⟩ := readVarint_iff.2 ⟨_, hspelled, hbytes⟩
      obtain ⟨past, hpast, htail⟩ := skipBytes_iff.2 ⟨_, rfl, hleft⟩
      refine ⟨left.toRest.trans past, ?_, htail⟩
      simp only [skipPayload, hread, hpast]
      rfl
  | startGroup => exact absurd rfl hkey
  | endGroup =>
    constructor
    · rintro ⟨rest, h, -⟩
      contradiction
    · rintro ⟨payload, h, -⟩
      cases h

theorem Skipped.depth_lt {depth : Nat} {key : Key} (h : Skipped depth key bytes) :
    depth < depthLimit := by
  cases h <;> assumption

theorem Skipped.type_ne {depth : Nat} {key : Key} (h : Skipped depth key bytes) :
    key.type ≠ .endGroup := by
  cases h <;> simp

/-- A group is its fields and the key that ends it. -/
theorem skipped_startGroup_iff {depth field : Nat} {payload : List UInt8} :
    Skipped depth ⟨field, .startGroup⟩ payload ↔ depth < depthLimit ∧ ∃ fields close,
      SkippedFields (depth + 1) fields ∧ IsKey close ⟨field, .endGroup⟩ ∧
        payload = fields ++ close := by
  constructor
  · intro h
    cases h with
    | group hdepth hfields hclose => exact ⟨hdepth, _, _, hfields, hclose, rfl⟩
  · rintro ⟨hdepth, fields, close, hfields, hclose, rfl⟩
    exact .group hdepth hfields hclose

/-- The bytes that close the open groups, innermost first, with the fields before each of the ends.
The outermost group is a field that has `depth` submessages and groups around it. -/
def Closes (depth : Nat) : (groups : List Nat) → List UInt8 → Prop
  | [], bytes => bytes = []
  | group :: outer, bytes => ∃ fields close rest,
      SkippedFields (depth + outer.length + 1) fields ∧ IsKey close ⟨group, .endGroup⟩ ∧
        Closes depth outer rest ∧ bytes = fields ++ close ++ rest

/-- First comes the end of the innermost group, or a group that it holds, or another field. -/
theorem closes_cons_iff {depth group : Nat} {outer : List Nat} :
    Closes depth (group :: outer) bytes ↔
      (∃ close rest, IsKey close ⟨group, .endGroup⟩ ∧ Closes depth outer rest ∧
        bytes = close ++ rest) ∨
      (depth + outer.length + 1 < depthLimit ∧ ∃ field start rest,
        IsKey start ⟨field, .startGroup⟩ ∧ Closes depth (field :: group :: outer) rest ∧
          bytes = start ++ rest) ∨
      ∃ key start payload rest, key.type ≠ .startGroup ∧ IsKey start key ∧
        Skipped (depth + outer.length + 1) key payload ∧ Closes depth (group :: outer) rest ∧
          bytes = start ++ payload ++ rest := by
  constructor
  · rintro ⟨fields, close, rest, hfields, hclose, hrest, rfl⟩
    cases hfields with
    | nil => exact .inl ⟨close, rest, hclose, hrest, rfl⟩
    | @cons _ key start payload more hkey hpayload hmore =>
      have hgroup : Closes depth (group :: outer) (more ++ close ++ rest) :=
        ⟨more, close, rest, hmore, hclose, hrest, rfl⟩
      obtain ⟨field, type⟩ := key
      by_cases htype : type = .startGroup
      · subst htype
        obtain ⟨hdepth, inner, close', hinner, hclose', rfl⟩ := skipped_startGroup_iff.1 hpayload
        refine .inr (.inl ⟨hdepth, field, start, _, hkey,
          ⟨inner, close', _, hinner, hclose', hgroup, rfl⟩, ?_⟩)
        simp only [List.append_assoc]
      · refine .inr (.inr ⟨_, start, payload, _, htype, hkey, hpayload, hgroup, ?_⟩)
        simp only [List.append_assoc]
  · rintro (⟨close, rest, hclose, hrest, rfl⟩ | ⟨hdepth, field, start, rest, hkey, hgroups, rfl⟩ |
      ⟨key, start, payload, rest, -, hkey, hpayload, hgroup, rfl⟩)
    · exact ⟨[], close, rest, .nil, hclose, hrest, rfl⟩
    · obtain ⟨inner, close', rest', hinner, hclose', hgroup, rfl⟩ := hgroups
      obtain ⟨fields, close, rest, hfields, hclose, hrest, rfl⟩ := hgroup
      have hpayload : Skipped (depth + outer.length + 1) ⟨field, .startGroup⟩ (inner ++ close') :=
        .group hdepth hinner hclose'
      refine ⟨_, close, rest, .cons hkey hpayload hfields, hclose, hrest, ?_⟩
      simp only [List.append_assoc]
    · obtain ⟨fields, close, rest, hfields, hclose, hrest, rfl⟩ := hgroup
      refine ⟨_, close, rest, .cons hkey hpayload hfields, hclose, hrest, ?_⟩
      simp only [List.append_assoc]

theorem closes_of_passes {depth budget : Nat} (hbudget : budget = depthLimit - depth)
    {start : Input} {groups : List Nat} {hle : i.size ≤ start.size}
    (h : Passes (skipGroups budget start groups i hle) tail) :
    ∃ bytes, Closes depth groups bytes ∧ i.bytes = bytes ++ tail := by
  fun_induction skipGroups budget start groups i hle with
  | case1 i hle =>
    obtain ⟨rest, hrest, rfl⟩ := h
    obtain rfl := Except.ok.inj hrest
    exact ⟨[], rfl, rfl⟩
  | case2 | case4 => obtain ⟨rest, hrest, -⟩ := h; contradiction
  | case3 i hle outer key next hlt hkey hle' hend ih =>
    obtain ⟨close, hclose, hbytes⟩ := readKey_iff.1 ⟨_, hkey, rfl⟩
    obtain ⟨rest, hrest, hnext⟩ := ih h
    have hclose' : IsKey close ⟨key.field, .endGroup⟩ := hend ▸ hclose
    refine ⟨close ++ rest, closes_cons_iff.2 (.inl ⟨close, rest, hclose', hrest, rfl⟩), ?_⟩
    rw [hbytes, hnext, List.append_assoc]
  | case5 i hle group outer key next hlt hkey hle' hend hdepth =>
    rw [if_pos hdepth] at h
    obtain ⟨rest, hrest, -⟩ := h
    contradiction
  | case6 i hle group outer key next hlt hkey hle' hend hgroup hdepth ih =>
    rw [if_neg hdepth, if_pos hgroup] at h
    obtain ⟨key', hkey', hbytes⟩ := readKey_iff.1 ⟨_, hkey, rfl⟩
    obtain ⟨rest, hrest, hnext⟩ := ih h
    rw [List.length_cons] at hdepth
    have hkey' : IsKey key' ⟨key.field, .startGroup⟩ := hgroup ▸ hkey'
    refine ⟨key' ++ rest,
      closes_cons_iff.2 (.inr (.inl ⟨by omega, key.field, key', rest, hkey', hrest, rfl⟩)), ?_⟩
    rw [hbytes, hnext, List.append_assoc]
  | case7 i hle group outer key next hlt hkey hle' hend hgroup e hskip hdepth =>
    simp only [if_neg hdepth, if_neg hgroup, hskip] at h
    obtain ⟨rest, hrest, -⟩ := h
    contradiction
  | case8 i hle group outer key next hlt hkey hle' hend hgroup past hpast hskip hdepth ih =>
    simp only [if_neg hdepth, if_neg hgroup, hskip] at h
    obtain ⟨key', hkey', hbytes⟩ := readKey_iff.1 ⟨_, hkey, rfl⟩
    obtain ⟨rest, hrest, hpast'⟩ := ih h
    rw [List.length_cons] at hdepth
    have hlt' : depth + outer.length + 1 < depthLimit := by omega
    obtain ⟨payload, hpayload, hnext⟩ := (skipPayload_iff hlt' hgroup).1 ⟨_, hskip, rfl⟩
    refine ⟨key' ++ payload ++ rest, closes_cons_iff.2
      (.inr (.inr ⟨key, key', payload, rest, hgroup, hkey', hpayload, hrest, rfl⟩)), ?_⟩
    rw [hbytes, hnext, hpast']
    simp only [List.append_assoc]

theorem passes_of_closes {depth budget : Nat} (hbudget : budget = depthLimit - depth)
    {start : Input} {groups : List Nat} {hle : i.size ≤ start.size} (h : Closes depth groups bytes)
    (hbytes : i.bytes = bytes ++ tail) :
    Passes (skipGroups budget start groups i hle) tail := by
  induction hsize : i.size using Nat.strong_induction_on generalizing i groups bytes with
  | _ size ih =>
    subst hsize
    cases groups with
    | nil =>
      obtain rfl : bytes = [] := h
      rw [skipGroups]
      exact ⟨_, rfl, hbytes⟩
    | cons group outer =>
      rcases closes_cons_iff.1 h with ⟨close, rest, hclose, hrest, rfl⟩ |
        ⟨hdepth, field, key, rest, hkey, hgroups, rfl⟩ |
        ⟨key, key', payload, rest, htype, hkey, hpayload, hgroup, rfl⟩
      · rw [List.append_assoc] at hbytes
        obtain ⟨next, hread, hnext⟩ := readKey_iff.2 ⟨close, hclose, hbytes⟩
        rw [skipGroups]
        simp only [hread, if_true]
        exact ih _ next.2 hrest hnext rfl
      · rw [List.append_assoc] at hbytes
        obtain ⟨next, hread, hnext⟩ := readKey_iff.2 ⟨key, hkey, hbytes⟩
        have hbudget' : ¬budget ≤ (group :: outer).length := by
          rw [List.length_cons]
          omega
        rw [skipGroups]
        simp only [hread, if_neg hbudget', if_true]
        exact ih _ next.2 hgroups hnext rfl
      · rw [List.append_assoc, List.append_assoc] at hbytes
        obtain ⟨next, hread, hnext⟩ := readKey_iff.2 ⟨key', hkey, hbytes⟩
        obtain ⟨past, hskip, hpast⟩ :=
          (skipPayload_iff hpayload.depth_lt htype).2 ⟨payload, hpayload, hnext⟩
        have hdepth := hpayload.depth_lt
        have hbudget' : ¬budget ≤ (group :: outer).length := by
          rw [List.length_cons]
          omega
        rw [skipGroups]
        simp only [hread, if_neg hpayload.type_ne, if_neg hbudget', if_neg htype, hskip]
        exact ih _ (Nat.lt_of_le_of_lt past.2 next.2) hgroup hpast rfl

/-- A field that is not known is passed over as the grammar has it. -/
theorem skipField_iff {depth : Nat} {key : Key} :
    Passes (skipField (depthLimit - depth) key i) tail ↔
      ∃ payload, Skipped depth key payload ∧ i.bytes = payload ++ tail := by
  obtain ⟨field, type⟩ := key
  by_cases hdepth : depth < depthLimit
  · rw [skipField, if_neg (by omega)]
    by_cases htype : type = .startGroup
    · subst htype
      have hcloses {payload : List UInt8} :
          Closes depth [field] payload ↔ Skipped depth ⟨field, .startGroup⟩ payload := by
        rw [skipped_startGroup_iff]
        constructor
        · rintro ⟨fields, close, rest, hfields, hclose, rfl, rfl⟩
          exact ⟨hdepth, fields, close, hfields, hclose, List.append_nil _⟩
        · rintro ⟨-, fields, close, hfields, hclose, rfl⟩
          exact ⟨fields, close, [], hfields, hclose, rfl, (List.append_nil _).symm⟩
      rw [if_pos rfl]
      constructor
      · intro h
        obtain ⟨payload, hpayload, hbytes⟩ := closes_of_passes rfl h
        exact ⟨payload, hcloses.1 hpayload, hbytes⟩
      · rintro ⟨payload, hpayload, hbytes⟩
        exact passes_of_closes rfl (hcloses.2 hpayload) hbytes
    · rw [if_neg htype]
      exact skipPayload_iff hdepth htype
  · rw [skipField, if_pos (by omega)]
    constructor
    · rintro ⟨rest, h, -⟩
      contradiction
    · rintro ⟨payload, h, -⟩
      exact absurd h.depth_lt hdepth

end Planimeter.Wire
