import Planimeter.Wire.Message
import Mathlib.Algebra.Ring.Nat
/-!
# Reading what was written

A reader that begins at written bytes gives what they were written from and leaves the bytes behind
them. The statements go from the inside out: numbers, keys, data, a field, and the loop over the
fields of a message, which is run along a list of written items. What a reader leaves is said as a
list of bytes, so that the proofs that the rest is shorter stay out of the statements.
-/
namespace Planimeter.Wire

/-- The reader has read `a` and left `tail`. -/
def Reads {P : Input → Prop} (result : Except Failure (α × Subtype P)) (a : α)
    (tail : List UInt8) : Prop :=
  ∃ rest, result = .ok (a, rest) ∧ rest.1.bytes = tail

section

variable {P Q : Input → Prop} {a : α} {tail : List UInt8}

/-- A reader that passes on what another one read and left. -/
theorem Reads.map {result : Except Failure (α × Subtype P)} (h : Reads result a tail)
    {f : α × Subtype P → β × Subtype Q} {b : β}
    (hf : ∀ rest, (f (a, rest)).1 = b ∧ (f (a, rest)).2.1 = rest.1) :
    Reads (result.map f) b tail := by
  obtain ⟨rest, rfl, rfl⟩ := h
  obtain ⟨hb, hrest⟩ := hf rest
  exact ⟨(f (a, rest)).2, by rw [← hb]; rfl, by rw [hrest]⟩

theorem Reads.within {result : Except Failure (α × Subtype P)} (h : Reads result a tail)
    (message field : String) : Reads (within message field result) a tail := by
  obtain ⟨rest, rfl, rfl⟩ := h
  exact ⟨rest, rfl, rfl⟩

theorem Reads.expectType {result : Except Failure (α × Subtype P)} (h : Reads result a tail)
    (type : WireType) : Reads (expectType type type result) a tail := by
  rw [Wire.expectType, if_pos rfl]
  exact h

end

theorem Input.size_eq_of_bytes {i : Input} {bytes : List UInt8} (h : i.bytes = bytes) :
    i.size = bytes.length := by
  rw [i.size_eq, h]

theorem next?_cons {i : Input} {b : UInt8} {tail : List UInt8} (h : i.bytes = b :: tail) :
    ∃ rest, i.next? = some (b, rest) ∧ rest.1.bytes = tail := by
  unfold Input.next?
  split
  · next hnil => simp [hnil] at h
  · next b' tail' hcons =>
    rw [hcons, List.cons.injEq] at h
    obtain ⟨rfl, rfl⟩ := h
    exact ⟨_, rfl, rfl⟩

theorem take?_append {i : Input} {bytes tail : List UInt8} {count : Nat}
    (hcount : bytes.length = count) (h : i.bytes = bytes ++ tail) :
    ∃ rest, i.take? count = some (bytes, rest) ∧ rest.1.bytes = tail := by
  subst hcount
  have hle : bytes.length ≤ i.size := by
    rw [Input.size_eq_of_bytes h, List.length_append]
    omega
  simp only [Input.take?, dif_pos hle, h, List.take_left']
  exact ⟨_, rfl, List.drop_left⟩

theorem toNat_ofNat_of_lt {n : Nat} (h : n < 256) : (UInt8.ofNat n).toNat = n := by
  rw [UInt8.toNat_ofNat']
  exact Nat.mod_eq_of_lt h

/-- A number is read back if the groups suffice; the last one holds a single bit. -/
theorem readGroups_encodeVarint (groups : Nat) {n : Nat} (hn : n < 2 * 128 ^ groups) {i : Input}
    {tail : List UInt8} (h : i.bytes = encodeVarint n ++ tail) :
    ∃ rest, readGroups (groups + 1) i = some (n, rest) ∧ rest.1.bytes = tail := by
  induction groups generalizing n i with
  | zero =>
    rw [encodeVarint, if_pos (by omega)] at h
    obtain ⟨rest, hnext, htail⟩ := next?_cons h
    have hb : (UInt8.ofNat n).toNat = n := toNat_ofNat_of_lt (by omega)
    refine ⟨rest, ?_, htail⟩
    simp only [readGroups, hnext]
    simp [UInt8.lt_iff_toNat_lt, hb]
    omega
  | succ groups ih =>
    rw [encodeVarint] at h
    split at h
    · next hlt =>
      obtain ⟨rest, hnext, htail⟩ := next?_cons h
      have hb : (UInt8.ofNat n).toNat = n := toNat_ofNat_of_lt (by omega)
      refine ⟨rest, ?_, htail⟩
      rw [readGroups]
      simp [hnext, UInt8.lt_iff_toNat_lt, hb, hlt]
    · next hge =>
      obtain ⟨high, hnext, hhigh⟩ := next?_cons h
      obtain ⟨rest, hread, htail⟩ := ih (n := n / 128) (by omega) hhigh
      have hb : (UInt8.ofNat (n % 128 + 128)).toNat = n % 128 + 128 := toNat_ofNat_of_lt (by omega)
      generalize UInt8.ofNat (n % 128 + 128) = b at hnext hb
      have hmore : ¬ b < 128 := by
        rw [UInt8.lt_iff_toNat_lt, hb]
        exact Nat.not_lt.2 (Nat.le_add_left _ _)
      refine ⟨⟨rest.1, Nat.lt_trans rest.2 high.2⟩, ?_, htail⟩
      rw [readGroups]
      simp [hnext, hmore, hb, hread, Nat.mod_add_div]

theorem readVarint_encodeVarint {n : Nat} (hn : n < UInt64.size) {i : Input} {tail : List UInt8}
    (h : i.bytes = encodeVarint n ++ tail) :
    ∃ rest, readVarint i = some (n, rest) ∧ rest.1.bytes = tail :=
  readGroups_encodeVarint 9 hn h

theorem ofNat?_toNat (type : WireType) : WireType.ofNat? type.toNat = some type := by
  cases type <;> rfl

theorem toNat_lt_eight (type : WireType) : type.toNat < 8 := by
  cases type <;> decide

/-- A key is read back if it has a field number that fits. -/
theorem readKey_encode {key : Key} (hpos : 0 < key.field) (hlt : key.field < 2 ^ 29) {i : Input}
    {tail : List UInt8} (h : i.bytes = key.encode ++ tail) : Reads (readKey i) key tail := by
  have htype := toNat_lt_eight key.type
  have hdiv : (8 * key.field + key.type.toNat) / 8 = key.field := by omega
  have hmod : (8 * key.field + key.type.toNat) % 8 = key.type.toNat := by omega
  have hsize : 8 * key.field + key.type.toNat < UInt32.size := by
    rw [show UInt32.size = 8 * 2 ^ 29 from rfl]
    omega
  obtain ⟨rest, hread, htail⟩ :=
    readVarint_encodeVarint (Nat.lt_trans hsize (by decide)) h
  refine ⟨rest, ?_, htail⟩
  simp only [readKey, hread, hdiv, hmod, ofNat?_toNat, if_neg (Nat.not_le.2 hsize),
    if_neg (Nat.ne_of_gt hpos)]

@[simp] theorem length_encodeFloat (x : Binary32) : (encodeFloat x).length = 4 := rfl

theorem ofBits_toBits {F : Format} (x : Binary F) : Binary.ofBits x.toBits = x := by
  have hpos : 0 < F.signWeight := Nat.zero_lt_of_lt x.rank_lt
  obtain ⟨negative, rank, hrank⟩ := x
  cases negative <;>
    simp [Binary.ofBits, Binary.toBits, Nat.mod_eq_of_lt hrank, Nat.div_eq_of_lt hrank,
      Nat.add_div_left _ hpos]

@[simp] theorem wordOfBytes_encodeFloat (x : Binary32) :
    wordOfBytes (encodeFloat x) = x.toBits := by
  have hlt : x.toBits < 2 ^ 32 := by
    have hrank : x.rank < 2 ^ 31 := x.rank_lt
    have hweight : Format.single.signWeight = 2 ^ 31 := rfl
    simp only [Binary.toBits, hweight]
    split <;> omega
  simp only [wordOfBytes, encodeFloat, List.foldr_cons, List.foldr_nil, UInt8.toNat_ofNat']
  omega

/-- A datum is read back bit for bit. -/
theorem readFloat_encodeFloat {x : Binary32} {i : Input} {tail : List UInt8}
    (h : i.bytes = encodeFloat x ++ tail) : Reads (readFloat i) x tail := by
  obtain ⟨rest, htake, htail⟩ := take?_append (length_encodeFloat x) h
  refine ⟨⟨rest.1, by omega⟩, ?_, htail⟩
  simp only [readFloat, htake, wordOfBytes_encodeFloat, ofBits_toBits]

/-- A field is its key and a payload that the message merges. -/
theorem fieldStep_reads {merge : α → Key → (i : Input) → Except Failure (α × i.Rest)} {key : Key}
    {a a' : α} {payload tail : List UInt8} (hpos : 0 < key.field) (hlt : key.field < 2 ^ 29)
    (hmerge : ∀ i : Input, i.bytes = payload ++ tail → Reads (merge a key i) a' tail) {i : Input}
    (h : i.bytes = key.encode ++ payload ++ tail) : Reads (fieldStep merge a i) a' tail := by
  rw [List.append_assoc] at h
  obtain ⟨body, hkey, hbody⟩ := readKey_encode hpos hlt h
  obtain ⟨rest, hrest, htail⟩ := hmerge body.1 hbody
  refine ⟨⟨rest.1, Nat.lt_of_le_of_lt rest.2 body.2⟩, ?_, htail⟩
  simp only [fieldStep, hkey, hrest]

theorem fieldStep_delimited {merge : α → Key → (i : Input) → Except Failure (α × i.Rest)}
    {field : Nat} {a a' : α} {body tail : List UInt8} (hpos : 0 < field) (hlt : field < 2 ^ 29)
    (hmerge : ∀ i : Input, i.bytes = encodeVarint body.length ++ body ++ tail →
      Reads (merge a ⟨field, .delimited⟩ i) a' tail) {i : Input}
    (h : i.bytes = encodeDelimited field body ++ tail) : Reads (fieldStep merge a i) a' tail := by
  rw [encodeDelimited, List.append_assoc (Key.encode _)] at h
  exact fieldStep_reads hpos hlt hmerge h

section

variable {step : α → (i : Input) → Except Failure (α × i.Shorter)} {tail : List UInt8}

/-- The loop ends where the bytes of the message do. -/
theorem mergeUntil_go_nil (a : α) {start i : Input} (hle : i.size ≤ start.size)
    (h : i.bytes = tail) : Reads (mergeUntil.go tail.length step start a i hle) a tail := by
  have hsize : i.size = tail.length := Input.size_eq_of_bytes h
  rw [mergeUntil.go, if_pos (Nat.le_of_eq hsize), if_pos hsize]
  exact ⟨_, rfl, h⟩

/-- Before that it takes a step and goes on with what the step left. -/
theorem mergeUntil_go_cons {a a' a'' : α} {start i : Input} (hle : i.size ≤ start.size)
    {rest : List UInt8} (hstep : Reads (step a i) a' (rest ++ tail))
    (hgo : ∀ (j : Input) (hle : j.size ≤ start.size), j.bytes = rest ++ tail →
      Reads (mergeUntil.go tail.length step start a' j hle) a'' tail) :
    Reads (mergeUntil.go tail.length step start a i hle) a'' tail := by
  obtain ⟨left, hleft, hbytes⟩ := hstep
  have hsize : tail.length < i.size := by
    have hlt := left.2
    rw [Input.size_eq_of_bytes hbytes, List.length_append] at hlt
    omega
  rw [mergeUntil.go, if_neg (Nat.not_le.2 hsize)]
  simp only [hleft]
  exact hgo left.1 _ hbytes

/-- The loop over the fields of a message merges a list of written items one after the other. `Inv`
is what the merged message satisfies all the way, as the items may be written for such a message
only. -/
theorem mergeUntil_flatMap {encode : β → List UInt8} {update : α → β → α} (Inv : α → Prop)
    {items : List β} {a : α} (ha : Inv a)
    (hstep : ∀ b ∈ items, ∀ a, Inv a → Inv (update a b) ∧ ∀ (i : Input) (tail : List UInt8),
      i.bytes = encode b ++ tail → Reads (step a i) (update a b) tail)
    {start : Input} (h : start.bytes = items.flatMap encode ++ tail) :
    Reads (mergeUntil tail.length step a start) (items.foldl update a) tail := by
  suffices hgo : ∀ (a : α) (i : Input) (hle : i.size ≤ start.size), Inv a →
      i.bytes = items.flatMap encode ++ tail →
        Reads (mergeUntil.go tail.length step start a i hle) (items.foldl update a) tail from
    hgo a start (Nat.le_refl _) ha h
  clear h ha a
  induction items with
  | nil => exact fun a i hle _ h => mergeUntil_go_nil a hle h
  | cons b items ih =>
    intro a i hle ha h
    obtain ⟨hinv, hread⟩ := hstep b List.mem_cons_self a ha
    rw [List.flatMap_cons, List.append_assoc] at h
    exact mergeUntil_go_cons hle (hread i _ h) fun j hle hj =>
      ih (fun b hb => hstep b (List.mem_cons_of_mem _ hb)) _ j hle hinv hj

/-- A message may consist of one field. -/
theorem mergeUntil_one {a a' : α} {start : Input} (hstep : Reads (step a start) a' tail) :
    Reads (mergeUntil tail.length step a start) a' tail := by
  have hstep' : Reads (step a start) a' ([] ++ tail) := hstep
  exact mergeUntil_go_cons (Nat.le_refl _) hstep' fun j hle hj => mergeUntil_go_nil a' hle hj

/-- A length and as many bytes are merged by the loop over these bytes alone. -/
theorem mergeDelimited_reads {a a' : α} {body : List UInt8} (hbody : body.length < UInt64.size)
    (hmerge : ∀ i : Input, i.bytes = body ++ tail → Reads (mergeUntil tail.length step a i) a' tail)
    {i : Input} (h : i.bytes = encodeVarint body.length ++ body ++ tail) :
    Reads (mergeDelimited step a i) a' tail := by
  rw [List.append_assoc] at h
  obtain ⟨inner, hlength, hinner⟩ := readVarint_encodeVarint hbody h
  obtain ⟨rest, hrest, htail⟩ := hmerge inner.1 hinner
  have hsize := Input.size_eq_of_bytes hinner
  rw [List.length_append] at hsize
  have hlimit : inner.1.size - body.length = tail.length := by omega
  refine ⟨inner.toRest.trans rest, ?_, htail⟩
  simp only [mergeDelimited, hlength, if_neg (show ¬inner.1.size < body.length by omega), hlimit,
    hrest]
  rfl

end

/-- A message is all fields of some bytes. -/
theorem mergeBytes_eq {merge : Nat → α → Key → (i : Input) → Except Failure (α × i.Rest)}
    {a a' : α} {bytes : List UInt8}
    (h : ∀ i : Input, i.bytes = bytes ++ [] →
      Reads (mergeUntil 0 (fieldStep (merge depthLimit)) a i) a' []) :
    mergeBytes merge a bytes = .ok a' := by
  obtain ⟨rest, hrest, -⟩ := h (.ofList bytes) (List.append_nil bytes).symm
  simp only [mergeBytes, hrest]
  rfl

end Planimeter.Wire
