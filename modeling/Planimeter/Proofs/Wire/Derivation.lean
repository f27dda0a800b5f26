import Planimeter.Proofs.Wire.Grammar
/-!
# Reading by a grammar

A reader follows a grammar if it comes from a message and an input to exactly those messages that
result from adding the items of some bytes that the grammar derives, and leaves the bytes behind
them. A field follows its grammar if its payloads do, the loop over fields if each field does, and
so does a body with its length in front. The main statements are that a message is merged if and
only if its bytes are derivable, and that bytes behind derivable ones are merged as if they stood
alone.
-/
namespace Planimeter.Wire

section

variable {α α' : Type} {P Q : Input → Prop} {a a' : α} {b : α'} {tail : List UInt8}

theorem not_reads_error {e : Failure} : ¬Reads (P := P) (.error e) a tail := by
  rintro ⟨rest, h, -⟩
  contradiction

@[simp] theorem reads_within_iff {message field : String}
    {result : Except Failure (α × Subtype P)} :
    Reads (within message field result) a tail ↔ Reads result a tail := by
  cases result with
  | error e => exact iff_of_false not_reads_error not_reads_error
  | ok r => exact Iff.rfl

@[simp] theorem reads_expectType_iff {actual expected : WireType}
    {result : Except Failure (α × Subtype P)} :
    Reads (expectType actual expected result) a tail ↔ actual = expected ∧ Reads result a tail := by
  by_cases h : actual = expected
  · rw [expectType, if_pos h, and_iff_right h]
  · rw [expectType, if_neg h]
    exact iff_of_false not_reads_error fun hread => h hread.1

/-- A reader that passes on what another one read, changed by `f`. -/
theorem reads_map_iff {result : Except Failure (α × Subtype P)} {f : α → α'}
    {g : α × Subtype P → α' × Subtype Q}
    (hg : ∀ r, (g r).1 = f r.1 ∧ (g r).2.1 = r.2.1) :
    Reads (result.map g) b tail ↔ ∃ a, Reads result a tail ∧ b = f a := by
  cases result with
  | error e =>
    refine iff_of_false not_reads_error ?_
    rintro ⟨a, h, -⟩
    exact not_reads_error h
  | ok r =>
    obtain ⟨hf, hrest⟩ := hg r
    constructor
    · rintro ⟨rest, h, rfl⟩
      have hr : g r = (b, rest) := Except.ok.inj h
      rw [hr] at hf hrest
      exact ⟨r.1, ⟨r.2, rfl, by rw [← hrest]⟩, hf⟩
    · rintro ⟨a, ⟨rest, h, rfl⟩, rfl⟩
      obtain rfl : r = (a, rest) := Except.ok.inj h
      exact ⟨(g (a, rest)).2, by rw [← hf]; rfl, by rw [hrest]⟩

/-- A reader that leaves the message as it is. -/
@[simp] theorem reads_passing_iff {result : Except Failure (Subtype P)} :
    Reads (result.map fun rest => (a, rest)) a' tail ↔ Passes result tail ∧ a' = a := by
  cases result with
  | error e =>
    refine iff_of_false not_reads_error ?_
    rintro ⟨⟨rest, h, -⟩, -⟩
    contradiction
  | ok r =>
    constructor
    · rintro ⟨rest, h, rfl⟩
      obtain ⟨rfl, rfl⟩ := Prod.mk.inj (Except.ok.inj h)
      exact ⟨⟨r, rfl, rfl⟩, rfl⟩
    · rintro ⟨⟨rest, h, rfl⟩, rfl⟩
      obtain rfl := Except.ok.inj h
      exact ⟨r, rfl, rfl⟩

end

section

variable {α β : Type} {Inv : α → Prop} {add : α → β → α}

/-- From a message with the property `Inv` the reader takes what the language has and adds its items
to the message. -/
def Follows (Inv : α → Prop) (add : α → β → α) (Language : List UInt8 → List β → Prop)
    {P : Input → Input → Prop} (read : α → (i : Input) → Except Failure (α × Subtype (P i))) :
    Prop :=
  ∀ a, Inv a → ∀ i a' tail, Reads (read a i) a' tail ↔
    ∃ bytes items, Language bytes items ∧ i.bytes = bytes ++ tail ∧ a' = items.foldl add a

theorem foldl_inv (hadd : ∀ a b, Inv a → Inv (add a b)) {items : List β} {a : α} (ha : Inv a) :
    Inv (items.foldl add a) := by
  induction items generalizing a with
  | nil => exact ha
  | cons b items ih => exact ih (hadd a b ha)

theorem fieldStep_follows {merge : α → Key → (i : Input) → Except Failure (α × i.Rest)}
    {Payload : Key → List UInt8 → List β → Prop}
    (h : ∀ key, 0 < key.field → Follows Inv add (Payload key) fun a i => merge a key i) :
    Follows Inv add (Field Payload) (fieldStep merge) := by
  intro a ha i a' tail
  constructor
  · rintro ⟨rest, hstep, rfl⟩
    unfold fieldStep at hstep
    split at hstep
    · contradiction
    · next key next hlt hkey =>
      split at hstep
      · contradiction
      · next a'' left hle hmerge =>
        obtain ⟨rfl, rfl⟩ := Prod.mk.inj (Except.ok.inj hstep)
        obtain ⟨bytes, hbytes, hi⟩ := readKey_iff.1 ⟨_, hkey, rfl⟩
        obtain ⟨payload, items, hpayload, hnext, hitems⟩ :=
          (h key hbytes.pos a ha next a'' left.bytes).1 ⟨_, hmerge, rfl⟩
        exact ⟨_, items, .mk hbytes hpayload, by rw [hi, hnext, List.append_assoc], hitems⟩
  · rintro ⟨bytes, items, ⟨hkey, hpayload⟩, hi, rfl⟩
    rw [List.append_assoc] at hi
    obtain ⟨next, hread, hnext⟩ := readKey_iff.2 ⟨_, hkey, hi⟩
    obtain ⟨rest, hmerge, htail⟩ :=
      (h _ hkey.pos a ha next.1 _ tail).2 ⟨_, items, hpayload, hnext, rfl⟩
    refine ⟨⟨rest.1, Nat.lt_of_le_of_lt rest.2 next.2⟩, ?_, htail⟩
    simp only [fieldStep, hread, hmerge]

variable {Piece : List UInt8 → List β → Prop}
  {step : α → (i : Input) → Except Failure (α × i.Shorter)}

theorem sequence_of_go (hstep : Follows Inv add Piece step)
    (hadd : ∀ a b, Inv a → Inv (add a b)) {limit : Nat} {a a' : α} (ha : Inv a)
    {start i : Input} {hle : i.size ≤ start.size} {tail : List UInt8}
    (h : Reads (mergeUntil.go limit step start a i hle) a' tail) :
    tail.length = limit ∧ ∃ bytes items, Sequence Piece bytes items ∧ i.bytes = bytes ++ tail ∧
      a' = items.foldl add a := by
  fun_induction mergeUntil.go limit step start a i hle with
  | case1 a i hle hlimit hsize =>
    obtain ⟨rest, hrest, rfl⟩ := h
    obtain ⟨rfl, rfl⟩ := Prod.mk.inj (Except.ok.inj hrest)
    exact ⟨by rw [← hsize, i.size_eq], [], [], .nil, rfl, rfl⟩
  | case2 | case3 => exact absurd h not_reads_error
  | case4 a i hle hlimit a'' next hlt hread ih =>
    obtain ⟨piece, items, hpiece, hi, rfl⟩ := (hstep a ha i a'' next.bytes).1 ⟨_, hread, rfl⟩
    obtain ⟨hlength, rest, more, hrest, hnext, rfl⟩ := ih (foldl_inv hadd ha) h
    refine ⟨hlength, piece ++ rest, items ++ more, .cons hpiece hrest, ?_, ?_⟩
    · rw [hi, hnext, List.append_assoc]
    · rw [List.foldl_append]

theorem go_of_sequence (hstep : Follows Inv add Piece step)
    (hadd : ∀ a b, Inv a → Inv (add a b)) {bytes : List UInt8} {items : List β}
    (h : Sequence Piece bytes items) {a : α} (ha : Inv a) {start i : Input}
    {hle : i.size ≤ start.size} {tail : List UInt8} (hi : i.bytes = bytes ++ tail) :
    Reads (mergeUntil.go tail.length step start a i hle) (items.foldl add a) tail := by
  induction h generalizing a i with
  | nil => exact mergeUntil_go_nil a hle hi
  | @cons piece rest items more hpiece hrest ih =>
    rw [List.append_assoc] at hi
    rw [List.foldl_append]
    refine mergeUntil_go_cons hle ((hstep a ha i _ _).2 ⟨piece, items, hpiece, hi, rfl⟩) ?_
    exact fun j hle hj => ih (foldl_inv hadd ha) hj

/-- The loop ends at the given number of bytes, having added the items of all pieces before. -/
theorem mergeUntil_iff (hstep : Follows Inv add Piece step)
    (hadd : ∀ a b, Inv a → Inv (add a b)) {limit : Nat} {a a' : α} (ha : Inv a) {i : Input}
    {tail : List UInt8} : Reads (mergeUntil limit step a i) a' tail ↔ tail.length = limit ∧
      ∃ bytes items, Sequence Piece bytes items ∧ i.bytes = bytes ++ tail ∧
        a' = items.foldl add a := by
  constructor
  · exact sequence_of_go hstep hadd ha
  · rintro ⟨rfl, bytes, items, h, hi, rfl⟩
    exact go_of_sequence hstep hadd h ha hi

theorem mergeDelimited_follows (hstep : Follows Inv add Piece step)
    (hadd : ∀ a b, Inv a → Inv (add a b)) :
    Follows Inv add (Delimited (Sequence Piece)) (mergeDelimited step) := by
  intro a ha i a' tail
  constructor
  · intro h
    unfold mergeDelimited at h
    split at h
    · exact absurd h not_reads_error
    · next n body hread =>
      split at h
      · exact absurd h not_reads_error
      · next hsize =>
        obtain ⟨a'', hmerge, rfl⟩ := (reads_map_iff (f := id) (by exact fun r => ⟨rfl, rfl⟩)).1 h
        obtain ⟨htail, bytes, items, hbytes, hbody, rfl⟩ := (mergeUntil_iff hstep hadd ha).1 hmerge
        obtain ⟨length, hlength, hi⟩ := readVarint_iff.1 ⟨body, hread, rfl⟩
        have hn : n = bytes.length := by
          have hbodySize := Input.size_eq_of_bytes hbody
          rw [List.length_append] at hbodySize
          omega
        subst hn
        exact ⟨_, items, .mk hlength hbytes, by rw [hi, hbody, List.append_assoc], rfl⟩
  · rintro ⟨bytes, items, ⟨hlength, hbody⟩, hi, rfl⟩
    rw [List.append_assoc] at hi
    obtain ⟨body, hread, hnext⟩ := readVarint_iff.2 ⟨_, hlength, hi⟩
    have hsize := Input.size_eq_of_bytes hnext
    rw [List.length_append] at hsize
    unfold mergeDelimited
    simp only [hread]
    rw [if_neg (by omega), reads_map_iff (f := id) (by exact fun r => ⟨rfl, rfl⟩)]
    exact ⟨_, (mergeUntil_iff hstep hadd ha).2 ⟨by omega, _, items, hbody, hnext, rfl⟩, rfl⟩

theorem Input.ext_bytes {i j : Input} (h : i.bytes = j.bytes) : i = j := by
  obtain ⟨bytes, size, hsize⟩ := i
  obtain ⟨bytes', size', hsize'⟩ := j
  obtain rfl : bytes = bytes' := h
  obtain rfl : size = size' := hsize.trans hsize'.symm
  rfl

/-- The loop goes on behind derivable bytes from what these make of the message. -/
theorem go_append (hstep : Follows Inv add Piece step) (hadd : ∀ a b, Inv a → Inv (add a b))
    {bytes more : List UInt8} {items : List β} (h : Sequence Piece bytes items) {limit : Nat}
    (hlimit : limit ≤ more.length) {a : α} (ha : Inv a) {start i : Input}
    {hle : i.size ≤ start.size} (hi : i.bytes = bytes ++ more) :
    ∃ (j : Input) (hle' : j.size ≤ start.size), j.bytes = more ∧
      mergeUntil.go limit step start a i hle =
        mergeUntil.go limit step start (items.foldl add a) j hle' := by
  induction h generalizing a i with
  | nil => exact ⟨i, hle, hi, rfl⟩
  | @cons piece rest items more' hpiece hrest ih =>
    rw [List.append_assoc] at hi
    obtain ⟨left, hread, hleft⟩ := (hstep a ha i _ _).2 ⟨piece, items, hpiece, hi, rfl⟩
    have hsize := Input.size_eq_of_bytes hleft
    have hlt := left.2
    rw [List.length_append] at hsize
    rw [mergeUntil.go, if_neg (by omega), List.foldl_append]
    simp only [hread]
    exact ih (foldl_inv hadd ha) hleft

/-- The input that a loop began with does not matter for what it merges. -/
theorem map_go_eq {limit : Nat} {a : α} {start start' i : Input} {hle : i.size ≤ start.size}
    {hle' : i.size ≤ start'.size} :
    (mergeUntil.go limit step start a i hle).map Prod.fst =
      (mergeUntil.go limit step start' a i hle').map Prod.fst := by
  fun_induction mergeUntil.go limit step start a i hle with
  | case1 a i hle hlimit hsize => rw [mergeUntil.go, if_pos hlimit, if_pos hsize]; rfl
  | case2 a i hle hlimit hsize => rw [mergeUntil.go, if_pos hlimit, if_neg hsize]; rfl
  | case3 a i hle hlimit e hread =>
    rw [mergeUntil.go, if_neg hlimit]
    simp only [hread]
    rfl
  | case4 a i hle hlimit a' next hlt hread ih =>
    conv => rhs; rw [mergeUntil.go, if_neg hlimit]
    simp only [hread]
    exact ih

variable {merge : Nat → α → Key → (i : Input) → Except Failure (α × i.Rest)}
  {Payload : Key → List UInt8 → List β → Prop}

/-- Bytes are merged into a message if and only if they are derivable. -/
theorem mergeBytes_iff
    (hmerge : ∀ key, 0 < key.field → Follows Inv add (Payload key) fun a i =>
      merge depthLimit a key i)
    (hadd : ∀ a b, Inv a → Inv (add a b)) {a a' : α} (ha : Inv a) {bytes : List UInt8} :
    mergeBytes merge a bytes = .ok a' ↔
      ∃ items, Fields Payload bytes items ∧ a' = items.foldl add a := by
  have hloop (tail : List UInt8) : Reads (mergeUntil 0 (fieldStep (merge depthLimit)) a
      (.ofList bytes)) a' tail ↔ tail.length = 0 ∧ ∃ front items, Fields Payload front items ∧
        bytes = front ++ tail ∧ a' = items.foldl add a :=
    mergeUntil_iff (fieldStep_follows hmerge) hadd ha
  rw [mergeBytes, map_eq_ok_iff]
  constructor
  · rintro ⟨⟨a', rest⟩, h, rfl⟩
    obtain ⟨htail, front, items, hfront, hbytes, hitems⟩ := (hloop rest.1.bytes).1 ⟨rest, h, rfl⟩
    rw [List.length_eq_zero_iff.1 htail, List.append_nil] at hbytes
    exact ⟨items, hbytes ▸ hfront, hitems⟩
  · rintro ⟨items, h, rfl⟩
    obtain ⟨rest, hread, -⟩ :=
      (hloop []).2 ⟨rfl, bytes, items, h, (List.append_nil bytes).symm, rfl⟩
    exact ⟨_, hread, rfl⟩

/-- What is behind derivable bytes is merged into what they make of a message. -/
theorem mergeBytes_append
    (hmerge : ∀ key, 0 < key.field → Follows Inv add (Payload key) fun a i =>
      merge depthLimit a key i)
    (hadd : ∀ a b, Inv a → Inv (add a b)) {a : α} (ha : Inv a) {bytes more : List UInt8}
    {items : List β} (h : Fields Payload bytes items) :
    mergeBytes merge a (bytes ++ more) = mergeBytes merge (items.foldl add a) more := by
  have hle := Nat.le_refl (Input.ofList (bytes ++ more)).size
  obtain ⟨j, hle', hj, hgo⟩ :=
    @go_append _ _ _ _ _ _ (fieldStep_follows hmerge) hadd _ more _ h 0 (Nat.zero_le _) a ha _ _
      hle rfl
  obtain rfl : j = .ofList more := Input.ext_bytes hj
  rw [mergeBytes, mergeUntil, hgo, map_go_eq]
  rfl

theorem Spelled.append_inj {bytes bytes' tail tail' : List UInt8} {n n' : Nat}
    (h : IsVarint bytes n) (h' : IsVarint bytes' n') (heq : bytes ++ tail = bytes' ++ tail') :
    n = n' ∧ bytes = bytes' ∧ tail = tail' := by
  have hi : (Input.ofList (bytes ++ tail)).bytes = bytes ++ tail := rfl
  obtain ⟨rest, hread, hrest⟩ := readVarint_iff.2 ⟨bytes, h, hi⟩
  obtain ⟨rest', hread', hrest'⟩ := readVarint_iff.2 ⟨bytes', h', hi.trans heq⟩
  obtain ⟨rfl, rfl⟩ := Prod.mk.inj (Option.some.inj (hread.symm.trans hread'))
  obtain rfl : tail = tail' := hrest.symm.trans hrest'
  exact ⟨rfl, List.append_cancel_right heq, rfl⟩

theorem IsKey.append_inj {bytes bytes' tail tail' : List UInt8} {key key' : Key}
    (h : IsKey bytes key) (h' : IsKey bytes' key') (heq : bytes ++ tail = bytes' ++ tail') :
    key = key' ∧ bytes = bytes' ∧ tail = tail' := by
  have hi : (Input.ofList (bytes ++ tail)).bytes = bytes ++ tail := rfl
  obtain ⟨rest, hread, hrest⟩ := readKey_iff.2 ⟨bytes, h, hi⟩
  obtain ⟨rest', hread', hrest'⟩ := readKey_iff.2 ⟨bytes', h', hi.trans heq⟩
  obtain ⟨rfl, rfl⟩ := Prod.mk.inj (Except.ok.inj (hread.symm.trans hread'))
  obtain rfl : tail = tail' := hrest.symm.trans hrest'
  exact ⟨rfl, List.append_cancel_right heq, rfl⟩

/-- If a message is merged and a field of it is known to hold a body behind its length, then the
bytes announced there are such a body, whatever is behind them. -/
theorem body_of_mergeBytes {γ : Type} {Body : List UInt8 → List γ → Prop} {key : Key}
    (hkey : ∀ payload items, Payload key payload items → ∃ inner, Delimited Body payload inner)
    (hmerge : ∀ key, 0 < key.field → Follows Inv add (Payload key) fun a i =>
      merge depthLimit a key i)
    (hadd : ∀ a b, Inv a → Inv (add a b)) {a a' : α} (ha : Inv a)
    {before start length body after : List UInt8} {items : List β}
    (hbefore : Fields Payload before items) (hstart : IsKey start key)
    (hlength : IsVarint length body.length)
    (h : mergeBytes merge a (before ++ (start ++ (length ++ (body ++ after)))) = .ok a') :
    ∃ inner, Body body inner := by
  rw [mergeBytes_append hmerge hadd ha hbefore, mergeBytes_iff hmerge hadd (foldl_inv hadd ha)] at h
  obtain ⟨more, hmore, -⟩ := h
  generalize hrest : start ++ (length ++ (body ++ after)) = rest at hmore
  cases hmore with
  | nil => exact absurd (List.append_eq_nil_iff.1 hrest).1 hstart.varint.ne_nil
  | cons hpiece =>
    obtain ⟨hkey', hpayload⟩ := hpiece
    rw [List.append_assoc] at hrest
    obtain ⟨rfl, -, hrest⟩ := hstart.append_inj hkey' hrest
    obtain ⟨inner, hinner⟩ := hkey _ _ hpayload
    obtain ⟨hlength', hbody⟩ := hinner
    rw [List.append_assoc] at hrest
    obtain ⟨hsize, -, hrest⟩ := hlength.append_inj hlength' hrest
    obtain ⟨rfl, -⟩ := List.append_inj hrest hsize
    exact ⟨inner, hbody⟩

end

end Planimeter.Wire
