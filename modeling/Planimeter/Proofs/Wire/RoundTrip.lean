import Planimeter.Proofs.Wire.Reading
/-!
# Messages read back

Decoding the encoding of a message gives the message back. Dimensions equal to zero are not written,
so that a negative zero comes back as a positive one; a shape that is missing and a shape with no
dimension written stay apart, as the variant is written even when it is empty. Areas are written one
and all, and come back bit for bit.
-/
namespace Planimeter.Wire

@[simp] theorem length_encodeVarint_of_lt {n : Nat} (h : n < 128) :
    (encodeVarint n).length = 1 := by
  rw [encodeVarint, if_pos h]
  rfl

/-- A dimension that is written takes a byte for its key and four for the datum. -/
@[simp] theorem length_encodeDims {field : Nat} {dims : List Binary32}
    (h : field + dims.length ≤ 16) :
    (encodeDims field dims).length = 5 * dims.countP fun x => !x.isZero := by
  induction dims generalizing field with
  | nil => rfl
  | cons x dims ih =>
    rw [List.length_cons] at h
    have hkey : (Key.encode ⟨field, .fixed32⟩).length = 1 :=
      length_encodeVarint_of_lt (by simp only [WireType.toNat]; omega)
    rw [encodeDims, List.length_append, ih (by omega), List.countP_cons]
    cases x.isZero <;> simp [hkey]
    omega

theorem length_encodeDims_le (s : Shape) : (encodeDims 1 s.dims).length ≤ 15 := by
  have harity : s.dims.length ≤ 3 := by cases s <;> simp [Shape.dims]
  have hcount := List.countP_le_length (p := fun x => !x.isZero) (l := s.dims)
  rw [length_encodeDims (by omega)]
  omega

@[simp] theorem length_encodeDelimited {field : Nat} {body : List UInt8} (hfield : field < 16)
    (hbody : body.length < 128) : (encodeDelimited field body).length = body.length + 2 := by
  have hkey : (Key.encode ⟨field, .delimited⟩).length = 1 :=
    length_encodeVarint_of_lt (by simp only [WireType.toNat]; omega)
  simp only [encodeDelimited, List.length_append, hkey, length_encodeVarint_of_lt hbody]
  omega

theorem length_encodeShape_le (m : Option Shape) : (encodeShape m).length ≤ 17 := by
  cases m with
  | none => simp [encodeShape]
  | some s =>
    have hle := length_encodeDims_le s
    have hnumber : s.kind.number < 16 := by cases s.kind <;> decide
    rw [encodeShape, length_encodeDelimited hnumber (by omega)]
    omega

@[simp] theorem length_flatMap_encodeFloat (values : List Binary32) :
    (values.flatMap encodeFloat).length = 4 * values.length := by
  induction values with
  | nil => rfl
  | cons x values ih =>
    rw [List.flatMap_cons, List.length_append, ih, length_encodeFloat, List.length_cons]
    omega

@[simp] theorem kind_set (s : Shape) (place : Nat) (x : Binary32) :
    (s.set place x).kind = s.kind := by
  rcases place with _ | _ | _ | place <;> cases s <;> rfl

/-- The fields of a variant are its dimensions with their numbers, without those equal to zero. -/
theorem encodeDims_eq_flatMap (field : Nat) (dims : List Binary32) :
    encodeDims field dims = ((dims.zipIdx field).filter fun d => !d.1.isZero).flatMap fun d =>
      Key.encode ⟨d.2, .fixed32⟩ ++ encodeFloat d.1 := by
  induction dims generalizing field with
  | nil => rfl
  | cons x dims ih =>
    rw [encodeDims, ih, List.zipIdx_cons]
    cases hzero : x.isZero <;> simp [hzero]

/-- A dimension replaces the one at its place. -/
theorem mergeDim_reads (budget : Nat) {s : Shape} {place : Nat} (hplace : place < s.kind.arity)
    {x : Binary32} {i : Input} {tail : List UInt8} (h : i.bytes = encodeFloat x ++ tail) :
    Reads (mergeDim budget s ⟨place + 1, .fixed32⟩ i) (s.set place x) tail := by
  have hname : place < s.kind.fieldNames.length := by
    cases hk : s.kind <;> rw [hk] at hplace <;> exact hplace
  simp only [mergeDim, Nat.add_sub_cancel, List.getElem?_eq_getElem hname]
  apply Reads.within
  apply Reads.expectType
  exact (readFloat_encodeFloat h).map fun _ => ⟨rfl, rfl⟩

/-- Setting the dimensions that were written makes the shape up again, as those that were not are
zero to begin with. -/
theorem foldl_set_dims (s : Shape) :
    ((s.dims.zipIdx 1).filter fun d => !d.1.isZero).foldl (fun t d => t.set (d.2 - 1) d.1)
      (.zero s.kind) = s.map Binary.unsignZero := by
  cases s <;>
    simp only [Shape.dims, Shape.kind, Shape.zero, Shape.map, List.zipIdx_cons, List.zipIdx_nil,
      Binary.unsignZero, List.filter_cons, List.filter_nil, Bool.not_eq_true']
  all_goals grind [Shape.set]

/-- The loop over the fields of a variant makes the shape up from one with every dimension zero. -/
theorem mergeVariant_reads (budget : Nat) (s : Shape) {i : Input} {tail : List UInt8}
    (h : i.bytes = encodeDims 1 s.dims ++ tail) :
    Reads (mergeUntil tail.length (fieldStep (mergeDim budget)) (.zero s.kind) i)
      (s.map Binary.unsignZero) tail := by
  rw [encodeDims_eq_flatMap] at h
  rw [← foldl_set_dims]
  refine mergeUntil_flatMap (fun t => t.kind = s.kind) (Shape.kind_zero s.kind) ?_ h
  rintro ⟨x, field⟩ hd t ht
  have hmem := (List.mem_filter.1 hd).1
  have hlow : 1 ≤ field := List.le_snd_of_mem_zipIdx hmem
  have hhigh : field < 1 + s.dims.length := List.snd_lt_add_of_mem_zipIdx hmem
  obtain ⟨place, rfl⟩ := Nat.exists_eq_add_of_le' hlow
  have hplace : place < t.kind.arity := by
    rw [ht, ← Shape.length_dims]
    omega
  have harity : t.kind.arity ≤ 3 := by cases t.kind <;> decide
  refine ⟨by rw [kind_set, ht], fun i tail h => ?_⟩
  exact fieldStep_reads (Nat.succ_pos place) (by dsimp only; omega)
    (fun j hj => mergeDim_reads budget hplace hj) h

@[simp] theorem ofNumber?_number (k : Kind) : Kind.ofNumber? k.number = some k := by
  cases k <;> rfl

/-- A message without a shape has no field, and one with a shape has the field of its variant. -/
theorem mergeShape_reads {budget : Nat} (hbudget : budget ≠ 0) (m : Option Shape) {i : Input}
    {tail : List UInt8} (h : i.bytes = encodeShape m ++ tail) :
    Reads (mergeUntil tail.length (fieldStep (mergeShape budget)) none i)
      (m.map (Shape.map Binary.unsignZero)) tail := by
  cases m with
  | none => exact mergeUntil_go_nil none (Nat.le_refl _) h
  | some s =>
    have hbody : (encodeDims 1 s.dims).length < UInt64.size :=
      Nat.lt_of_le_of_lt (length_encodeDims_le s) (by decide)
    have hnumber : 0 < s.kind.number ∧ s.kind.number < 2 ^ 29 := by
      cases s.kind <;> exact ⟨by decide, by decide⟩
    refine mergeUntil_one (fieldStep_delimited hnumber.1 hnumber.2 (fun j hj => ?_) h)
    simp only [mergeShape, ofNumber?_number, if_neg hbudget]
    apply Reads.within
    apply Reads.expectType
    exact (mergeDelimited_reads hbody (fun k hk => mergeVariant_reads _ s hk) hj).map
      fun _ => ⟨rfl, rfl⟩

theorem decodeShape_encodeShape (m : Option Shape) :
    decodeShape (encodeShape m) = .ok (m.map (Shape.map Binary.unsignZero)) :=
  mergeBytes_eq fun _ h => mergeShape_reads (by decide) m h

theorem decodeRequest_encodeRequest (shapes : List (Option Shape)) :
    decodeRequest (encodeRequest shapes) =
      .ok (shapes.map (Option.map (Shape.map Binary.unsignZero))) := by
  have hmerge : mergeBytes mergeRequest #[] (encodeRequest shapes) =
      .ok (shapes.foldl (fun a m => a.push (m.map (Shape.map Binary.unsignZero))) #[]) := by
    refine mergeBytes_eq fun i h => ?_
    refine mergeUntil_flatMap (fun _ => True) trivial (fun m _ a _ => ⟨trivial, ?_⟩) h
    intro i tail h
    have hbody : (encodeShape m).length < UInt64.size :=
      Nat.lt_of_le_of_lt (length_encodeShape_le m) (by decide)
    refine fieldStep_delimited (by decide) (by decide) (fun j hj => ?_) h
    simp only [mergeRequest, if_true]
    apply Reads.within
    apply Reads.expectType
    exact (mergeDelimited_reads hbody (fun k hk => mergeShape_reads (by decide) m hk) hj).map
      fun _ => ⟨rfl, rfl⟩
  simp [decodeRequest, hmerge, Except.map]

/-- The length of the values has to fit into the number that announces it. -/
theorem decodeResponse_encodeResponse {values : List Binary32}
    (h : 4 * values.length < UInt64.size) :
    decodeResponse (encodeResponse values) = .ok values := by
  have hpacked {a : Array Binary32} {i : Input} {tail : List UInt8}
      (h : i.bytes = values.flatMap encodeFloat ++ tail) :
      Reads (mergeUntil tail.length pushFloat a i) (values.foldl Array.push a) tail := by
    refine mergeUntil_flatMap (fun _ => True) trivial (fun x _ a _ => ⟨trivial, ?_⟩) h
    exact fun j tail hj => (readFloat_encodeFloat hj).map fun _ => ⟨rfl, rfl⟩
  have hmerge : mergeBytes mergeResponse #[] (encodeResponse values) =
      .ok (values.foldl Array.push #[]) := by
    refine mergeBytes_eq fun i hi => ?_
    cases values with
    | nil => exact mergeUntil_go_nil #[] (Nat.le_refl _) hi
    | cons x rest =>
      have hbody : ((x :: rest).flatMap encodeFloat).length < UInt64.size := by
        rwa [length_flatMap_encodeFloat]
      refine mergeUntil_one (fieldStep_delimited (by decide) (by decide) (fun j hj => ?_) hi)
      simp only [mergeResponse, if_true]
      exact (mergeDelimited_reads hbody (fun k hk => hpacked hk) hj).within _ _
  simp [decodeResponse, hmerge, Except.map]

/-- What is decoded from the encoding of a message is the message with every negative zero among its
dimensions made positive, and the areas themselves for a response. The length of the areas fits into
the 64 bits that announce it, as that of any list in memory does. -/
theorem decode_encode :
    (∀ m : Option Shape,
      decodeShape (encodeShape m) = .ok (m.map (Shape.map Binary.unsignZero))) ∧
    (∀ shapes : List (Option Shape), decodeRequest (encodeRequest shapes) =
      .ok (shapes.map (Option.map (Shape.map Binary.unsignZero)))) ∧
    (∀ values : List Binary32, 4 * values.length < UInt64.size →
      decodeResponse (encodeResponse values) = .ok values) :=
  ⟨decodeShape_encodeShape, decodeRequest_encodeRequest,
    fun _ h => decodeResponse_encodeResponse h⟩

/-- A NaN with a payload and a negative zero come back. -/
theorem decode_encode_nan_zero :
    4 * ([.ofBits 0xFFC00001, .ofBits 0x80000000] : List Binary32).length < UInt64.size ∧
      decodeResponse (encodeResponse [.ofBits 0xFFC00001, .ofBits 0x80000000]) =
        .ok [.ofBits 0xFFC00001, .ofBits 0x80000000] :=
  ⟨by decide, decode_encode.2.2 _ (by decide)⟩

end Planimeter.Wire
