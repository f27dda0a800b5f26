import Planimeter.Proofs.Client.Answers
import Planimeter.Proofs.Command.Areas
/-!
# Answers that are longer than their questions

A shape takes four bytes of a request and five more for each dimension that is not zero; its area
takes four bytes of the answer, and all areas together five more at most. An answer is therefore
longer than its request only if nothing but zeros was sent, and beyond the limit for messages only
if the request is within a shape of the limit. The main statement names these requests and follows
them to the client.
-/
namespace Planimeter

namespace Wire

theorem length_encodeVarint_le (k : Nat) {n : Nat} (h : n < 128 ^ (k + 1)) :
    (encodeVarint n).length ≤ k + 1 := by
  induction k generalizing n with
  | zero => exact Nat.le_of_eq (length_encodeVarint_of_lt h)
  | succ k ih =>
    rw [encodeVarint]
    split
    · exact Nat.le_add_left 1 (k + 1)
    · rw [List.length_cons]
      exact Nat.succ_le_succ (ih (by omega))

theorem lt_length_encodeVarint {k n : Nat} (h : 128 ^ k ≤ n) : k < (encodeVarint n).length := by
  induction k generalizing n with
  | zero =>
    rw [encodeVarint]
    split <;> exact Nat.succ_pos _
  | succ k ih =>
    have hpos : 0 < 128 ^ k := Nat.pow_pos (by decide)
    rw [encodeVarint, if_neg (by omega), List.length_cons]
    exact Nat.succ_lt_succ (ih (by omega))

/-- How many dimensions of the shapes are written. -/
def writtenDims (shapes : List Shape) : Nat := (shapes.flatMap Shape.dims).countP fun x => !x.isZero

@[simp] theorem writtenDims_eq_zero_iff {shapes : List Shape} :
    writtenDims shapes = 0 ↔ ∀ s ∈ shapes, ∀ x ∈ s.dims, x.isZero = true := by
  simp only [writtenDims, List.countP_eq_zero, List.mem_flatMap, Bool.not_eq_true',
    Bool.not_eq_false, forall_exists_index, and_imp]
  exact ⟨fun h s hs x hx => h x s hs hx, fun h x s hs hx => h s hs x hx⟩

@[simp] theorem writtenDims_cons (s : Shape) (shapes : List Shape) :
    writtenDims (s :: shapes) = (s.dims.countP fun x => !x.isZero) + writtenDims shapes := by
  rw [writtenDims, List.flatMap_cons, List.countP_append]
  rfl

@[simp] theorem length_encodeShape (s : Shape) :
    (encodeShape (some s)).length = 2 + 5 * s.dims.countP fun x => !x.isZero := by
  have harity : s.dims.length ≤ 3 := by cases s <;> simp [Shape.dims]
  have hnumber : s.kind.number < 16 := by cases s.kind <;> decide
  have hbody := length_encodeDims_le s
  rw [encodeShape, length_encodeDelimited hnumber (by omega), length_encodeDims (by omega),
    Nat.add_comm]

theorem length_encodeRequest (shapes : List Shape) :
    (encodeRequest (shapes.map some)).length = 4 * shapes.length + 5 * writtenDims shapes := by
  induction shapes with
  | nil => rfl
  | cons s shapes ih =>
    have hbody := length_encodeShape_le (some s)
    rw [List.map_cons, encodeRequest, List.flatMap_cons, ← encodeRequest, List.length_append,
      length_encodeDelimited (by decide) (by omega), length_encodeShape, ih, List.length_cons,
      writtenDims_cons]
    omega

theorem length_encodeResponse {values : List Binary32} (h : values ≠ []) :
    (encodeResponse values).length =
      1 + (encodeVarint (4 * values.length)).length + 4 * values.length := by
  have hkey : (Key.encode ⟨1, .delimited⟩).length = 1 := length_encodeVarint_of_lt (by decide)
  rw [encodeResponse, encodeDelimited, List.length_append, List.length_append, hkey,
    length_flatMap_encodeFloat]
  exact h

/-- Nothing but zeros, of either sign, and as many shapes as a request can hold or one less. -/
structure FillsWithZeros (shapes : List Shape) : Prop where
  zeros : ∀ s ∈ shapes, ∀ x ∈ s.dims, x.isZero = true
  count : shapes.length = 1048575 ∨ shapes.length = 1048576

/-- Of the requests within the limit, those whose answer is beyond it. -/
theorem limit_lt_encodeResponse_iff {shapes : List Shape} {values : List Binary32}
    (hcount : values.length = shapes.length)
    (h : (encodeRequest (shapes.map some)).length ≤ Rpc.messageLimit) :
    Rpc.messageLimit < (encodeResponse values).length ↔ FillsWithZeros shapes := by
  rw [length_encodeRequest, Rpc.messageLimit] at h
  rw [Rpc.messageLimit]
  constructor
  · intro hlong
    have hvalues : values ≠ [] := by
      rintro rfl
      exact absurd hlong (by decide)
    have hmost := length_encodeVarint_le 3 (n := 4 * shapes.length) (by omega)
    rw [length_encodeResponse hvalues, hcount] at hlong
    exact ⟨writtenDims_eq_zero_iff.1 (by omega), by omega⟩
  · rintro ⟨-, hedge⟩
    have hvalues : values ≠ [] := List.ne_nil_of_length_pos (by omega)
    have hleast := lt_length_encodeVarint (k := 3) (n := 4 * shapes.length) (by omega)
    rw [length_encodeResponse hvalues, hcount]
    omega

theorem FillsWithZeros.length_encodeRequest_le {shapes : List Shape} (h : FillsWithZeros shapes) :
    (encodeRequest (shapes.map some)).length ≤ Rpc.messageLimit := by
  have hcount := h.count
  rw [length_encodeRequest, writtenDims_eq_zero_iff.2 h.zeros, Rpc.messageLimit]
  omega

end Wire

/-- A batch that is answered with areas has a shape at every place. -/
theorem Calculation.exists_shapes_of_areas {f : Shape → Shape} {shapes : List (Option Shape)}
    {values : List Binary32} (h : areas (shapes.map (Option.map f)) = .ok values) :
    ∃ present : List Shape, shapes = present.map some := by
  induction shapes generalizing values with
  | nil => exact ⟨[], rfl⟩
  | cons m shapes ih =>
    cases m with
    | none => contradiction
    | some s =>
      cases hrest : areas (shapes.map (Option.map f)) with
      | ok rest =>
        obtain ⟨present, rfl⟩ := ih hrest
        exact ⟨s :: present, rfl⟩
      | error index => simp [areas, hrest] at h

namespace Session

/-- The request arrives, the service has areas for it, and the call fails after this one attempt
since the answer is too long. -/
def AnswerRefused (s : ClientSettings) (received : List Request) (r : Request) : Prop :=
  ∃ arrived values events,
    Peer.transmitRequest r = .ok arrived ∧ (Rpc.handle arrived).result = .ok values ∧
    call s r Peer.ask (.answering [] received) =
      .ok (⟨events, .error (.ofStatus (Rpc.tooLarge (Wire.encodeResponse values).length))⟩,
        .answering [] (received ++ [arrived]))

/-- Areas are sent back or too long, and in both cases the matter is settled. -/
theorem settled_transmitAreas (values : List Binary32) :
    Peer.transmitAreas values =
        (if Rpc.messageLimit < (Wire.encodeResponse values).length then
          .error (Rpc.tooLarge (Wire.encodeResponse values).length) else .ok values) ∧
      Settled Status.isRetryable (Peer.transmitAreas values) := by
  by_cases hlong : Rpc.messageLimit < (Wire.encodeResponse values).length
  · have hareas : Peer.transmitAreas values =
        .error (Rpc.tooLarge (Wire.encodeResponse values).length) := by
      simp only [Peer.transmitAreas, Peer.transmit, if_pos hlong]
    rw [if_pos hlong, hareas]
    exact ⟨rfl, rfl⟩
  · rw [if_neg hlong, Peer.transmitAreas_eq (Nat.le_of_not_lt hlong)]
    exact ⟨rfl, trivial⟩

/-- A call whose request arrives and is answered with areas ends with what becomes of them. -/
theorem call_answered (s : ClientSettings) (received : List Request) {r arrived : Request}
    {values : List Binary32} (hrequest : Peer.transmitRequest r = .ok arrived)
    (hvalues : (Rpc.handle arrived).result = .ok values) :
    ∃ events, call s r Peer.ask (.answering [] received) =
      .ok (⟨events, (Peer.transmitAreas values).mapError ClientError.ofStatus⟩,
        .answering [] (received ++ [arrived])) := by
  have hanswer : ((Rpc.handle arrived).map Peer.transmitAnswer).result =
      Peer.transmitAreas values := congrArg Peer.transmitAnswer hvalues
  have hcall := call_settled s r (Peer.ask_eq received hrequest)
    (by rw [hanswer]; exact (settled_transmitAreas values).2)
  rw [hanswer] at hcall
  exact ⟨_, hcall⟩

theorem answerRefused_iff {s : ClientSettings} {received : List Request} {r : Request} :
    AnswerRefused s received r ↔ ∃ arrived values,
      Peer.transmitRequest r = .ok arrived ∧ (Rpc.handle arrived).result = .ok values ∧
        Rpc.messageLimit < (Wire.encodeResponse values).length := by
  constructor
  · rintro ⟨arrived, values, events, hrequest, hvalues, hcall⟩
    refine ⟨arrived, values, hrequest, hvalues, ?_⟩
    by_contra hshort
    obtain ⟨events', hcall'⟩ := call_answered s received hrequest hvalues
    rw [Peer.transmitAreas_eq (Nat.le_of_not_lt hshort), hcall] at hcall'
    simp [Except.mapError] at hcall'
  · rintro ⟨arrived, values, hrequest, hvalues, hlong⟩
    obtain ⟨events, hcall⟩ := call_answered s received hrequest hvalues
    rw [(settled_transmitAreas values).1, if_pos hlong] at hcall
    exact ⟨arrived, values, events, hrequest, hvalues, hcall⟩

theorem exists_shapes_of_handle {shapes : List (Option Shape)} {values : List Binary32}
    (h : (Rpc.handle (Request.multi shapes).unsignZeros).result = .ok values) :
    ∃ present : List Shape, shapes = present.map some := by
  cases hareas : Calculation.areas (shapes.map (Option.map (Shape.map Binary.unsignZero))) with
  | ok areas => exact Calculation.exists_shapes_of_areas hareas
  | error index =>
    rw [Rpc.handle_result, Request.unsignZeros, Calculation.answer,
      Calculation.calculateMulti_of_error hareas] at h
    contradiction

theorem handle_shapes (shapes : List Shape) :
    (Rpc.handle (Request.multi (shapes.map some)).unsignZeros).result =
      .ok (shapes.map Shape.arrivedArea) := by
  rw [Rpc.handle_result, Calculation.answer_unsignZeros]
  rfl

/-- A batch of shapes whose request is within the limit for messages is answered, and the answer is
within the limit as well unless the batch fills the request with zeros. Of all batches, shapes
missing or not, only those are accepted and calculated and have their answer refused by the
client. -/
theorem answer_refused_iff_zeros (s : ClientSettings) (received : List Request) :
    (∀ shapes : List Shape, (Wire.encodeRequest (shapes.map some)).length ≤ Rpc.messageLimit →
      ∃ values, (Rpc.handle (Request.multi (shapes.map some)).unsignZeros).result = .ok values ∧
        (Rpc.messageLimit < (Wire.encodeResponse values).length ↔ Wire.FillsWithZeros shapes)) ∧
    ∀ shapes : List (Option Shape), AnswerRefused s received (.multi shapes) ↔
      ∃ present : List Shape, shapes = present.map some ∧ Wire.FillsWithZeros present := by
  refine ⟨fun shapes h => ⟨_, handle_shapes shapes,
    Wire.limit_lt_encodeResponse_iff (List.length_map _) h⟩, fun shapes => ?_⟩
  rw [answerRefused_iff]
  constructor
  · rintro ⟨arrived, values, hrequest, hvalues, hlong⟩
    obtain rfl := Peer.transmitRequest_eq_ok hrequest
    obtain ⟨present, rfl⟩ := exists_shapes_of_handle hvalues
    have hshort : (Wire.encodeRequest (present.map some)).length ≤ Rpc.messageLimit := by
      by_contra htoo
      simp [Peer.transmitRequest, Peer.transmit, Nat.lt_of_not_le htoo, Except.map] at hrequest
    rw [handle_shapes] at hvalues
    obtain rfl := Except.ok.inj hvalues
    exact ⟨present, rfl, (Wire.limit_lt_encodeResponse_iff (List.length_map _) hshort).1 hlong⟩
  · rintro ⟨present, rfl, hfills⟩
    have hshort := hfills.length_encodeRequest_le
    exact ⟨_, _, Peer.transmitRequest_multi hshort, handle_shapes present,
      (Wire.limit_lt_encodeResponse_iff (List.length_map _) hshort).2 hfills⟩

/-- The least number of squares without extent for which that is so: their request takes four bytes
less than the limit, their answer one byte more. -/
theorem answer_refused_iff_zeros_squares :
    (Wire.encodeRequest ((List.replicate 1048575 (Shape.square .zero)).map some)).length ≤
        Rpc.messageLimit ∧
      (∃ values : List Binary32, (Rpc.handle (Request.multi
          ((List.replicate 1048575 (Shape.square .zero)).map some)).unsignZeros).result =
            .ok values ∧ Rpc.messageLimit < (Wire.encodeResponse values).length) ∧
      AnswerRefused {} [] (.multi ((List.replicate 1048575 (Shape.square .zero)).map some)) := by
  have hfills : Wire.FillsWithZeros (List.replicate 1048575 (Shape.square .zero)) := by
    refine ⟨fun s hs x hx => ?_, .inl List.length_replicate⟩
    rw [List.eq_of_mem_replicate hs] at hx
    rw [List.mem_singleton.1 hx]
    rfl
  have hshort := hfills.length_encodeRequest_le
  obtain ⟨values, hvalues, hlong⟩ := (answer_refused_iff_zeros {} []).1 _ hshort
  exact ⟨hshort, ⟨values, hvalues, hlong.2 hfills⟩,
    ((answer_refused_iff_zeros {} []).2 _).2 ⟨_, rfl, hfills⟩⟩

end Session

end Planimeter
