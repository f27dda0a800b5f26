import Planimeter.Client.Local
import Planimeter.Client.Session
import Planimeter.Proofs.Client.Endings
import Planimeter.Proofs.Wire.RoundTrip
/-!
# Remote and local answers

A request goes to the service encoded and its answer comes back encoded. Within the limits for
messages nothing is lost on the way but the signs of zeros, so that the remote answer is the one
that the same calculation gives in the client's own process. The main statement holds for lists of
any length and for single shapes, and says that the service is asked once.
-/
namespace Planimeter

/-- A request with every negative zero among its dimensions made positive. -/
def Request.unsignZeros : Request → Request
  | .one shape => .one (shape.map (Shape.map Binary.unsignZero))
  | .multi shapes => .multi (shapes.map (Option.map (Shape.map Binary.unsignZero)))

namespace Wire

/-- A shape takes at most nineteen bytes of a request. -/
theorem length_encodeRequest_le (shapes : List (Option Shape)) :
    (encodeRequest shapes).length ≤ 19 * shapes.length := by
  induction shapes with
  | nil => exact Nat.zero_le _
  | cons m shapes ih =>
    have hshape := length_encodeShape_le m
    rw [encodeRequest, List.flatMap_cons, ← encodeRequest, List.length_append,
      length_encodeDelimited (by decide) (by omega), List.length_cons]
    omega

theorem le_length_encodeResponse (values : List Binary32) :
    4 * values.length ≤ (encodeResponse values).length := by
  cases values with
  | nil => exact Nat.zero_le _
  | cons x values =>
    rw [← length_flatMap_encodeFloat, encodeResponse, encodeDelimited, List.length_append]
    · exact Nat.le_add_left _ _
    · exact fun h => List.cons_ne_nil _ _ h

/-- A short response takes two bytes more than its values. -/
theorem length_encodeResponse_le {values : List Binary32} (h : values.length < 32) :
    (encodeResponse values).length ≤ 4 * values.length + 2 := by
  cases values with
  | nil => exact Nat.zero_le _
  | cons x values =>
    rw [← length_flatMap_encodeFloat]
    refine Nat.le_of_eq (length_encodeDelimited (by decide) ?_)
    rw [length_flatMap_encodeFloat]
    omega

theorem length_encodeRequest_le_limit {shapes : List (Option Shape)} (h : shapes.length < 32) :
    (encodeRequest shapes).length ≤ Rpc.messageLimit := by
  have hlength := length_encodeRequest_le shapes
  exact Nat.le_trans (show _ ≤ 19 * 32 by omega) (by decide)

theorem length_encodeResponse_le_limit {values : List Binary32} (h : values.length < 32) :
    (encodeResponse values).length ≤ Rpc.messageLimit := by
  have hlength := length_encodeResponse_le h
  exact Nat.le_trans (show _ ≤ 4 * 32 + 2 by omega) (by decide)

end Wire

namespace Peer

/-- What is within the limit arrives as decoding reads it. -/
theorem transmit_eq {encode : α → List UInt8} {decode : List UInt8 → Except Wire.Failure α}
    {a a' : α} (hlimit : (encode a).length ≤ Rpc.messageLimit)
    (hdecode : decode (encode a) = .ok a') :
    transmit encode decode a = .ok a' := by
  simp only [transmit, if_neg (Nat.not_lt.2 hlimit), hdecode]
  rfl

@[simp] theorem transmitRequest_one (m : Option Shape) :
    transmitRequest (.one m) = .ok (Request.one m).unsignZeros := by
  have hlimit : (Wire.encodeShape m).length ≤ Rpc.messageLimit :=
    Nat.le_trans (Wire.length_encodeShape_le m) (by decide)
  rw [transmitRequest, transmit_eq hlimit (Wire.decodeShape_encodeShape m)]
  rfl

@[simp] theorem transmitRequest_multi {shapes : List (Option Shape)}
    (hlimit : (Wire.encodeRequest shapes).length ≤ Rpc.messageLimit) :
    transmitRequest (.multi shapes) = .ok (Request.multi shapes).unsignZeros := by
  rw [transmitRequest, transmit_eq hlimit (Wire.decodeRequest_encodeRequest shapes)]
  rfl

@[simp] theorem transmitAreas_eq {values : List Binary32}
    (hlimit : (Wire.encodeResponse values).length ≤ Rpc.messageLimit) :
    transmitAreas values = .ok values := by
  have hle := Wire.le_length_encodeResponse values
  refine transmit_eq hlimit (Wire.decodeResponse_encodeResponse ?_)
  exact Nat.lt_of_le_of_lt (Nat.le_trans hle hlimit) (by decide)

/-- With nothing planned the service answers what arrives, and the answer takes the way back. -/
theorem ask_eq {r arrived : Request} (received : List Request)
    (h : transmitRequest r = .ok arrived) :
    ask r (.answering [] received) =
      ((Rpc.handle arrived).map transmitAnswer, .answering [] (received ++ [arrived])) := by
  simp only [ask, h]

end Peer

/-- The service fails where the calculation does, with the status of the error. -/
@[simp] theorem Rpc.handle_result (r : Request) :
    (handle r).result = (Calculation.answer r).result.mapError statusOfAreaError := by
  cases h : (Calculation.answer r).result with
  | ok values => simp only [handle, Logged.after, h, Except.mapError]
  | error e => simp only [handle, Logged.after, h, Except.mapError]

/-- The answer of the service as it arrives. -/
@[simp] theorem Peer.result_transmitted (r : Request) : ((Rpc.handle r).map transmitAnswer).result =
    transmitAnswer ((Calculation.answer r).result.mapError Rpc.statusOfAreaError) := by
  rw [← Rpc.handle_result]
  rfl

/-- A call whose first attempt settles the matter makes no other. -/
theorem Session.call_settled {σ : Type} (s : ClientSettings) (r : Request)
    {send : Request → σ → Logged (Except Status (List Binary32)) × σ} {state state' : σ}
    {answer : Logged (Except Status (List Binary32))} (hsend : send r state = (answer, state'))
    (h : Settled Status.isRetryable answer.result) :
    call s r send state = .ok (⟨answer.events ++ callEnded (operation r) 1 answer.result,
      answer.result.mapError ClientError.ofStatus⟩, state') := by
  have hcall : call s r send state = _ := call_ended (.inr (by rw [hsend]; exact h))
  rwa [hsend] at hcall

/-- A remote and a local answer agree: the same areas, or a refusal that each words in its way. -/
inductive SameAnswer :
    Except ClientError (List Binary32) → Except ClientError (List Binary32) → Prop where
  | areas (values : List Binary32) : SameAnswer (.ok values) (.ok values)
  | refused : SameAnswer (.error (.invalidShape "Invalid request: Not a valid shape"))
      (.error (.invalidShape "not a valid shape"))

/-- The service is asked once, whatever the settings say about retries, and its answer agrees with
that of the calculation in the client's own process on the request as it arrives. -/
def AgreesWithLocal (s : ClientSettings) (received : List Request) (r : Request) : Prop :=
  ∃ events remote,
    Session.call s r Peer.ask (.answering [] received) =
      .ok (⟨events, remote⟩, .answering [] (received ++ [r.unsignZeros])) ∧
    SameAnswer remote (answerLocally r.unsignZeros).result

/-- A call agrees if the request arrives and the areas come back. -/
theorem agreesWithLocal_of_transmit (s : ClientSettings) (received : List Request) {r : Request}
    (hrequest : Peer.transmitRequest r = .ok r.unsignZeros)
    (hareas : ∀ values, (answerLocally r.unsignZeros).result = .ok values →
      Peer.transmitAreas values = .ok values) : AgreesWithLocal s received r := by
  have hask := Peer.ask_eq received hrequest
  have hlocal : (answerLocally r.unsignZeros).result =
      (Calculation.answer r.unsignZeros).result.mapError ClientError.ofAreaError := rfl
  have hremote := Peer.result_transmitted r.unsignZeros
  cases hanswer : (Calculation.answer r.unsignZeros).result with
  | ok values =>
    rw [hanswer] at hlocal hremote
    replace hremote := hremote.trans (hareas values hlocal)
    have hcall := Session.call_settled s r hask (by rw [hremote]; trivial)
    rw [hremote] at hcall
    exact ⟨_, _, hcall, by rw [hlocal]; exact .areas values⟩
  | error e =>
    rw [hanswer] at hlocal hremote
    cases e with
    | unrecognized =>
      have hcall := Session.call_settled s r hask (by rw [hremote]; rfl)
      rw [hremote] at hcall
      exact ⟨_, _, hcall, by rw [hlocal]; exact .refused⟩

/-- Remote calls agree with local ones for lists of shapes within the limits for messages and for
all single shapes. -/
theorem remote_agrees_with_local (s : ClientSettings) (received : List Request) :
    (∀ shapes : List (Option Shape),
      (Wire.encodeRequest shapes).length ≤ Rpc.messageLimit →
      (∀ values, (answerLocally (Request.multi shapes).unsignZeros).result = .ok values →
        (Wire.encodeResponse values).length ≤ Rpc.messageLimit) →
      AgreesWithLocal s received (.multi shapes)) ∧
    ∀ m : Option Shape, AgreesWithLocal s received (.one m) := by
  refine ⟨fun shapes hshapes hvalues => ?_, fun m => ?_⟩
  · exact agreesWithLocal_of_transmit s received (Peer.transmitRequest_multi hshapes)
      fun values h => Peer.transmitAreas_eq (hvalues values h)
  · refine agreesWithLocal_of_transmit s received (Peer.transmitRequest_one m) fun values h => ?_
    cases m with
    | none => contradiction
    | some shape =>
      obtain rfl : [(shape.map Binary.unsignZero).area] = values := Except.ok.inj h
      apply Peer.transmitAreas_eq
      exact Nat.le_trans (Wire.length_encodeResponse_le (by decide : 1 < 32))
        (by decide : 4 * 1 + 2 ≤ Rpc.messageLimit)

/-- A square of edge minus zero and a rectangle of two by three: the zero arrives as a positive one,
and both areas come back. -/
theorem remote_agrees_with_local_zero_six :
    (Wire.encodeRequest [some (.square (.ofBits 0x80000000)),
      some (.rectangle (.ofBits 0x40000000) (.ofBits 0x40400000))]).length ≤ Rpc.messageLimit ∧
    ∃ events, Session.call {} (.multi [some (.square (.ofBits 0x80000000)),
        some (.rectangle (.ofBits 0x40000000) (.ofBits 0x40400000))]) Peer.ask .service =
      .ok (⟨events, .ok [.zero, .ofBits 0x40C00000]⟩, .answering []
        [.multi [some (.square .zero),
          some (.rectangle (.ofBits 0x40000000) (.ofBits 0x40400000))]]) := by
  have hrequest : (Wire.encodeRequest [some (.square (.ofBits 0x80000000)),
      some (.rectangle (.ofBits 0x40000000) (.ofBits 0x40400000))]).length ≤ Rpc.messageLimit :=
    Nat.le_trans (Wire.length_encodeRequest_le _) (by decide)
  have hlocal : (answerLocally (Request.multi [some (.square (.ofBits 0x80000000)),
      some (.rectangle (.ofBits 0x40000000) (.ofBits 0x40400000))]).unsignZeros).result =
        .ok [.zero, .ofBits 0x40C00000] := by rfl
  refine ⟨hrequest, ?_⟩
  obtain ⟨events, remote, hcall, hsame⟩ :=
    (remote_agrees_with_local {} []).1 _ hrequest fun values hvalues => by
      rw [hlocal] at hvalues
      obtain rfl := Except.ok.inj hvalues
      exact Nat.le_trans (Wire.length_encodeResponse_le (by decide : 2 < 32)) (by decide)
  rw [hlocal] at hsame
  cases hsame
  exact ⟨events, hcall⟩

end Planimeter
