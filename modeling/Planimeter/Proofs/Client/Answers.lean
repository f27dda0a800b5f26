import Planimeter.Proofs.Calculation.Batch
import Planimeter.Proofs.Client.Endings
import Planimeter.Proofs.Client.Remote
/-!
# Answers of a peer as a call returns them

A call is held against a peer of which nothing is known. Each attempt is one step of the peer; the
call ends with the first one that settles the matter or with the last one allowed, and returns the
areas of that answer as they come, without counting them. The main statement says that a call
returns as many areas as were asked for exactly if the answer that ends it has as many, and that
every answer of the service has.
-/
namespace Planimeter

variable {σ ε α : Type} {s : ClientSettings}

namespace Session

variable {r : Request} {send : Request → σ → Logged (Except Status (List Binary32)) × σ} {state : σ}
  {values : List Binary32}

/-- A call comes back with areas. -/
def Returns (s : ClientSettings) (r : Request)
    (send : Request → σ → Logged (Except Status (List Binary32)) × σ) (state : σ)
    (values : List Binary32) : Prop :=
  ∃ events state', call s r send state = .ok (⟨events, .ok values⟩, state')

/-- A call returns the areas of the answer that ends it, whatever they are. -/
theorem returns_iff : Returns s r send state values ↔
    ∃ n, EndsAfter s Status.isRetryable (send r) s.maxRetries 1 state n ∧
      (attemptAfter (send r) n state).1.result = .ok values := by
  constructor
  · rintro ⟨events, state', hcall⟩
    cases hretry : retry s Status.isRetryable (send r) state with
    | error fault =>
      rw [call, hretry] at hcall
      contradiction
    | ok result =>
      obtain ⟨⟨failed, last⟩, final⟩ := result
      obtain ⟨n, hends, hlast⟩ := retry_go_ok_iff.1 ⟨failed, hretry⟩
      rw [call_of_retry hretry] at hcall
      have hresult : last.result.mapError ClientError.ofStatus = .ok values :=
        congrArg (fun result => result.1.result) (Except.ok.inj hcall)
      refine ⟨n, hends, ?_⟩
      rw [hlast]
      exact mapError_eq_ok_iff.1 hresult
  · rintro ⟨n, hends, hvalues⟩
    obtain ⟨failed, hretry⟩ := retry_go_ok_iff.2 ⟨n, hends, rfl⟩
    have hcall := call_of_retry hretry
    rw [reply, mapError_eq_ok_iff.2 hvalues] at hcall
    exact ⟨_, _, hcall⟩

end Session

/-- How many areas a request asks for. -/
def Request.count : Request → Nat
  | .one _ => 1
  | .multi shapes => shapes.length

@[simp] theorem Request.count_unsignZeros (r : Request) : r.unsignZeros.count = r.count := by
  cases r <;> simp [unsignZeros, count]

theorem Calculation.length_of_answer {r : Request} {values : List Binary32}
    (h : (answer r).result = .ok values) : values.length = r.count := by
  cases r with
  | one m =>
    cases m with
    | none => contradiction
    | some shape => rw [← Except.ok.inj h]; rfl
  | multi shapes =>
    cases hareas : areas shapes with
    | error index =>
      rw [answer, calculateMulti_of_error hareas] at h
      contradiction
    | ok areas =>
      rw [answer, calculateMulti_of_ok hareas] at h
      have hlength := congrArg List.length (areas_eq_ok_iff.1 hareas)
      obtain rfl : areas = values := Except.ok.inj h
      simpa [Request.count] using hlength.symm

namespace Peer

variable {r arrived : Request} {values values' : List Binary32}

theorem transmit_eq_ok {β : Type} {encode : β → List UInt8}
    {decode : List UInt8 → Except Wire.Failure β} {a a' : β}
    (h : transmit encode decode a = .ok a') :
    (encode a).length ≤ Rpc.messageLimit ∧ decode (encode a) = .ok a' := by
  by_cases hlimit : Rpc.messageLimit < (encode a).length
  · simp [transmit, hlimit] at h
  · simp only [transmit, if_neg hlimit] at h
    exact ⟨Nat.le_of_not_lt hlimit, mapError_eq_ok_iff.1 h⟩

/-- A request that arrives is the one that was sent, its negative zeros apart. -/
theorem transmitRequest_eq_ok (h : transmitRequest r = .ok arrived) : arrived = r.unsignZeros := by
  cases r with
  | one m =>
    rw [transmitRequest_one] at h
    exact (Except.ok.inj h).symm
  | multi shapes =>
    cases harrived : transmit Wire.encodeRequest Wire.decodeRequest shapes with
    | error status =>
      rw [transmitRequest, harrived] at h
      contradiction
    | ok shapes' =>
      rw [transmitRequest_multi (transmit_eq_ok harrived).1] at h
      exact (Except.ok.inj h).symm

/-- Areas that arrive are those that were sent. -/
theorem transmitAreas_eq_ok (h : transmitAreas values = .ok values') : values' = values := by
  have hlimit := (transmit_eq_ok h).1
  rw [transmitAreas_eq hlimit] at h
  exact (Except.ok.inj h).symm

/-- The service goes on as it was, and where it answers with areas they are as many as were asked
for. -/
theorem ask_service (r : Request) (received : List Request) :
    (∃ received', (ask r (.answering [] received)).2 = .answering [] received') ∧
      ∀ values, (ask r (.answering [] received)).1.result = .ok values →
        values.length = r.count := by
  cases hrequest : transmitRequest r with
  | error status =>
    have hask : ask r (.answering [] received) = (⟨[], .error status⟩, .answering [] received) := by
      simp only [ask, hrequest]
    rw [hask]
    exact ⟨⟨received, rfl⟩, fun values h => by contradiction⟩
  | ok arrived =>
    rw [ask_eq received hrequest]
    refine ⟨⟨_, rfl⟩, fun values h => ?_⟩
    rw [result_transmitted] at h
    cases hareas : (Calculation.answer arrived).result with
    | error e =>
      rw [hareas] at h
      contradiction
    | ok areas =>
      rw [hareas] at h
      rw [transmitAreas_eq_ok h, Calculation.length_of_answer hareas,
        transmitRequest_eq_ok hrequest, Request.count_unsignZeros]

theorem length_of_attemptAfter_service (n : Nat) (received : List Request)
    (h : (attemptAfter (ask r) n (.answering [] received)).1.result = .ok values) :
    values.length = r.count := by
  induction n generalizing received with
  | zero => exact (ask_service r received).2 values h
  | succ n ih =>
    obtain ⟨received', hnext⟩ := (ask_service r received).1
    rw [attemptAfter, hnext] at h
    exact ih received' h

end Peer

namespace Session

/-- A call returns as many areas as were asked for if and only if the answer that ends it has as
many; nothing between the answer and the caller counts them. All answers of the service have. -/
theorem returns_count_iff (s : ClientSettings) (r : Request)
    (send : Request → σ → Logged (Except Status (List Binary32)) × σ) (state : σ) :
    ((∀ values, Returns s r send state values → values.length = r.count) ↔
      ∀ n, EndsAfter s Status.isRetryable (send r) s.maxRetries 1 state n →
        ∀ values, (attemptAfter (send r) n state).1.result = .ok values →
          values.length = r.count) ∧
    ∀ received values, Returns s r Peer.ask (.answering [] received) values →
      values.length = r.count := by
  refine ⟨⟨fun h n hends values hvalues => h values (returns_iff.2 ⟨n, hends, hvalues⟩),
    fun h values hreturns => ?_⟩, fun received values hreturns => ?_⟩
  · obtain ⟨n, hends, hvalues⟩ := returns_iff.1 hreturns
    exact h n hends values hvalues
  · obtain ⟨n, -, hvalues⟩ := returns_iff.1 hreturns
    exact Peer.length_of_attemptAfter_service n received hvalues

/-- The service returns one area for one shape. -/
theorem returns_count_iff_square :
    Returns {} (.one (some (.square .zero))) Peer.ask .service [.zero] ∧
      ([.zero] : List Binary32).length = (Request.one (some (.square .zero))).count := by
  have hask := Peer.ask_eq [] (Peer.transmitRequest_one (some (.square .zero)))
  have hanswer : ((Rpc.handle (Request.one (some (.square .zero))).unsignZeros).map
      Peer.transmitAnswer).result = .ok [.zero] :=
    Peer.transmitAreas_eq (Wire.length_encodeResponse_le_limit (by decide))
  have hcall := call_settled {} _ hask (by rw [hanswer]; trivial)
  rw [hanswer] at hcall
  have hreturns : Returns {} (.one (some (.square .zero))) Peer.ask .service [.zero] :=
    ⟨_, _, hcall⟩
  exact ⟨hreturns, (returns_count_iff _ _ Peer.ask .service).2 [] _ hreturns⟩

/-- Areas that a peer has planned come back, however many they are. -/
theorem call_planned (s : ClientSettings) {r arrived : Request} {values : List Binary32}
    (rest : List Planned) (received : List Request)
    (hrequest : Peer.transmitRequest r = .ok arrived)
    (hvalues : (Wire.encodeResponse values).length ≤ Rpc.messageLimit) :
    call s r Peer.ask (.answering (.areas values :: rest) received) =
      .ok (⟨[], .ok values⟩, .answering rest (received ++ [arrived])) := by
  have hask : Peer.ask r (.answering (.areas values :: rest) received) =
      (⟨[], .ok values⟩, .answering rest (received ++ [arrived])) := by
    simp only [Peer.ask, hrequest, Peer.transmitAnswer, Peer.transmitAreas_eq hvalues]
  exact call_settled s r hask trivial

/-- Two areas for one shape, and none for two. -/
theorem call_uncounted :
    call {} (.one (some (.square .zero))) Peer.ask (.answering [.areas [.zero, .zero]] []) =
      .ok (⟨[], .ok [.zero, .zero]⟩, .answering [] [.one (some (.square .zero))]) ∧
    call {} (.multi [some (.square .zero), some (.circle .zero)]) Peer.ask
        (.answering [.areas []] []) =
      .ok (⟨[], .ok []⟩,
        .answering [] [.multi [some (.square .zero), some (.circle .zero)]]) := by
  refine ⟨call_planned {} [] [] (Peer.transmitRequest_one _) ?_,
    call_planned {} [] [] (Peer.transmitRequest_multi ?_) ?_⟩
  · exact Wire.length_encodeResponse_le_limit (by decide)
  · exact Wire.length_encodeRequest_le_limit (by decide)
  · exact Wire.length_encodeResponse_le_limit (by decide)

end Session

end Planimeter
