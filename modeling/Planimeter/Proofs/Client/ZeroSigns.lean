import Planimeter.Proofs.Client.Answers
import Planimeter.Proofs.Shape.ZeroSigns
/-!
# The sign of zero in remote areas

On the way to the service the zeros of a request lose their signs. Its answer is therefore that of
another request, and the main statement says that this shows in nothing but the signs of zeros: the
areas that come back are those that the same calculation gives in the client's own process, each
alike.
-/
namespace Planimeter

namespace Calculation

/-- Areas of shapes whose zeros have lost their signs are alike to those of the shapes. -/
theorem exists_areas_of_unsignZeros {shapes : List (Option Shape)} {values : List Binary32}
    (h : areas (shapes.map (Option.map (Shape.map Binary.unsignZero))) = .ok values) :
    ∃ values', areas shapes = .ok values' ∧ List.Forall₂ Binary.Alike values' values := by
  induction shapes generalizing values with
  | nil =>
    obtain rfl : [] = values := Except.ok.inj h
    exact ⟨[], rfl, .nil⟩
  | cons m shapes ih =>
    cases m with
    | none => contradiction
    | some s =>
      rw [List.map_cons, Option.map_some, areas] at h
      cases hrest : areas (shapes.map (Option.map (Shape.map Binary.unsignZero))) with
      | error index =>
        rw [hrest] at h
        contradiction
      | ok rest =>
        rw [hrest] at h
        obtain ⟨rest', hrest', halike⟩ := ih hrest
        obtain rfl := Except.ok.inj h
        exact ⟨s.area :: rest', by rw [areas, hrest'], .cons s.alike_area halike⟩

theorem exists_answer_of_unsignZeros {r : Request} {values : List Binary32}
    (h : (answer r.unsignZeros).result = .ok values) :
    ∃ values', (answer r).result = .ok values' ∧ List.Forall₂ Binary.Alike values' values := by
  cases r with
  | one m =>
    cases m with
    | none => contradiction
    | some s =>
      obtain rfl := Except.ok.inj h
      exact ⟨[s.area], rfl, .cons s.alike_area .nil⟩
  | multi shapes =>
    rw [Request.unsignZeros, answer] at h
    rw [answer]
    cases hareas : areas (shapes.map (Option.map (Shape.map Binary.unsignZero))) with
    | error index =>
      rw [calculateMulti_of_error hareas] at h
      contradiction
    | ok areas' =>
      rw [calculateMulti_of_ok hareas] at h
      obtain rfl := Except.ok.inj h
      obtain ⟨values', hvalues', halike⟩ := exists_areas_of_unsignZeros hareas
      exact ⟨values', by rw [calculateMulti_of_ok hvalues'], halike⟩

end Calculation

/-- Areas that the service answers with at any attempt are those of the request as it arrives. -/
theorem Peer.answer_of_attemptAfter_service {r : Request} {values : List Binary32} (n : Nat)
    (received : List Request)
    (h : (attemptAfter (ask r) n (.answering [] received)).1.result = .ok values) :
    (Calculation.answer r.unsignZeros).result = .ok values := by
  induction n generalizing received with
  | zero =>
    rw [attemptAfter] at h
    cases hrequest : transmitRequest r with
    | error status =>
      simp [ask, hrequest] at h
    | ok arrived =>
      obtain rfl := transmitRequest_eq_ok hrequest
      rw [ask_eq received hrequest, result_transmitted] at h
      cases hanswer : (Calculation.answer r.unsignZeros).result with
      | error e =>
        rw [hanswer] at h
        contradiction
      | ok areas =>
        rw [hanswer] at h
        rw [transmitAreas_eq_ok h]
  | succ n ih =>
    obtain ⟨received', hnext⟩ := (ask_service r received).1
    rw [attemptAfter, hnext] at h
    exact ih received' h

/-- A call for one shape comes back with the area of the shape as it arrives. -/
theorem Session.returns_one (s : ClientSettings) (received : List Request) (shape : Shape) :
    Returns s (.one (some shape)) Peer.ask (.answering [] received)
      [(shape.map Binary.unsignZero).area] := by
  have hask := Peer.ask_eq received (Peer.transmitRequest_one (some shape))
  have hanswer : ((Rpc.handle (Request.one (some shape)).unsignZeros).map
      Peer.transmitAnswer).result = .ok [(shape.map Binary.unsignZero).area] :=
    Peer.transmitAreas_eq (Wire.length_encodeResponse_le_limit (show 1 < 32 by decide))
  have hcall := call_settled s _ hask (by rw [hanswer]; trivial)
  rw [hanswer] at hcall
  exact ⟨_, _, hcall⟩

/-- Making every negative zero among the dimensions of a shape positive leaves its area as it is,
except that a zero may change its sign. So does asking the service: a call for one shape returns one
area, and the areas that any call returns are alike to those that the client's own process
calculates. -/
theorem zero_signs_alone_differ :
    (∀ shape : Shape, shape.area.Alike (shape.map Binary.unsignZero).area) ∧
    (∀ (s : ClientSettings) (received : List Request) (shape : Shape), ∃ x,
      Session.Returns s (.one (some shape)) Peer.ask (.answering [] received) [x] ∧
        shape.area.Alike x) ∧
    ∀ (s : ClientSettings) (r : Request) (received : List Request) (remote : List Binary32),
      Session.Returns s r Peer.ask (.answering [] received) remote →
      ∃ own, (answerLocally r).result = .ok own ∧ List.Forall₂ Binary.Alike own remote := by
  refine ⟨Shape.alike_area, fun s received shape => ?_, fun s r received remote h => ?_⟩
  · exact ⟨_, Session.returns_one s received shape, shape.alike_area⟩
  · obtain ⟨n, -, hremote⟩ := Session.returns_iff.1 h
    obtain ⟨own, hown, halike⟩ := Calculation.exists_answer_of_unsignZeros
      (Peer.answer_of_attemptAfter_service n received hremote)
    refine ⟨own, ?_, halike⟩
    rw [answerLocally, Logged.map, hown]
    rfl

/-- A rectangle of minus zero by two: the negative zero of the own calculation comes back from the
service as a positive one. -/
theorem zero_signs_alone_differ_rectangle :
    let r : Request := .one (some (.rectangle (.ofBits 0x80000000) (.ofBits 0x40000000)))
    Session.Returns {} r Peer.ask .service [.zero] ∧
      (answerLocally r).result = .ok [.ofBits 0x80000000] ∧
      List.Forall₂ Binary.Alike [Binary.ofBits 0x80000000] [(.zero : Binary32)] := by
  intro r
  have hreturns : Session.Returns {} r Peer.ask .service [.zero] := Session.returns_one {} [] _
  have hlocal : (answerLocally r).result = .ok [.ofBits 0x80000000] := by rfl
  obtain ⟨own, hown, halike⟩ := zero_signs_alone_differ.2.2 {} r [] _ hreturns
  rw [hlocal] at hown
  obtain rfl := Except.ok.inj hown
  exact ⟨hreturns, hlocal, halike⟩

end Planimeter
