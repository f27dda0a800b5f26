import Planimeter.Client.Settings
/-!
# Attempts

Connecting and calling are tried again in the same way: as long as an attempt fails for a passing
reason and retries are left, the client pauses and tries once more. What happened is kept as a
history; the events and pauses of a run are read off it.
-/
namespace Planimeter

/-- An attempt that failed and was followed by a pause. -/
structure FailedAttempt (ε : Type) where
  outcome : Logged ε
  pause : Duration
  deriving Repr

/-- A run of attempts: those that failed and were followed by another, and the last one. -/
structure Attempts (ε α : Type) where
  failed : List (FailedAttempt ε)
  last : Logged (Except ε α)

namespace Attempts

def count (a : Attempts ε α) : Nat := a.failed.length + 1

def pauses (a : Attempts ε α) : List Duration := a.failed.map FailedAttempt.pause

/-- All events of a run: those of the attempts, and between them those that the client reports. -/
def events (retried : (attempt : Nat) → ε → Duration → Event)
    (ended : (attempt : Nat) → Except ε α → List Event) (a : Attempts ε α) : List Event :=
  go 1 a.failed
where
  go (attempt : Nat) : List (FailedAttempt ε) → List Event
    | [] => a.last.events ++ ended attempt a.last.result
    | f :: rest =>
      f.outcome.events ++ retried attempt f.outcome.result f.pause :: go (attempt + 1) rest

end Attempts

/-- Attempts are numbered from 1 below this bound. -/
def attemptBound : Nat := UInt32.size

/-- Makes attempts, each of which may change the state `σ`, until one succeeds, fails for good, or
is the last one allowed. -/
def retry (s : ClientSettings) (passing : ε → Bool)
    (attempt : σ → Logged (Except ε α) × σ) (state : σ) : Except Fault (Attempts ε α × σ) :=
  go s.maxRetries 1 state
where
  go (left number : Nat) (state : σ) : Except Fault (Attempts ε α × σ) :=
    match attempt state with
    | (⟨events, .ok a⟩, state) => .ok (⟨[], ⟨events, .ok a⟩⟩, state)
    | (⟨events, .error e⟩, state) =>
      match left, passing e with
      | left + 1, true => do
        let pause ← s.backoff number
        if attemptBound ≤ number + 1 then throw .attemptOverflow
        let (rest, state) ← go left (number + 1) state
        return (⟨⟨⟨events, e⟩, pause⟩ :: rest.failed, rest.last⟩, state)
      | _, _ => .ok (⟨[], ⟨events, .error e⟩⟩, state)

end Planimeter
