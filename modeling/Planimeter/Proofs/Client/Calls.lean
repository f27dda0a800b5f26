import Planimeter.Proofs.Client.Endings
import Planimeter.Proofs.Client.Outcomes
import Mathlib.Data.List.Basic
/-!
# The course of a call

A call is held against a peer that has an outcome laid out for every attempt there could be and
keeps what was sent to it. The main statement says how many attempts a call makes, what it sends,
how long it pauses in between, how it ends and what it reports.
-/
namespace Planimeter.Session

/-- Makes attempt `n` end as `outcome n`, and keeps the requests that were sent. -/
def replay (outcome : Nat → Except Status (List Binary32)) (r : Request) (sent : List Request) :
    Logged (Except Status (List Binary32)) × List Request :=
  (⟨[], outcome (sent.length + 1)⟩, sent ++ [r])

def target : String := "area_calculator_sdk::client"

/-- The report of an attempt that failed and will be followed by another. -/
def warning (op : String) (attempt : Nat) (status : Status) (pause : Duration) : Event :=
  ⟨.warn, target, "gRPC call failed, retrying...",
    [("op", .quoted op), ("attempt", .count attempt), ("code", .bare status.code.text),
      ("message", .bare status.message),
      ("backoff_ms", .count (min (pause.nanos / 1000000) (UInt64.size - 1)))]⟩

/-- The report of the last attempt: a success is worth telling if it is not the first one. -/
def conclusion (op : String) (attempt : Nat) : Except Status (List Binary32) → List Event
  | .ok _ =>
    if 1 < attempt then
      [⟨.info, target, "gRPC call succeeded after retries",
        [("op", .quoted op), ("attempt", .count attempt)]⟩]
    else []
  | .error status =>
    [⟨.debug, target, "gRPC call giving up",
      [("op", .quoted op), ("attempt", .count attempt), ("code", .bare status.code.text)]⟩]

theorem callRetried_eq : callRetried = warning := rfl

theorem callEnded_eq : callEnded = conclusion := by
  funext op attempt result
  cases result with
  | ok values =>
    by_cases h : 1 < attempt
    · simp [callEnded, conclusion, event, target, h, Nat.not_le.2 h]
    · simp [callEnded, conclusion, h, Nat.not_lt.1 h]
  | error status => rfl

@[simp] theorem replay_replicate (outcome : Nat → Except Status (List Binary32)) (r : Request)
    (n : Nat) :
    replay outcome r (List.replicate n r) =
      (⟨[], outcome (n + 1)⟩, List.replicate (n + 1) r) := by
  rw [replay, List.length_replicate, List.replicate_succ']

theorem retry_replay {s : ClientSettings} (hretries : s.maxRetries + 1 < UInt32.size)
    (hbackoff : s.baseBackoff.nanos * s.maxRetries < UInt64.size * 1000000000) (r : Request)
    (outcome : Nat → Except Status (List Binary32)) :
    ∃ k failures run,
      retry s Status.isRetryable (replay outcome r) [] = .ok (run, List.replicate k r) ∧
        LaidOut s Status.isRetryable outcome k failures run := by
  obtain ⟨k, failures, run, hrun, hlaid⟩ := retry_laidOut hretries hbackoff Status.isRetryable
    outcome _ (replay_replicate outcome r)
  rw [List.replicate_zero] at hrun
  exact ⟨k, failures, run, hrun, hlaid⟩

/-- What a call comes back with against laid-out outcomes, in terms of its failures and its last
outcome. -/
theorem reply_laidOut {s : ClientSettings} {outcome : Nat → Except Status (List Binary32)} {k : Nat}
    {failures : List (Status × Duration)} {run : Attempts Status (List Binary32)} (r : Request)
    (h : LaidOut s Status.isRetryable outcome k failures run) :
    reply r run =
      ⟨(failures.mapIdx fun i f => warning (operation r) (i + 1) f.1 f.2) ++
          conclusion (operation r) k (outcome k),
        (outcome k).mapError ClientError.ofStatus⟩ := by
  rw [reply, h.events, h.result, callRetried_eq, callEnded_eq]

/-- A call against laid-out outcomes makes `k` attempts, where `k` is the least of the number of
attempts allowed and the numbers of the outcomes that are a success or cannot be retried. It sends
the request as it is each time, pauses after each failed attempt as long as its number says, ends as
the last outcome does, and reports each failed attempt and its end. -/
theorem call_course (s : ClientSettings) (hretries : s.maxRetries + 1 < UInt32.size)
    (hbackoff : s.baseBackoff.nanos * s.maxRetries < UInt64.size * 1000000000) (r : Request)
    (outcome : Nat → Except Status (List Binary32)) :
    ∃ (k : Nat) (failures : List (Status × Duration)),
      IsLeast (insert (s.maxRetries + 1) {n | 0 < n ∧ Settled Status.isRetryable (outcome n)}) k ∧
      failures.length + 1 = k ∧
      (∀ i (h : i < failures.length), outcome (i + 1) = .error failures[i].1 ∧
        s.backoff (i + 1) = .ok failures[i].2) ∧
      (∃ run, retry s Status.isRetryable (replay outcome r) [] = .ok (run, List.replicate k r) ∧
        run.count = k ∧ run.pauses = failures.map Prod.snd) ∧
      call s r (replay outcome) [] = .ok
        (⟨(failures.mapIdx fun i f => warning (operation r) (i + 1) f.1 f.2) ++
            conclusion (operation r) k (outcome k),
          (outcome k).mapError ClientError.ofStatus⟩, List.replicate k r) := by
  obtain ⟨k, failures, run, hrun, hlaid⟩ := retry_replay hretries hbackoff r outcome
  refine ⟨k, failures, hlaid.isLeast, hlaid.length, hlaid.failed,
    ⟨run, hrun, hlaid.count, hlaid.pauses⟩, ?_⟩
  rw [call_of_retry hrun, reply_laidOut r hlaid]

/-- Two answers that a peer is unavailable, and then an area. -/
theorem call_course_third_answer :
    call {} (.one none) (replay fun n => if n < 3 then .error ⟨.unavailable, "down", []⟩
      else .ok [.zero]) [] =
        .ok (⟨[warning "calculator.calculate_one" 1 ⟨.unavailable, "down", []⟩ (.millis 100),
            warning "calculator.calculate_one" 2 ⟨.unavailable, "down", []⟩ (.millis 200)] ++
              conclusion "calculator.calculate_one" 3 (.ok [.zero]), .ok [.zero]⟩,
          [.one none, .one none, .one none]) := by
  obtain ⟨k, failures, hk, hlength, hfailures, -, hcall⟩ := call_course {} (by decide) (by decide)
    (.one none) fun n => if n < 3 then .error ⟨.unavailable, "down", []⟩ else .ok [.zero]
  obtain rfl : k = 3 := by
    refine hk.unique ⟨.inr ⟨by decide, trivial⟩, ?_⟩
    rintro n (rfl | ⟨-, hsettled⟩)
    · decide
    · by_contra hlt
      simp only [if_pos (Nat.lt_of_not_le hlt), Settled] at hsettled
      contradiction
  obtain ⟨⟨status, pause⟩, ⟨status', pause'⟩, rfl⟩ :=
    List.length_eq_two.1 (Nat.succ.inj hlength)
  obtain ⟨hstatus, hpause⟩ := hfailures 0 Nat.two_pos
  obtain ⟨hstatus', hpause'⟩ := hfailures 1 (Nat.lt_succ_self 1)
  obtain rfl : _ = status := Except.error.inj hstatus
  obtain rfl : _ = status' := Except.error.inj hstatus'
  obtain rfl : Duration.millis 100 = pause := Except.ok.inj hpause
  obtain rfl : Duration.millis 200 = pause' := Except.ok.inj hpause'
  exact hcall

end Planimeter.Session
