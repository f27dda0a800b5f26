import Planimeter.Client.Retry
import Planimeter.Proofs.Client.Pauses
import Mathlib.Order.Bounds.Basic
/-!
# The course of attempts

A run of attempts is held against the outcomes that the attempts have one after the other. As long
as pauses and numbers stay in range the run exists, keeps every failed attempt with the pause after
it, and ends with the first outcome that settles the matter or with the last attempt allowed. The
step is one attempt; the run is the induction on the retries that are left.
-/
namespace Planimeter

variable {σ ε α : Type} {s : ClientSettings} {passing : ε → Bool}

/-- Whether an outcome ends the attempts: a success, or a failure that is not passing. -/
def Settled (passing : ε → Bool) : Except ε α → Prop
  | .ok _ => True
  | .error e => passing e = false

/-- The run of the attempts after the first `before` ones, where attempt `n` ends as `outcome n`. -/
structure Course (s : ClientSettings) (passing : ε → Bool) (outcome : Nat → Logged (Except ε α))
    (before : Nat) (run : Attempts ε α) : Prop where
  failed : ∀ i (h : i < run.failed.length),
    outcome (before + i + 1) = run.failed[i].outcome.map .error ∧
      passing run.failed[i].outcome.result = true ∧
        s.backoff (before + i + 1) = .ok run.failed[i].pause
  last : outcome (before + run.count) = run.last
  count_le : before + run.count ≤ s.maxRetries + 1
  ended : before + run.count = s.maxRetries + 1 ∨ Settled passing run.last.result

namespace Course

variable {outcome : Nat → Logged (Except ε α)} {before : Nat} {run : Attempts ε α}

/-- A run of a single attempt. -/
theorem single (hle : before ≤ s.maxRetries)
    (hended : before = s.maxRetries ∨ Settled passing (outcome (before + 1)).result) :
    Course s passing outcome before ⟨[], outcome (before + 1)⟩ where
  failed i h := absurd h (Nat.not_lt_zero i)
  last := rfl
  count_le := Nat.succ_le_succ hle
  ended := hended.imp_left (congrArg Nat.succ)

/-- A failed attempt and a pause before a run. -/
theorem cons {events : List Event} {e : ε} {pause : Duration}
    (hfailed : outcome (before + 1) = ⟨events, .error e⟩) (hpassing : passing e = true)
    (hpause : s.backoff (before + 1) = .ok pause) (h : Course s passing outcome (before + 1) run) :
    Course s passing outcome before ⟨⟨⟨events, e⟩, pause⟩ :: run.failed, run.last⟩ := by
  have hcount : before + Attempts.count ⟨⟨⟨events, e⟩, pause⟩ :: run.failed, run.last⟩ =
      before + 1 + run.count := by
    simp only [Attempts.count, List.length_cons]
    omega
  refine ⟨fun i hi => ?_, by rw [hcount]; exact h.last, by rw [hcount]; exact h.count_le,
    by rw [hcount]; exact h.ended⟩
  cases i with
  | zero => exact ⟨hfailed, hpassing, hpause⟩
  | succ i =>
    have hi' := h.failed i (Nat.lt_of_succ_lt_succ hi)
    rwa [show before + 1 + i + 1 = before + (i + 1) + 1 by omega] at hi'

/-- The number of attempts is the least number that is either the last one allowed or the number of
an outcome that settles the matter. -/
theorem isLeast_count (h : Course s passing outcome 0 run) :
    IsLeast (insert (s.maxRetries + 1) {n | 0 < n ∧ Settled passing (outcome n).result})
      run.count := by
  have hlast := h.last
  have hle := h.count_le
  have hended := h.ended
  rw [Nat.zero_add] at hlast hle hended
  constructor
  · refine hended.imp_right fun hsettled => ⟨Nat.succ_pos _, ?_⟩
    rwa [hlast]
  · rintro n (rfl | ⟨hpos, hsettled⟩)
    · exact hle
    · by_contra hlt
      have hi : n - 1 < run.failed.length := by
        simp only [Attempts.count] at hlt
        omega
      obtain ⟨hfailed, hpassing, -⟩ := h.failed (n - 1) hi
      rw [show 0 + (n - 1) + 1 = n by omega] at hfailed
      rw [hfailed, Logged.map, Settled, hpassing] at hsettled
      contradiction

end Course

namespace ClientSettings

/-- A multiple of the step up to the last one is still a duration. -/
theorem exists_backoff (h : s.baseBackoff.nanos * s.maxRetries < UInt64.size * 1000000000)
    {attempt : Nat} (hle : attempt ≤ s.maxRetries) : ∃ pause, s.backoff attempt = .ok pause :=
  ⟨_, backoff_of_lt (Nat.lt_of_le_of_lt (Nat.mul_le_mul_left _ hle) h)⟩

end ClientSettings

section

variable {attempt : σ → Logged (Except ε α) × σ}

/-- One attempt that settles the matter ends the run. -/
theorem retry_go_settled (left number : Nat) {state state' : σ} {last : Logged (Except ε α)}
    (hattempt : attempt state = (last, state')) (h : left = 0 ∨ Settled passing last.result) :
    retry.go s passing attempt left number state = .ok (⟨[], last⟩, state') := by
  obtain ⟨events, result⟩ := last
  unfold retry.go
  rw [hattempt]
  cases result with
  | ok a => rfl
  | error e =>
    rcases h with rfl | h
    · rfl
    · simp only [Settled] at h
      simp only [h]

/-- A failure for a passing reason is followed by a pause and the rest of the run. -/
theorem retry_go_passing (left number : Nat) {state state' state'' : σ} {events : List Event}
    {e : ε} {pause : Duration} {run : Attempts ε α}
    (hattempt : attempt state = (⟨events, .error e⟩, state')) (hpassing : passing e = true)
    (hpause : s.backoff number = .ok pause) (hnumber : number + 1 < attemptBound)
    (hrun : retry.go s passing attempt left (number + 1) state' = .ok (run, state'')) :
    retry.go s passing attempt (left + 1) number state =
      .ok (⟨⟨⟨events, e⟩, pause⟩ :: run.failed, run.last⟩, state'') := by
  rw [retry.go, hattempt]
  simp only [hpassing, hpause, hrun, if_neg (Nat.not_le.2 hnumber)]
  rfl

/-- The attempts take their course: `states n` is the state after `n` attempts. -/
theorem retry_course (hretries : s.maxRetries + 1 < UInt32.size)
    (hbackoff : s.baseBackoff.nanos * s.maxRetries < UInt64.size * 1000000000) (passing : ε → Bool)
    (outcome : Nat → Logged (Except ε α)) (states : Nat → σ)
    (hattempt : ∀ n, attempt (states n) = (outcome (n + 1), states (n + 1))) :
    ∃ run, retry s passing attempt (states 0) = .ok (run, states run.count) ∧
      Course s passing outcome 0 run := by
  suffices hgo : ∀ left before, before + left = s.maxRetries →
      ∃ run, retry.go s passing attempt left (before + 1) (states before) =
          .ok (run, states (before + run.count)) ∧ Course s passing outcome before run by
    simpa [retry] using hgo s.maxRetries 0 (Nat.zero_add _)
  intro left
  induction left with
  | zero =>
    intro before hleft
    exact ⟨⟨[], outcome (before + 1)⟩, retry_go_settled _ _ (hattempt before) (.inl rfl),
      .single (by omega) (.inl (by omega))⟩
  | succ left ih =>
    intro before hleft
    by_cases hsettled : Settled passing (outcome (before + 1)).result
    · exact ⟨⟨[], outcome (before + 1)⟩, retry_go_settled _ _ (hattempt before) (.inr hsettled),
        .single (by omega) (.inr hsettled)⟩
    · obtain ⟨run, hrun, hcourse⟩ := ih (before + 1) (by omega)
      obtain ⟨pause, hpause⟩ :=
        ClientSettings.exists_backoff hbackoff (show before + 1 ≤ s.maxRetries by omega)
      cases houtcome : outcome (before + 1) with
      | mk events result =>
        rw [houtcome] at hsettled
        cases result with
        | ok a => exact absurd trivial hsettled
        | error e =>
          have hpassing : passing e = true := by simpa [Settled] using hsettled
          have hcount : before + 1 + run.count = before + (run.count + 1) := by omega
          rw [hcount] at hrun
          refine ⟨_, retry_go_passing left _ (by rw [hattempt, houtcome]) hpassing hpause ?_ hrun,
            hcourse.cons houtcome hpassing hpause⟩
          change before + 1 + 1 < UInt32.size
          omega

end

/-- Attempts that report nothing themselves leave one report of each failure and the report of the
end. -/
theorem Attempts.events_eq {run : Attempts ε α} (retried : Nat → ε → Duration → Event)
    (ended : Nat → Except ε α → List Event)
    (hfailed : ∀ f ∈ run.failed, f.outcome.events = []) (hlast : run.last.events = []) :
    run.events retried ended =
      (run.failed.mapIdx fun i f => retried (i + 1) f.outcome.result f.pause) ++
        ended run.count run.last.result := by
  have hgo (number : Nat) : events.go retried ended run number run.failed =
      (run.failed.mapIdx fun i f => retried (number + i) f.outcome.result f.pause) ++
        ended (number + run.failed.length) run.last.result := by
    generalize run.failed = failed at hfailed
    induction failed generalizing number with
    | nil => simp [events.go, hlast]
    | cons f failed ih =>
      rw [List.forall_mem_cons] at hfailed
      rw [events.go, hfailed.1, ih _ hfailed.2, List.mapIdx_cons, List.length_cons]
      simp [Nat.add_assoc, Nat.add_comm 1]
  rw [events, hgo, count, Nat.add_comm run.failed.length]
  simp only [Nat.add_comm 1]

end Planimeter
