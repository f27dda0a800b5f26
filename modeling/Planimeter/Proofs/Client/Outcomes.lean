import Planimeter.Proofs.Client.Attempts
/-!
# Runs against laid-out outcomes

A run is held against attempts that report nothing themselves and have their outcomes laid out. If
pauses and numbers stay in range the run is told by its failures, each with the pause after it, and
by the outcome that ends it. If an attempt should be followed by another and cannot be, because
there is no pause or no number for it, the run breaks off there.
-/
namespace Planimeter

variable {σ ε α : Type} {s : ClientSettings} {passing : ε → Bool}
  {attempt : σ → Logged (Except ε α) × σ}

/-- A run of `k` attempts: the failures, each with the pause after it, and what is left to read off
the run. -/
structure LaidOut (s : ClientSettings) (passing : ε → Bool) (outcome : Nat → Except ε α) (k : Nat)
    (failures : List (ε × Duration)) (run : Attempts ε α) : Prop where
  isLeast : IsLeast (insert (s.maxRetries + 1) {n | 0 < n ∧ Settled passing (outcome n)}) k
  length : failures.length + 1 = k
  failed : ∀ i (h : i < failures.length),
    outcome (i + 1) = .error failures[i].1 ∧ s.backoff (i + 1) = .ok failures[i].2
  count : run.count = k
  pauses : run.pauses = failures.map Prod.snd
  result : run.last.result = outcome k
  events : ∀ retried ended, run.events retried ended =
    (failures.mapIdx fun i f => retried (i + 1) f.1 f.2) ++ ended k (outcome k)

theorem retry_laidOut (hretries : s.maxRetries + 1 < UInt32.size)
    (hbackoff : s.baseBackoff.nanos * s.maxRetries < UInt64.size * 1000000000) (passing : ε → Bool)
    (outcome : Nat → Except ε α) (states : Nat → σ)
    (hattempt : ∀ n, attempt (states n) = (⟨[], outcome (n + 1)⟩, states (n + 1))) :
    ∃ k failures run, retry s passing attempt (states 0) = .ok (run, states k) ∧
      LaidOut s passing outcome k failures run := by
  obtain ⟨run, hrun, hcourse⟩ :=
    retry_course hretries hbackoff passing (fun n => ⟨[], outcome n⟩) states hattempt
  have hlast := hcourse.last
  rw [Nat.zero_add] at hlast
  have hresult : run.last.result = outcome run.count := (congrArg Logged.result hlast).symm
  refine ⟨run.count, run.failed.map fun f => (f.outcome.result, f.pause), run, hrun,
    hcourse.isLeast_count, by rw [List.length_map, Attempts.count], fun i hi => ?_, rfl,
    by rw [Attempts.pauses, List.map_map]; rfl, hresult, fun retried ended => ?_⟩
  · rw [List.length_map] at hi
    obtain ⟨hfailed, -, hpause⟩ := hcourse.failed i hi
    rw [Nat.zero_add] at hfailed hpause
    rw [List.getElem_map]
    exact ⟨congrArg Logged.result hfailed, hpause⟩
  · have hsilent : ∀ f ∈ run.failed, f.outcome.events = [] := by
      intro f hf
      obtain ⟨i, hi, rfl⟩ := List.getElem_of_mem hf
      exact (congrArg Logged.events (hcourse.failed i hi).1).symm
    rw [Attempts.events_eq retried ended hsilent (congrArg Logged.events hlast).symm, ← hresult]
    congr 1
    exact List.ext_getElem (by simp) (by simp)

namespace LaidOut

variable {outcome : Nat → Except ε α} {k i : Nat} {failures : List (ε × Duration)}
  {run : Attempts ε α}

/-- An attempt that was made and is not the last one allowed is followed by another unless its
outcome settles the matter. -/
theorem lt_iff (h : LaidOut s passing outcome k failures run) (hpos : 0 < i) (hle : i ≤ k)
    (hallowed : i ≤ s.maxRetries) : i < k ↔ ¬Settled passing (outcome i) := by
  constructor
  · intro hlt hsettled
    exact Nat.not_le_of_lt hlt (h.isLeast.2 (.inr ⟨hpos, hsettled⟩))
  · intro hsettled
    refine Nat.lt_of_le_of_ne hle ?_
    rintro rfl
    rcases h.isLeast.1 with hlast | ⟨-, hends⟩
    · omega
    · exact hsettled hends

/-- Where nothing ever settles the matter all attempts allowed are made. -/
theorem eq_of_unsettled (h : LaidOut s passing outcome k failures run)
    (hunsettled : ∀ n, ¬Settled passing (outcome n)) : k = s.maxRetries + 1 :=
  h.isLeast.1.resolve_right fun hends => hunsettled k hends.2

end LaidOut

/-- The attempt with the given number cannot be followed by another. -/
inductive BreaksOff (s : ClientSettings) (number : Nat) : Fault → Prop where
  | pause {fault : Fault} (h : s.backoff number = .error fault) : BreaksOff s number fault
  | number {pause : Duration} (hpause : s.backoff number = .ok pause)
      (hnumber : attemptBound ≤ number + 1) : BreaksOff s number .attemptOverflow

/-- A failure for a passing reason that cannot be followed by another attempt breaks the run off. -/
theorem retry_go_breaksOff (left : Nat) {number : Nat} {state state' : σ} {events : List Event}
    {e : ε} {fault : Fault} (hattempt : attempt state = (⟨events, .error e⟩, state'))
    (hpassing : passing e = true) (h : BreaksOff s number fault) :
    retry.go s passing attempt (left + 1) number state = .error fault := by
  rw [retry.go, hattempt]
  cases h with
  | pause hpause => simp only [hpassing, hpause]; rfl
  | number hpause hnumber => simp only [hpassing, hpause, if_pos hnumber]; rfl

/-- A run that breaks off after a later attempt breaks off. -/
theorem retry_go_error (left : Nat) {number : Nat} {state state' : σ} {events : List Event} {e : ε}
    {pause : Duration} {fault : Fault} (hattempt : attempt state = (⟨events, .error e⟩, state'))
    (hpassing : passing e = true) (hpause : s.backoff number = .ok pause)
    (hnumber : number + 1 < attemptBound)
    (hrun : retry.go s passing attempt left (number + 1) state' = .error fault) :
    retry.go s passing attempt (left + 1) number state = .error fault := by
  rw [retry.go, hattempt]
  simp only [hpassing, hpause, hrun, if_neg (Nat.not_le.2 hnumber)]
  rfl

/-- A run all of whose attempts fail for a passing reason breaks off with the first one that has
another after it and cannot be followed. -/
theorem retry_breaksOff {fault : Fault} {last : Nat} (errors : Nat → ε) (states : Nat → σ)
    (hattempt : ∀ n, attempt (states n) = (⟨[], .error (errors (n + 1))⟩, states (n + 1)))
    (hpassing : ∀ n, passing (errors n) = true) (hlast : last < s.maxRetries)
    (hfollowed : ∀ n < last, (∃ pause, s.backoff (n + 1) = .ok pause) ∧ n + 2 < attemptBound)
    (h : BreaksOff s (last + 1) fault) :
    retry s passing attempt (states 0) = .error fault := by
  -- The induction is on how many attempts are still followed before the one that cannot be; the
  -- retries left always outnumber them, so the number of attempts never ends the run first.
  suffices hgo : ∀ more before left, before + more = last → more < left →
      retry.go s passing attempt left (before + 1) (states before) = .error fault by
    exact hgo last 0 s.maxRetries (Nat.zero_add last) hlast
  intro more
  induction more with
  | zero =>
    rintro before (_ | left) rfl hleft
    · contradiction
    · exact retry_go_breaksOff left (hattempt before) (hpassing _) h
  | succ more ih =>
    rintro before (_ | left) hbefore hleft
    · contradiction
    · obtain ⟨⟨pause, hpause⟩, hnumber⟩ := hfollowed before (by omega)
      exact retry_go_error left (hattempt before) (hpassing _) hpause hnumber
        (ih (before + 1) left (by omega) (by omega))

end Planimeter
