import Planimeter.Proofs.Client.Connecting
import Mathlib.Data.Nat.Find
/-!
# Retries that are used up

Every attempt fails for a passing reason, so that only the number of retries allowed can end the
attempts. The main statement says when it does: the last pause has to be a duration, and the last
attempt has to have a number. Otherwise the program stops on the way, for want of a pause or of a
number.
-/
namespace Planimeter

variable {σ ι ε α β γ : Type} {s : ClientSettings} {passing : ε → Bool}
  {attempt : σ → Logged (Except ε α) × σ}

/-- How attempts that all fail for a passing reason come out: the state they end in is `final`. -/
structure Exhausted (s : ClientSettings) (final : σ) (outcome : Except Fault (β × σ)) : Prop where
  completed : (∃ answer, outcome = .ok (answer, final)) ↔
    s.baseBackoff.nanos * s.maxRetries < UInt64.size * 1000000000 ∧
      s.maxRetries + 1 < UInt32.size
  unpaused : UInt64.size * 1000000000 ≤ s.baseBackoff.nanos * s.maxRetries →
    outcome = .error .durationOverflow
  unnumbered : s.baseBackoff.nanos * s.maxRetries < UInt64.size * 1000000000 →
    UInt32.size ≤ s.maxRetries + 1 → outcome = .error .attemptOverflow

/-- What is read off the attempts does not matter. -/
theorem Exhausted.map {final : σ} {outcome : Except Fault (β × σ)} (h : Exhausted s final outcome)
    (f : β → γ) : Exhausted s final (outcome.map fun (answer, state) => (f answer, state)) where
  completed := by
    rw [← h.completed]
    rcases outcome with fault | ⟨answer, state⟩ <;> simp [Except.map]
  unpaused hle := by rw [h.unpaused hle]; rfl
  unnumbered hlt hle := by rw [h.unnumbered hlt hle]; rfl

section

variable {errors : Nat → ε} {states : Nat → σ}

/-- The first multiple of the step that is no duration ends the attempts. -/
theorem retry_unpaused (hretries : s.maxRetries < UInt32.size)
    (hattempt : ∀ n, attempt (states n) = (⟨[], .error (errors (n + 1))⟩, states (n + 1)))
    (hpassing : ∀ n, passing (errors n) = true)
    (hbackoff : UInt64.size * 1000000000 ≤ s.baseBackoff.nanos * s.maxRetries) :
    retry s passing attempt (states 0) = .error .durationOverflow := by
  have hpos : 0 < s.maxRetries := by
    by_contra hzero
    rw [Nat.eq_zero_of_not_pos hzero] at hbackoff
    simp [UInt64.size] at hbackoff
  have hexists : ∃ n, UInt64.size * 1000000000 ≤ s.baseBackoff.nanos * (n + 1) :=
    ⟨s.maxRetries - 1, by rwa [Nat.sub_add_cancel hpos]⟩
  obtain ⟨last, hlast, hfirst⟩ : ∃ last,
      UInt64.size * 1000000000 ≤ s.baseBackoff.nanos * (last + 1) ∧
        ∀ n < last, ¬UInt64.size * 1000000000 ≤ s.baseBackoff.nanos * (n + 1) :=
    ⟨Nat.find hexists, Nat.find_spec hexists, fun n => Nat.find_min hexists⟩
  -- The last pause is none already, so the first that is none is not behind it.
  have hlt : last < s.maxRetries := by
    by_contra hge
    exact hfirst (s.maxRetries - 1) (by omega) (by rwa [Nat.sub_add_cancel hpos])
  refine retry_breaksOff errors states hattempt hpassing hlt (fun n hn => ⟨?_, ?_⟩)
    (.pause (ClientSettings.backoff_of_le hlast))
  · exact ⟨_, ClientSettings.backoff_of_lt (Nat.lt_of_not_le (hfirst n hn))⟩
  · change n + 2 < UInt32.size
    omega

/-- The attempt with the greatest number that still has a retry after it ends the attempts. -/
theorem retry_unnumbered (hretries : s.maxRetries < UInt32.size)
    (hattempt : ∀ n, attempt (states n) = (⟨[], .error (errors (n + 1))⟩, states (n + 1)))
    (hpassing : ∀ n, passing (errors n) = true)
    (hbackoff : s.baseBackoff.nanos * s.maxRetries < UInt64.size * 1000000000)
    (hlast : UInt32.size ≤ s.maxRetries + 1) :
    retry s passing attempt (states 0) = .error .attemptOverflow := by
  have hsize : s.maxRetries = UInt32.size - 1 := by omega
  have hpause (n : Nat) (hn : n < s.maxRetries) : ∃ pause, s.backoff (n + 1) = .ok pause :=
    ClientSettings.exists_backoff hbackoff hn
  obtain ⟨pause, hlastPause⟩ := hpause (UInt32.size - 2) (by rw [hsize]; decide)
  refine retry_breaksOff errors states hattempt hpassing (by rw [hsize]; decide)
    (fun n hn => ⟨hpause n (by omega), ?_⟩) (.number hlastPause (by decide))
  change n + 2 < UInt32.size
  omega

theorem retry_exhausted (passing : ε → Bool) (hretries : s.maxRetries < UInt32.size)
    (hattempt : ∀ n, attempt (states n) = (⟨[], .error (errors (n + 1))⟩, states (n + 1)))
    (hpassing : ∀ n, passing (errors n) = true) :
    Exhausted s (states (s.maxRetries + 1)) (retry s passing attempt (states 0)) where
  completed := by
    constructor
    · rintro ⟨run, hrun⟩
      by_contra hrange
      by_cases hbackoff : s.baseBackoff.nanos * s.maxRetries < UInt64.size * 1000000000
      · rw [retry_unnumbered hretries hattempt hpassing hbackoff
          (Nat.le_of_not_lt fun hlt => hrange ⟨hbackoff, hlt⟩)] at hrun
        contradiction
      · rw [retry_unpaused hretries hattempt hpassing (Nat.le_of_not_lt hbackoff)] at hrun
        contradiction
    · rintro ⟨hbackoff, hlt⟩
      obtain ⟨k, failures, run, hrun, hlaid⟩ :=
        retry_laidOut hlt hbackoff passing (fun n => .error (errors n)) states hattempt
      have hunsettled (n : Nat) : ¬Settled passing (.error (errors n) : Except ε α) := by
        simp [Settled, hpassing]
      rw [hlaid.eq_of_unsettled hunsettled] at hrun
      exact ⟨run, hrun⟩
  unpaused := retry_unpaused hretries hattempt hpassing
  unnumbered := retry_unnumbered hretries hattempt hpassing

end

namespace Session

theorem connect_exhausted (hretries : s.maxRetries < UInt32.size)
    {read : String → Except String ι} {uri : String} {address : ι}
    (hread : read uri = .ok address) (errors : Nat → String) :
    Exhausted s (List.replicate (s.maxRetries + 1) address)
      (connect s read uri (redial fun n => .error (errors n)) []) := by
  have hrun := retry_exhausted (fun _ => true) hretries
    (dialOnce_redial (fun n => .error (errors n)) address) fun _ => rfl
  rw [List.replicate_zero] at hrun
  rw [connect_eq, dialling_read hread]
  exact (hrun.map .ok).map (connection s uri)

theorem call_exhausted (hretries : s.maxRetries < UInt32.size) (r : Request)
    {statuses : Nat → Status} (hretryable : ∀ n, (statuses n).isRetryable = true) :
    Exhausted s (List.replicate (s.maxRetries + 1) r)
      (call s r (replay fun n => .error (statuses n)) []) := by
  have hrun := retry_exhausted Status.isRetryable hretries
    (replay_replicate (fun n => .error (statuses n)) r) hretryable
  rw [List.replicate_zero] at hrun
  rw [call_eq]
  exact hrun.map (reply r)

/-- Where every attempt fails for a passing reason, connecting and calling make all attempts allowed
if and only if the last pause is a duration and the last attempt has a number below two to the power
of 32. Otherwise they stop the program: where the last pause is no duration by the first pause that
is none, and else by the number after the greatest one. -/
theorem exhausted_iff (s : ClientSettings) (hretries : s.maxRetries < UInt32.size) :
    (∀ (read : String → Except String ι) (uri : String) (address : ι) (errors : Nat → String),
      read uri = .ok address →
      Exhausted s (List.replicate (s.maxRetries + 1) address)
        (connect s read uri (redial fun n => .error (errors n)) [])) ∧
    ∀ (r : Request) (statuses : Nat → Status), (∀ n, (statuses n).isRetryable = true) →
      Exhausted s (List.replicate (s.maxRetries + 1) r)
        (call s r (replay fun n => .error (statuses n)) []) :=
  ⟨fun _ _ _ errors hread => connect_exhausted hretries hread errors,
    fun r _ hretryable => call_exhausted hretries r hretryable⟩

/-- With the default step all three attempts are made that two retries allow. -/
theorem exhausted_iff_two_retries :
    (∃ answer, connect { maxRetries := 2 } Uri.ofEndpoint "http://a:1"
      (redial fun _ => .error "refused") [] =
        .ok (answer, List.replicate 3 ⟨some "http", "a:1", "/"⟩)) ∧
    ∃ answer, call { maxRetries := 2 } (.one none)
      (replay fun _ => .error ⟨.unavailable, "down", []⟩) [] =
        .ok (answer, List.replicate 3 (.one none)) := by
  obtain ⟨hconnect, hcall⟩ := exhausted_iff { maxRetries := 2 } (by decide)
  have hrange : ({ maxRetries := 2 } : ClientSettings).baseBackoff.nanos * 2 <
      UInt64.size * 1000000000 ∧ 2 + 1 < UInt32.size := by decide
  exact ⟨(hconnect Uri.ofEndpoint "http://a:1" _ (fun _ => "refused") rfl).completed.2 hrange,
    (hcall (.one none) (fun _ => ⟨.unavailable, "down", []⟩) fun _ => by decide).completed.2 hrange⟩

/-- As many retries as the counter has numbers are one too many: both loops leave it behind the last
one. And where the second pause is no duration, however low the bound of pauses is, connecting does
not come to its third attempt. -/
theorem overflow_before_last_attempt :
    connect { maxRetries := 4294967295 } Uri.ofEndpoint "http://a:1"
      (redial fun _ => .error "refused") [] = .error .attemptOverflow ∧
    call { maxRetries := 4294967295 } (.one none)
      (replay fun _ => .error ⟨.unavailable, "down", []⟩) [] = .error .attemptOverflow ∧
    connect
      { maxRetries := 2, baseBackoff := .seconds 9223372036854775808, maxBackoff := .millis 1 }
      Uri.ofEndpoint "http://a:1" (redial fun _ => .error "refused") [] =
        .error .durationOverflow := by
  have haddress : Uri.ofEndpoint "http://a:1" = .ok ⟨some "http", "a:1", "/"⟩ := by rfl
  refine ⟨(connect_exhausted (by decide) haddress _).unnumbered ?_ ?_,
    (call_exhausted (by decide) _ fun _ => by decide).unnumbered ?_ ?_,
    (connect_exhausted (by decide) haddress _).unpaused ?_⟩
  all_goals decide

end Session

end Planimeter
