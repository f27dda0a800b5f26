import Planimeter.Client.Settings
/-!
# Pauses between attempts

A pause is a multiple of a step, cut off at a bound. The multiple is formed before it is cut off, so
that there is a pause exactly as long as the multiple is a duration itself; a lower bound does not
help. The main statement says which pause there is and when, that no pause exceeds the bound, and
that pauses do not get shorter from one attempt to the next.
-/
namespace Planimeter

attribute [ext] Duration

namespace Duration

variable {d : Duration} {n : Nat}

@[simp] theorem times?_of_lt (h : d.nanos * n < UInt64.size * 1000000000) :
    d.times? n = some ⟨d.nanos * n, h⟩ := dif_pos h

theorem times?_eq_none_iff : d.times? n = none ↔ UInt64.size * 1000000000 ≤ d.nanos * n := by
  rw [times?, ofNanos?, ← Nat.not_lt]
  split <;> simp_all

@[simp] theorem nanos_min (a b : Duration) : (a.min b).nanos = Min.min a.nanos b.nanos := by
  unfold Duration.min
  split <;> omega

end Duration

namespace ClientSettings

variable {s : ClientSettings} {attempt : Nat} {pause : Duration}

@[simp] theorem backoff_of_lt (h : s.baseBackoff.nanos * attempt < UInt64.size * 1000000000) :
    s.backoff attempt = .ok (Duration.min ⟨s.baseBackoff.nanos * attempt, h⟩ s.maxBackoff) := by
  rw [backoff, Duration.times?_of_lt h]

theorem backoff_of_le (h : UInt64.size * 1000000000 ≤ s.baseBackoff.nanos * attempt) :
    s.backoff attempt = .error .durationOverflow := by
  rw [backoff, Duration.times?_eq_none_iff.2 h]

/-- There is a pause exactly where the multiple is a duration, and it is the multiple cut off. -/
theorem backoff_eq_ok_iff : s.backoff attempt = .ok pause ↔
    s.baseBackoff.nanos * attempt < UInt64.size * 1000000000 ∧
      pause.nanos = min (s.baseBackoff.nanos * attempt) s.maxBackoff.nanos := by
  by_cases hlt : s.baseBackoff.nanos * attempt < UInt64.size * 1000000000
  · have hnanos := Duration.nanos_min ⟨s.baseBackoff.nanos * attempt, hlt⟩ s.maxBackoff
    rw [backoff_of_lt hlt, Except.ok.injEq, Duration.ext_iff, hnanos]
    exact ⟨fun h => ⟨hlt, h.symm⟩, fun h => h.2.symm⟩
  · rw [backoff_of_le (Nat.le_of_not_lt hlt)]
    exact ⟨fun h => by contradiction, fun h => absurd h.1 hlt⟩

/-- The pause after an attempt is the multiple of the step, cut off at the bound, if the multiple is
a duration; if it is not, the program stops, however low the bound is. No pause exceeds the bound,
and a later one is no shorter than one before it. -/
theorem backoff_cut_off_iff (s : ClientSettings) :
    (∀ attempt, (∃ pause, s.backoff attempt = .ok pause ∧
        pause.nanos = min (s.baseBackoff.nanos * attempt) s.maxBackoff.nanos) ↔
      s.baseBackoff.nanos * attempt < UInt64.size * 1000000000) ∧
    (∀ attempt, UInt64.size * 1000000000 ≤ s.baseBackoff.nanos * attempt →
      s.backoff attempt = .error .durationOverflow) ∧
    (∀ attempt pause, s.backoff attempt = .ok pause → pause.nanos ≤ s.maxBackoff.nanos) ∧
    ∀ attempt later pause pause', attempt ≤ later → s.backoff attempt = .ok pause →
      s.backoff later = .ok pause' → pause.nanos ≤ pause'.nanos := by
  refine ⟨fun attempt => ⟨?_, fun h => ?_⟩, fun attempt h => backoff_of_le h,
    fun attempt pause h => ?_, fun attempt later pause pause' hle h h' => ?_⟩
  · rintro ⟨pause, h, -⟩
    exact (backoff_eq_ok_iff.1 h).1
  · exact ⟨_, backoff_of_lt h, Duration.nanos_min _ _⟩
  · rw [(backoff_eq_ok_iff.1 h).2]
    exact Nat.min_le_right _ _
  · have hmultiple : s.baseBackoff.nanos * attempt ≤ s.baseBackoff.nanos * later :=
      Nat.mul_le_mul_left _ hle
    rw [(backoff_eq_ok_iff.1 h).2, (backoff_eq_ok_iff.1 h').2]
    omega

/-- A step of a quarter of the range of durations, and a bound below two of them. -/
def quarterStep : ClientSettings :=
  { baseBackoff := .seconds 4611686018427387904, maxBackoff := .seconds 6917529027641081856 }

/-- The second pause is cut off, and the fourth multiple is no duration any more. -/
theorem backoff_cut_off_iff_quarter :
    quarterStep.backoff 1 = .ok (.seconds 4611686018427387904) ∧
    quarterStep.backoff 2 = .ok (.seconds 6917529027641081856) ∧
    quarterStep.backoff 4 = .error .durationOverflow ∧
    (Duration.seconds 4611686018427387904).nanos ≤
      (Duration.seconds 6917529027641081856).nanos := by
  obtain ⟨-, hfault, -, hmono⟩ := backoff_cut_off_iff quarterStep
  have hfirst : quarterStep.backoff 1 = .ok (.seconds 4611686018427387904) :=
    backoff_eq_ok_iff.2 (by decide)
  have hsecond : quarterStep.backoff 2 = .ok (.seconds 6917529027641081856) :=
    backoff_eq_ok_iff.2 (by decide)
  exact ⟨hfirst, hsecond, hfault 4 (by decide), hmono 1 2 _ _ (by decide) hfirst hsecond⟩

/-- A step that the range holds once and not twice: the bound is a millisecond, and still there is
no second pause. -/
theorem backoff_fault_below_bound :
    backoff { baseBackoff := .seconds 18446744073709551615, maxBackoff := .millis 1 } 2 =
      .error .durationOverflow :=
  backoff_of_le (by decide)

end ClientSettings

end Planimeter
