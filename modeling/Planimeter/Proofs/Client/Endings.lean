import Planimeter.Client.Session
import Planimeter.Proofs.Client.Attempts
/-!
# The attempt that ends a run

A run of attempts is held against a peer of which nothing is known: each attempt is one step of its
state. The run ends with the first attempt that settles the matter or with the last one allowed,
and exists if each attempt before could be followed by another. Where the first attempt ends the
run, connecting and calling are a single step of the peer.
-/
namespace Planimeter

variable {σ ε α : Type} {s : ClientSettings} {passing : ε → Bool}

/-- What the attempt after the first `n` ones yields, and the state that it leaves. -/
def attemptAfter (attempt : σ → Logged (Except ε α) × σ) : Nat → σ → Logged (Except ε α) × σ
  | 0, state => attempt state
  | n + 1, state => attemptAfter attempt n (attempt state).2

/-- An attempt with the given number fails for a passing reason and is followed by a pause and by
another attempt, which still has a number. -/
def Retried (s : ClientSettings) (passing : ε → Bool) (number : Nat) (result : Except ε α) : Prop :=
  ¬Settled passing result ∧ (∃ pause, s.backoff number = .ok pause) ∧ number + 1 < attemptBound

/-- Of the attempts from a number on, with `left` retries left, the one after `n` others ends the
run. -/
structure EndsAfter (s : ClientSettings) (passing : ε → Bool)
    (attempt : σ → Logged (Except ε α) × σ) (left number : Nat) (state : σ) (n : Nat) : Prop where
  le : n ≤ left
  retried : ∀ i < n, Retried s passing (number + i) (attemptAfter attempt i state).1.result
  ended : n = left ∨ Settled passing (attemptAfter attempt n state).1.result

variable {attempt : σ → Logged (Except ε α) × σ}

/-- Where the first attempt ends the run it alone does. -/
theorem endsAfter_iff_of_ended {left number n : Nat} {state : σ}
    (hended : left = 0 ∨ Settled passing (attempt state).1.result) :
    EndsAfter s passing attempt left number state n ↔ n = 0 := by
  constructor
  · intro h
    by_contra hne
    rcases hended with rfl | hsettled
    · exact hne (Nat.le_zero.1 h.le)
    · exact (h.retried 0 (Nat.pos_of_ne_zero hne)).1 hsettled
  · rintro rfl
    exact ⟨Nat.zero_le _, fun i hi => absurd hi (Nat.not_lt_zero i), hended.imp_left Eq.symm⟩

@[simp] theorem endsAfter_succ_iff {left number n : Nat} {state : σ} :
    EndsAfter s passing attempt (left + 1) number state (n + 1) ↔
      Retried s passing number (attempt state).1.result ∧
        EndsAfter s passing attempt left (number + 1) (attempt state).2 n := by
  constructor
  · intro h
    refine ⟨h.retried 0 (Nat.succ_pos n), Nat.le_of_succ_le_succ h.le, fun i hi => ?_,
      h.ended.imp_left Nat.succ.inj⟩
    have hretried := h.retried (i + 1) (Nat.succ_lt_succ hi)
    rw [show number + (i + 1) = number + 1 + i by omega] at hretried
    exact hretried
  · rintro ⟨hfirst, h⟩
    refine ⟨Nat.succ_le_succ h.le, fun i hi => ?_, h.ended.imp_left (congrArg Nat.succ)⟩
    cases i with
    | zero => exact hfirst
    | succ i =>
      have hretried := h.retried i (Nat.lt_of_succ_lt_succ hi)
      rw [show number + 1 + i = number + (i + 1) by omega] at hretried
      exact hretried

theorem retry_go_ended_iff {left number : Nat} {state state' : σ} {last : Logged (Except ε α)}
    (hended : left = 0 ∨ Settled passing (attempt state).1.result) :
    (∃ failed, retry.go s passing attempt left number state = .ok (⟨failed, last⟩, state')) ↔
      attempt state = (last, state') := by
  have hrun : retry.go s passing attempt left number state =
      .ok (⟨[], (attempt state).1⟩, (attempt state).2) := retry_go_settled left number rfl hended
  simp [hrun, Prod.ext_iff]

/-- A run that an attempt does not end goes on after it with one retry less. -/
theorem retry_go_succ_iff {left number : Nat} {state state' : σ} {last : Logged (Except ε α)}
    (hsettled : ¬Settled passing (attempt state).1.result) :
    (∃ failed, retry.go s passing attempt (left + 1) number state = .ok (⟨failed, last⟩, state')) ↔
      Retried s passing number (attempt state).1.result ∧
        ∃ failed, retry.go s passing attempt left (number + 1) (attempt state).2 =
          .ok (⟨failed, last⟩, state') := by
  cases hattempt : attempt state with
  | mk outcome next =>
    obtain ⟨events, result⟩ := outcome
    rw [hattempt] at hsettled
    cases result with
    | ok a => exact absurd trivial hsettled
    | error e =>
      have hpassing : passing e = true := by simpa [Settled] using hsettled
      constructor
      · rintro ⟨failed, hrun⟩
        rw [retry.go, hattempt] at hrun
        simp only [hpassing] at hrun
        cases hpause : s.backoff number with
        | error fault => simp [hpause, bind, Except.bind] at hrun
        | ok pause =>
          by_cases hnumber : number + 1 < attemptBound
          · cases hrest : retry.go s passing attempt left (number + 1) next with
            | error fault => simp [hpause, hrest, Nat.not_le.2 hnumber, bind, Except.bind] at hrun
            | ok rest =>
              simp [hpause, hrest, Nat.not_le.2 hnumber, bind, Except.bind, pure, Except.pure]
                at hrun
              exact ⟨⟨hsettled, ⟨pause, hpause⟩, hnumber⟩, rest.1.failed,
                by rw [← hrun.1.2, ← hrun.2]⟩
          · simp [hpause, Nat.not_lt.1 hnumber, bind, Except.bind, throw, throwThe,
              MonadExceptOf.throw] at hrun
      · rintro ⟨⟨-, ⟨pause, hpause⟩, hnumber⟩, failed, hrest⟩
        exact ⟨_, retry_go_passing left number hattempt hpassing hpause hnumber hrest⟩

/-- A run ends with the first attempt that settles the matter or is the last one allowed, provided
that each attempt before it could be followed by another. -/
theorem retry_go_ok_iff {left number : Nat} {state state' : σ} {last : Logged (Except ε α)} :
    (∃ failed, retry.go s passing attempt left number state = .ok (⟨failed, last⟩, state')) ↔
      ∃ n, EndsAfter s passing attempt left number state n ∧
        attemptAfter attempt n state = (last, state') := by
  induction left generalizing number state with
  | zero =>
    rw [retry_go_ended_iff (.inl rfl)]
    simp [endsAfter_iff_of_ended, attemptAfter]
  | succ left ih =>
    by_cases hsettled : Settled passing (attempt state).1.result
    · rw [retry_go_ended_iff (.inr hsettled)]
      simp [endsAfter_iff_of_ended (.inr hsettled), attemptAfter]
    · rw [retry_go_succ_iff hsettled, ih]
      constructor
      · rintro ⟨hretried, n, hends, hlast⟩
        exact ⟨n + 1, endsAfter_succ_iff.2 ⟨hretried, hends⟩, hlast⟩
      · rintro ⟨n, hends, hlast⟩
        cases n with
        | zero => exact absurd (hends.ended.resolve_left (Nat.succ_ne_zero left).symm) hsettled
        | succ n =>
          obtain ⟨hretried, hends⟩ := endsAfter_succ_iff.1 hends
          exact ⟨hretried, n, hends, hlast⟩

@[simp] theorem mapError_eq_ok_iff {ε' : Type} {f : ε → ε'} {result : Except ε α} {a : α} :
    result.mapError f = .ok a ↔ result = .ok a := by
  cases result <;> simp [Except.mapError]

namespace Session

variable {ι : Type} {r : Request} {send : Request → σ → Logged (Except Status (List Binary32)) × σ}
  {read : String → Except String ι} {uri : String} {address : ι}
  {dial : ι → σ → Except String Unit × σ} {state : σ}

/-- What a call comes back with, read off its attempts. -/
def reply (r : Request) (run : Attempts Status (List Binary32)) :
    Logged (Except ClientError (List Binary32)) :=
  ⟨run.events (callRetried (operation r)) (callEnded (operation r)),
    run.last.result.mapError ClientError.ofStatus⟩

theorem call_eq (s : ClientSettings) (r : Request)
    (send : Request → σ → Logged (Except Status (List Binary32)) × σ) (state : σ) :
    call s r send state = (retry s Status.isRetryable (send r) state).map fun (run, state) =>
      (reply r run, state) := by
  rw [call]
  cases retry s Status.isRetryable (send r) state <;> rfl

theorem call_of_retry {run : Attempts Status (List Binary32)} {state' : σ}
    (h : retry s Status.isRetryable (send r) state = .ok (run, state')) :
    call s r send state = .ok (reply r run, state') := by
  rw [call_eq, h]
  rfl

/-- A call whose first attempt is the last one allowed or settles the matter makes no other. -/
theorem call_ended
    (h : s.maxRetries = 0 ∨ Settled Status.isRetryable (send r state).1.result) :
    call s r send state = .ok (⟨(send r state).1.events ++
        callEnded (operation r) 1 (send r state).1.result,
      (send r state).1.result.mapError ClientError.ofStatus⟩, (send r state).2) :=
  call_of_retry (retry_go_settled s.maxRetries 1 rfl h)

/-- For an identifier that cannot be read nothing is done. -/
theorem connect_unread {problem : String} (hread : read uri = .error problem) :
    connect s read uri dial state =
      .ok (⟨[], .error (.internal s!"invalid endpoint '{uri}': {problem}")⟩, state) := by
  rw [connect, hread]

/-- A first attempt to connect that is the last one allowed or succeeds is the only one. -/
theorem connect_ended (hread : read uri = .ok address)
    (h : s.maxRetries = 0 ∨ Settled (fun _ => true) (dial address state).1) :
    connect s read uri dial state = .ok (⟨connectionEnded s uri 1 (dial address state).1,
      (dial address state).1.mapError fun error =>
        .transport s!"failed to connect to {uri} after {(1 : Nat)} attempts: {error}"⟩,
      (dial address state).2) := by
  have hrun : retry s (fun _ => true)
      (fun state => (⟨[], (dial address state).1⟩, (dial address state).2)) state =
        .ok (⟨[], ⟨[], (dial address state).1⟩⟩, (dial address state).2) :=
    retry_go_settled s.maxRetries 1 rfl h
  simp only [connect, hread]
  rw [hrun]
  rfl

end Session

end Planimeter
