import Planimeter.Proofs.Client.Calls
/-!
# What becomes of a status

A status that a call ends with is turned into an error, and the call is made again or not. Both are
decided by the code and the chain of errors behind it, each on its own. The main statement says how
for every code number and every chain, that the two decisions agree, and that a call keeps to them.
-/
namespace Planimeter

namespace Code

variable {n : Int} {c : Code}

@[simp] theorem ofInt_toNat (c : Code) : ofInt c.toNat = c := by
  cases c <;> rfl

theorem ofInt_of_out_of_range (h : n < 0 ∨ 16 < n) : ofInt n = unknown := by
  cases n with
  | negSucc n => rfl
  | ofNat n =>
    rw [Int.ofNat_eq_natCast] at h
    have hlength : all.length ≤ n := by
      change 17 ≤ n
      omega
    rw [ofInt, List.getElem?_eq_none hlength]
    rfl

/-- A code other than `unknown` has one number. -/
theorem ofInt_eq_iff (hc : c ≠ unknown) : ofInt n = c ↔ n = c.toNat := by
  constructor
  · intro h
    by_cases hrange : n < 0 ∨ 16 < n
    · exact absurd (h.symm.trans (ofInt_of_out_of_range hrange)) hc
    · obtain ⟨m, rfl⟩ := Int.eq_ofNat_of_zero_le (show 0 ≤ n by omega)
      have hlt : m < all.length := by
        change m < 17
        omega
      have hget : all[m] = c := by simpa [ofInt, List.getElem?_eq_getElem hlt] using h
      have hnodup : all.Nodup := by decide
      rw [toNat, ← hget, hnodup.idxOf_getElem]
  · rintro rfl
    exact ofInt_toNat c

end Code

section

variable {status : Status} {inner : String}

theorem Status.isDeadlineExceeded_iff : status.isDeadlineExceeded = true ↔
    status.code = .deadlineExceeded ∨ .timeoutExpired ∈ status.sources := by
  simp [isDeadlineExceeded]

theorem Status.isRetryable_iff : status.isRetryable = true ↔
    status.isDeadlineExceeded = true ∨ status.code = .unavailable := by
  simp [isRetryable, or_comm]

namespace ClientError

/-- A status is of one of three sorts, and each has an error of its own. -/
theorem ofStatus_cases (status : Status) :
    status.isDeadlineExceeded = true ∧ ofStatus status = .timeout status.message ∨
    status.isDeadlineExceeded = false ∧ status.code = .invalidArgument ∧
      ofStatus status = .invalidShape status.message ∨
    status.isDeadlineExceeded = false ∧ status.code ≠ .invalidArgument ∧
      ofStatus status = .transport (status.code.text ++ ": " ++ status.message) := by
  cases hexceeded : status.isDeadlineExceeded with
  | true => exact .inl ⟨rfl, if_pos hexceeded⟩
  | false =>
    by_cases hcode : status.code = .invalidArgument
    · exact .inr (.inl ⟨rfl, hcode, by rw [ofStatus, if_neg (by simp [hexceeded]), if_pos hcode]⟩)
    · refine .inr (.inr ⟨rfl, hcode, ?_⟩)
      rw [ofStatus, if_neg (by simp [hexceeded]), if_neg hcode]
      rfl

theorem ofStatus_eq_timeout_iff : ofStatus status = .timeout inner ↔
    status.isDeadlineExceeded = true ∧ inner = status.message := by
  rcases ofStatus_cases status with ⟨h, hstatus⟩ | ⟨h, -, hstatus⟩ | ⟨h, -, hstatus⟩
  · simp [h, hstatus, eq_comm]
  · simp [h, hstatus]
  · simp [h, hstatus]

theorem ofStatus_eq_invalidShape_iff : ofStatus status = .invalidShape inner ↔
    status.isDeadlineExceeded = false ∧ status.code = .invalidArgument ∧
      inner = status.message := by
  rcases ofStatus_cases status with ⟨h, hstatus⟩ | ⟨h, hcode, hstatus⟩ | ⟨h, hcode, hstatus⟩
  · simp [h, hstatus]
  · simp [h, hcode, hstatus, eq_comm]
  · simp [hcode, hstatus]

theorem ofStatus_eq_transport_iff : ofStatus status = .transport inner ↔
    status.isDeadlineExceeded = false ∧ status.code ≠ .invalidArgument ∧
      inner = status.code.text ++ ": " ++ status.message := by
  rcases ofStatus_cases status with ⟨h, hstatus⟩ | ⟨h, hcode, hstatus⟩ | ⟨h, hcode, hstatus⟩
  · simp [h, hstatus]
  · simp [hcode, hstatus]
  · simp [h, hcode, hstatus, eq_comm]

end ClientError

end

section

variable {n : Int} {message inner : String} {sources : List Source}

@[simp] theorem Status.isDeadlineExceeded_ofInt_iff :
    Status.isDeadlineExceeded ⟨Code.ofInt n, message, sources⟩ = true ↔
      n = 4 ∨ .timeoutExpired ∈ sources := by
  rw [isDeadlineExceeded_iff]
  exact or_congr_left (Code.ofInt_eq_iff (by decide))

@[simp] theorem Status.isDeadlineExceeded_ofInt_eq_false_iff :
    Status.isDeadlineExceeded ⟨Code.ofInt n, message, sources⟩ = false ↔
      n ≠ 4 ∧ .timeoutExpired ∉ sources := by
  simp [← Bool.not_eq_true]

@[simp] theorem Status.isRetryable_ofInt_iff :
    Status.isRetryable ⟨Code.ofInt n, message, sources⟩ = true ↔
      (n = 4 ∨ .timeoutExpired ∈ sources) ∨ n = 14 := by
  rw [isRetryable_iff, isDeadlineExceeded_ofInt_iff]
  exact or_congr_right (Code.ofInt_eq_iff (by decide))

namespace ClientError

theorem ofStatus_ofInt_eq_timeout_iff :
    ofStatus ⟨Code.ofInt n, message, sources⟩ = .timeout inner ↔
      (n = 4 ∨ .timeoutExpired ∈ sources) ∧ inner = message := by
  simp [ofStatus_eq_timeout_iff]

theorem ofStatus_ofInt_eq_invalidShape_iff :
    ofStatus ⟨Code.ofInt n, message, sources⟩ = .invalidShape inner ↔
      n = 3 ∧ .timeoutExpired ∉ sources ∧ inner = message := by
  rw [ofStatus_eq_invalidShape_iff, Status.isDeadlineExceeded_ofInt_eq_false_iff,
    Code.ofInt_eq_iff (by decide)]
  constructor
  · rintro ⟨⟨-, hchain⟩, hthree, hinner⟩
    exact ⟨hthree, hchain, hinner⟩
  · rintro ⟨rfl, hchain, hinner⟩
    exact ⟨⟨by decide, hchain⟩, rfl, hinner⟩

theorem ofStatus_ofInt_eq_transport_iff :
    ofStatus ⟨Code.ofInt n, message, sources⟩ = .transport inner ↔
      n ≠ 3 ∧ n ≠ 4 ∧ .timeoutExpired ∉ sources ∧
        inner = (Code.ofInt n).text ++ ": " ++ message := by
  have hthree : Code.ofInt n ≠ .invalidArgument ↔ n ≠ 3 :=
    not_congr (Code.ofInt_eq_iff (by decide))
  rw [ofStatus_eq_transport_iff, Status.isDeadlineExceeded_ofInt_eq_false_iff, hthree]
  constructor
  · rintro ⟨⟨hfour, hchain⟩, hthree, hinner⟩
    exact ⟨hthree, hfour, hchain, hinner⟩
  · rintro ⟨hthree, hfour, hchain, hinner⟩
    exact ⟨⟨hfour, hchain⟩, hthree, hinner⟩

end ClientError

end

namespace Session

/-- After a status that is not the answer to the last attempt allowed, the request is sent again if
and only if the status can be retried; the last answer is what the call comes back with. -/
theorem call_lt_iff (s : ClientSettings) (hretries : s.maxRetries + 1 < UInt32.size)
    (hbackoff : s.baseBackoff.nanos * s.maxRetries < UInt64.size * 1000000000) (r : Request)
    (outcome : Nat → Except Status (List Binary32)) :
    ∃ answer k, 0 < k ∧ call s r (replay outcome) [] = .ok (answer, List.replicate k r) ∧
      answer.result = (outcome k).mapError ClientError.ofStatus ∧
      ∀ i status, 0 < i → i ≤ k → i ≤ s.maxRetries → outcome i = .error status →
        (i < k ↔ status.isRetryable = true) := by
  obtain ⟨k, failures, run, hrun, hlaid⟩ := retry_replay hretries hbackoff r outcome
  have hpos : 0 < k := hlaid.length ▸ Nat.succ_pos failures.length
  refine ⟨reply r run, k, hpos, call_of_retry hrun, by rw [reply, hlaid.result],
    fun i status hpos hle hallowed houtcome => ?_⟩
  rw [hlaid.lt_iff hpos hle hallowed, houtcome, Settled, Bool.not_eq_false]

/-- A status with the code of a number is a timeout if that is the number 4 or a timeout is anywhere
in the chain behind it, else an invalid shape if the number is 3, and else a failure of the
transport that shows the code. It can be retried exactly if it is a timeout or the number is 14,
hence never as an invalid shape, and a call sends its request again by that. -/
theorem status_decides (n : Int) (message : String) (sources : List Source) :
    let status : Status := ⟨Code.ofInt n, message, sources⟩
    (n < 0 ∨ 16 < n → status.code = .unknown) ∧
    (∀ inner, ClientError.ofStatus status = .timeout inner ↔
      (n = 4 ∨ .timeoutExpired ∈ sources) ∧ inner = message) ∧
    (∀ inner, ClientError.ofStatus status = .invalidShape inner ↔
      n = 3 ∧ .timeoutExpired ∉ sources ∧ inner = message) ∧
    (∀ inner, ClientError.ofStatus status = .transport inner ↔
      n ≠ 3 ∧ n ≠ 4 ∧ .timeoutExpired ∉ sources ∧
        inner = (Code.ofInt n).text ++ ": " ++ message) ∧
    (status.isRetryable = true ↔
      (∃ inner, ClientError.ofStatus status = .timeout inner) ∨ n = 14) ∧
    (∀ inner, ClientError.ofStatus status = .invalidShape inner → status.isRetryable = false) ∧
    (∀ inner, ClientError.ofStatus status = .timeout inner → status.isRetryable = true) ∧
    (∀ inner, ClientError.ofStatus status = .transport inner →
      (status.isRetryable = true ↔ n = 14)) ∧
    ∀ (s : ClientSettings) (r : Request) (outcome : Nat → Except Status (List Binary32)),
      s.maxRetries + 1 < UInt32.size →
      s.baseBackoff.nanos * s.maxRetries < UInt64.size * 1000000000 →
      ∃ answer k, 0 < k ∧ call s r (replay outcome) [] = .ok (answer, List.replicate k r) ∧
        answer.result = (outcome k).mapError ClientError.ofStatus ∧
        ∀ i, 0 < i → i ≤ k → i ≤ s.maxRetries → outcome i = .error status →
          (i < k ↔ n = 4 ∨ .timeoutExpired ∈ sources ∨ n = 14) := by
  intro status
  have hretryable : status.isRetryable = true ↔ (n = 4 ∨ .timeoutExpired ∈ sources) ∨ n = 14 :=
    Status.isRetryable_ofInt_iff
  refine ⟨Code.ofInt_of_out_of_range, fun inner => ClientError.ofStatus_ofInt_eq_timeout_iff,
    fun inner => ClientError.ofStatus_ofInt_eq_invalidShape_iff,
    fun inner => ClientError.ofStatus_ofInt_eq_transport_iff, ?_, fun inner h => ?_,
    fun inner h => ?_, fun inner h => ?_, fun s r outcome hretries hbackoff => ?_⟩
  · rw [hretryable]
    simp only [status, ClientError.ofStatus_ofInt_eq_timeout_iff, exists_and_left, exists_eq,
      and_true]
  · obtain ⟨rfl, hchain, -⟩ := ClientError.ofStatus_ofInt_eq_invalidShape_iff.1 h
    rw [← Bool.not_eq_true, hretryable]
    simp [hchain]
  · exact hretryable.2 (.inl (ClientError.ofStatus_ofInt_eq_timeout_iff.1 h).1)
  · obtain ⟨-, hfour, hchain, -⟩ := ClientError.ofStatus_ofInt_eq_transport_iff.1 h
    rw [hretryable]
    simp [hfour, hchain]
  · obtain ⟨answer, k, hk, hcall, hresult, hagain⟩ := call_lt_iff s hretries hbackoff r outcome
    refine ⟨answer, k, hk, hcall, hresult, fun i hpos hle hallowed houtcome => ?_⟩
    rw [hagain i status hpos hle hallowed houtcome, hretryable, or_assoc]

/-- A timeout deep in the chain behind a status of an invalid argument, and a status of an invalid
argument without one: the first is a timeout and the request is sent again. -/
theorem status_decides_invalid_argument :
    let late : Status := ⟨Code.ofInt 3, "late", [.other "transport error", .timeoutExpired]⟩
    ClientError.ofStatus late = .timeout "late" ∧
    (∃ answer k, 1 < k ∧ call { maxRetries := 1 } (.one none) (replay fun _ => .error late) [] =
      .ok (answer, List.replicate k (.one none))) ∧
    ClientError.ofStatus ⟨Code.ofInt 3, "Not a valid shape", []⟩ =
      .invalidShape "Not a valid shape" ∧
    Status.isRetryable ⟨Code.ofInt 3, "Not a valid shape", []⟩ = false := by
  intro late
  obtain ⟨-, htimeout, -, -, -, -, -, -, hcalls⟩ :=
    status_decides 3 "late" [.other "transport error", .timeoutExpired]
  obtain ⟨answer, k, hk, hcall, -, hagain⟩ := hcalls { maxRetries := 1 } (.one none)
    (fun _ => .error late) (by decide) (by decide)
  obtain ⟨-, -, hinvalid, -, -, hfinal, -⟩ := status_decides 3 "Not a valid shape" []
  have hshape := (hinvalid _).2 ⟨rfl, List.not_mem_nil, rfl⟩
  exact ⟨(htimeout _).2 ⟨.inr (by decide), rfl⟩,
    ⟨answer, k, (hagain 1 Nat.one_pos hk (Nat.le_refl 1) rfl).2 (.inr (.inl (by decide))), hcall⟩,
    hshape, hfinal _ hshape⟩

end Session

end Planimeter
