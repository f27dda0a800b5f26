import Planimeter.Proofs.Client.Calls
/-!
# The course of connecting

Connecting is held against a network that has an outcome laid out for every attempt there could be
and keeps the addresses that were dialled. Which identifiers can be read, and what is said of the
others, is left open. An identifier that cannot be read is reported at once; for any other the main
statement says how many attempts are made, how long the pauses in between are, how connecting ends
and what it reports.
-/
namespace Planimeter.Session

variable {σ ι : Type} {s : ClientSettings} {read : String → Except String ι} {uri : String}
  {address : ι}

/-- One attempt, which reports nothing itself. -/
def dialOnce (dial : ι → σ → Except String Unit × σ) (address : ι) (state : σ) :
    Logged (Except String Unit) × σ :=
  (⟨[], (dial address state).1⟩, (dial address state).2)

/-- The attempts of connecting, of which there are none for an identifier that cannot be read. -/
def dialling (s : ClientSettings) (read : String → Except String ι) (uri : String)
    (dial : ι → σ → Except String Unit × σ) (state : σ) :
    Except Fault (Except String (Attempts String Unit) × σ) :=
  match read uri with
  | .error problem => .ok (.error problem, state)
  | .ok address =>
    (retry s (fun _ => true) (dialOnce dial address) state).map fun (run, state) => (.ok run, state)

/-- What connecting comes back with, read off its attempts. -/
def connection (s : ClientSettings) (uri : String) :
    Except String (Attempts String Unit) → Logged (Except ClientError Unit)
  | .error problem => ⟨[], .error (.internal s!"invalid endpoint '{uri}': {problem}")⟩
  | .ok run =>
    ⟨run.events (connectionRetried s) (connectionEnded s uri), run.last.result.mapError fun error =>
      .transport s!"failed to connect to {uri} after {run.count} attempts: {error}"⟩

theorem dialling_unread {problem : String} (hread : read uri = .error problem)
    (dial : ι → σ → Except String Unit × σ) (state : σ) :
    dialling s read uri dial state = .ok (.error problem, state) := by
  rw [dialling, hread]

theorem dialling_read (hread : read uri = .ok address)
    (dial : ι → σ → Except String Unit × σ) (state : σ) :
    dialling s read uri dial state = (retry s (fun _ => true) (dialOnce dial address) state).map
      fun (run, state) => (.ok run, state) := by
  rw [dialling, hread]

theorem connect_eq (dial : ι → σ → Except String Unit × σ) (state : σ) :
    connect s read uri dial state =
      (dialling s read uri dial state).map fun (run, state) => (connection s uri run, state) := by
  rw [connect]
  cases hread : read uri with
  | error problem => rw [dialling_unread hread]; rfl
  | ok address =>
    rw [dialling_read hread]
    change (retry s (fun _ => true) (dialOnce dial address) state >>= _) = _
    cases retry s (fun _ => true) (dialOnce dial address) state <;> rfl

theorem connect_of_dialling {dial : ι → σ → Except String Unit × σ} {state state' : σ}
    {run : Except String (Attempts String Unit)}
    (h : dialling s read uri dial state = .ok (run, state')) :
    connect s read uri dial state = .ok (connection s uri run, state') := by
  rw [connect_eq, h]
  rfl

/-- What attempts come to is never an internal error. -/
theorem connection_ne_internal {run : Attempts String Unit} {inner : String} :
    (connection s uri (.ok run)).result ≠ .error (.internal inner) := by
  rw [connection]
  cases run.last.result <;> simp [Except.mapError]

/-- Makes attempt `n` end as `outcome n`, and keeps the addresses that were dialled. -/
def redial (outcome : Nat → Except String Unit) (address : ι) (dialled : List ι) :
    Except String Unit × List ι :=
  (outcome (dialled.length + 1), dialled ++ [address])

@[simp] theorem dialOnce_redial (outcome : Nat → Except String Unit) (address : ι) (n : Nat) :
    dialOnce (redial outcome) address (List.replicate n address) =
      (⟨[], outcome (n + 1)⟩, List.replicate (n + 1) address) := by
  rw [dialOnce, redial, List.length_replicate, List.replicate_succ']

@[simp] theorem settled_iff_connected {outcome : Except String Unit} :
    Settled (fun _ => true) outcome ↔ outcome = .ok () := by
  cases outcome <;> simp [Settled]

theorem dialling_laidOut (hretries : s.maxRetries + 1 < UInt32.size)
    (hbackoff : s.baseBackoff.nanos * s.maxRetries < UInt64.size * 1000000000)
    (hread : read uri = .ok address) (outcome : Nat → Except String Unit) :
    ∃ k failures run,
      dialling s read uri (redial outcome) [] = .ok (.ok run, List.replicate k address) ∧
        LaidOut s (fun _ => true) outcome k failures run := by
  obtain ⟨k, failures, run, hrun, hlaid⟩ :=
    retry_laidOut hretries hbackoff (fun _ => true) outcome _ (dialOnce_redial outcome address)
  rw [List.replicate_zero] at hrun
  exact ⟨k, failures, run, by rw [dialling_read hread, hrun]; rfl, hlaid⟩

/-- The report of an attempt that failed and will be followed by another. -/
def connectionWarning (s : ClientSettings) (attempt : Nat) (error : String) (pause : Duration) :
    Event :=
  ⟨.warn, target, "gRPC connection failed, retrying...",
    [("service", .quoted s.serviceName), ("attempt", .count attempt),
      ("max_retries", .count s.maxRetries), ("error", .bare error),
      ("backoff_ms", .count (min (pause.nanos / 1000000) (UInt64.size - 1)))]⟩

def connected (s : ClientSettings) (uri : String) (attempt : Nat) : Event :=
  ⟨.info, target, "gRPC client connected",
    [("service", .quoted s.serviceName), ("uri", .bare uri), ("attempt", .count attempt)]⟩

def unconnected (s : ClientSettings) (attempt : Nat) (error : String) : Event :=
  ⟨.error, target, "gRPC connection failed after all retries",
    [("service", .quoted s.serviceName), ("attempt", .count attempt), ("error", .bare error)]⟩

/-- The report on a run against laid-out outcomes, in terms of its failures and its last outcome. -/
theorem connection_laidOut {outcome : Nat → Except String Unit} {k : Nat}
    {failures : List (String × Duration)} {run : Attempts String Unit}
    (h : LaidOut s (fun _ => true) outcome k failures run) :
    connection s uri (.ok run) =
      ⟨(failures.mapIdx fun i f => connectionWarning s (i + 1) f.1 f.2) ++
          connectionEnded s uri k (outcome k),
        (outcome k).mapError fun error =>
          .transport s!"failed to connect to {uri} after {k} attempts: {error}"⟩ := by
  rw [connection, h.events, h.result, h.count]
  rfl

/-- Connecting fails as an internal error if and only if the identifier cannot be read, and then
nothing is dialled, waited for or reported. Otherwise it makes `k` attempts, where `k` is the least
of the number of attempts allowed and the numbers of the successes, and pauses after each failed one
as long as its number says. It reports each failed attempt that is followed by another, and its end:
it is connected by attempt `k`, or that is the last one allowed, has failed too, and the error names
it and what went wrong. -/
theorem connect_course (s : ClientSettings) (hretries : s.maxRetries + 1 < UInt32.size)
    (hbackoff : s.baseBackoff.nanos * s.maxRetries < UInt64.size * 1000000000)
    (read : String → Except String ι) (uri : String) (outcome : Nat → Except String Unit) :
    ((∃ events inner dialled, connect s read uri (redial outcome) [] =
        .ok (⟨events, .error (.internal inner)⟩, dialled)) ↔
      ∃ problem, read uri = .error problem) ∧
    (∀ problem, read uri = .error problem →
      dialling s read uri (redial outcome) [] = .ok (.error problem, []) ∧
      connect s read uri (redial outcome) [] =
        .ok (⟨[], .error (.internal s!"invalid endpoint '{uri}': {problem}")⟩, [])) ∧
    ∀ address, read uri = .ok address →
      ∃ (k : Nat) (failures : List (String × Duration)),
        IsLeast (insert (s.maxRetries + 1) {n | 0 < n ∧ outcome n = .ok ()}) k ∧
        failures.length + 1 = k ∧
        (∀ i (h : i < failures.length), outcome (i + 1) = .error failures[i].1 ∧
          s.backoff (i + 1) = .ok failures[i].2) ∧
        (∃ run, dialling s read uri (redial outcome) [] =
            .ok (.ok run, List.replicate k address) ∧
          run.count = k ∧ run.pauses = failures.map Prod.snd) ∧
        let warnings := failures.mapIdx fun i f => connectionWarning s (i + 1) f.1 f.2
        (outcome k = .ok () ∧ connect s read uri (redial outcome) [] =
            .ok (⟨warnings ++ [connected s uri k], .ok ()⟩, List.replicate k address)) ∨
          ∃ error, outcome k = .error error ∧ k = s.maxRetries + 1 ∧
            connect s read uri (redial outcome) [] =
              .ok (⟨warnings ++ [unconnected s k error], .error (.transport
                s!"failed to connect to {uri} after {k} attempts: {error}")⟩,
                List.replicate k address) := by
  refine ⟨⟨?_, ?_⟩, fun problem hread => ?_, fun address hread => ?_⟩
  · rintro ⟨events, inner, dialled, hinternal⟩
    cases hread : read uri with
    | error problem => exact ⟨problem, rfl⟩
    | ok address =>
      obtain ⟨k, failures, run, hrun, -⟩ := dialling_laidOut hretries hbackoff hread outcome
      rw [connect_of_dialling hrun] at hinternal
      exact absurd (congrArg (fun answer => answer.1.result) (Except.ok.inj hinternal))
        connection_ne_internal
  · rintro ⟨problem, hread⟩
    exact ⟨_, _, _, connect_of_dialling (dialling_unread hread _ _)⟩
  · have hunread := dialling_unread (s := s) hread (redial outcome) []
    exact ⟨hunread, connect_of_dialling hunread⟩
  · obtain ⟨k, failures, run, hrun, hlaid⟩ := dialling_laidOut hretries hbackoff hread outcome
    have hconnect := connect_of_dialling hrun
    rw [connection_laidOut hlaid] at hconnect
    have hleast := hlaid.isLeast
    simp only [settled_iff_connected] at hleast
    refine ⟨k, failures, hleast, hlaid.length, hlaid.failed,
      ⟨run, hrun, hlaid.count, hlaid.pauses⟩, ?_⟩
    cases hlast : outcome k with
    | ok _ =>
      rw [hlast] at hconnect
      exact .inl ⟨rfl, hconnect⟩
    | error error =>
      rw [hlast] at hconnect
      have hunsettled : outcome k ≠ .ok () := by simp [hlast]
      exact .inr ⟨error, rfl, hleast.1.resolve_right fun h => hunsettled h.2, hconnect⟩

/-- Two attempts that are refused, an identifier that cannot be read, and a socket of the file
system, which is reached at once. -/
theorem connect_course_refused :
    connect { maxRetries := 1 } Uri.ofEndpoint "http://a:1" (redial fun _ => .error "refused") [] =
      .ok (⟨[connectionWarning { maxRetries := 1 } 1 "refused" (.millis 100),
          unconnected { maxRetries := 1 } 2 "refused"],
        .error (.transport "failed to connect to http://a:1 after 2 attempts: refused")⟩,
        [⟨some "http", "a:1", "/"⟩, ⟨some "http", "a:1", "/"⟩]) ∧
    connect {} Uri.ofEndpoint "not a uri" (redial fun _ => .ok ()) [] =
      .ok (⟨[], .error (.internal "invalid endpoint 'not a uri': invalid URI")⟩, []) ∧
    connect { maxRetries := 0 } Uri.ofEndpoint "unix:///tmp/a.sock" (redial fun _ => .ok ()) [] =
      .ok (⟨[connected { maxRetries := 0 } "unix:///tmp/a.sock" 1], .ok ()⟩,
        [⟨some "unix", "", "/tmp/a.sock"⟩]) := by
  obtain ⟨-, hunread, -⟩ :=
    connect_course {} (by decide) (by decide) Uri.ofEndpoint "not a uri" fun _ => .ok ()
  obtain ⟨-, -, hcourse⟩ := connect_course { maxRetries := 1 } (by decide) (by decide)
    Uri.ofEndpoint "http://a:1" fun _ => .error "refused"
  obtain ⟨-, -, hsocket⟩ := connect_course { maxRetries := 0 } (by decide) (by decide)
    Uri.ofEndpoint "unix:///tmp/a.sock" fun _ => .ok ()
  refine ⟨?_, (hunread "invalid URI" (by rfl)).2, ?_⟩
  · obtain ⟨k, failures, -, hlength, hfailures, -, ⟨hok, -⟩ | ⟨error, herror, rfl, hconnect⟩⟩ :=
      hcourse ⟨some "http", "a:1", "/"⟩ (by rfl)
    · contradiction
    obtain ⟨⟨failure, pause⟩, rfl⟩ := List.length_eq_one_iff.1 (Nat.succ.inj hlength)
    obtain ⟨hfailure, hpause⟩ := hfailures 0 Nat.one_pos
    obtain rfl : _ = failure := Except.error.inj hfailure
    obtain rfl : Duration.millis 100 = pause := Except.ok.inj hpause
    obtain rfl : _ = error := Except.error.inj herror
    exact hconnect
  · obtain ⟨k, failures, hk, hlength, -, -, ⟨-, hconnect⟩ | ⟨error, herror, -⟩⟩ :=
      hsocket ⟨some "unix", "", "/tmp/a.sock"⟩ (by rfl)
    · obtain rfl : k = 1 := Nat.le_antisymm (hk.2 (.inl rfl)) (by omega)
      obtain rfl := List.length_eq_zero_iff.1 (Nat.succ.inj hlength)
      exact hconnect
    · contradiction

end Planimeter.Session
