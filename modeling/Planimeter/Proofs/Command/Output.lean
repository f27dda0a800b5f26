import Planimeter.Proofs.Command.Exchanges
/-!
# What a failed run leaves behind

Every task prints after its last step that can fail, so that a task that is stopped has printed
nothing; and every task asks what the command line says, in its order and once. Both are read off
the parts of a task, and carried over to runs, which add what can stop a run before its task. The
main statement holds for all surroundings, for what peers do as well.
-/
open Planimeter.Command.Task

namespace Planimeter.Command

variable {σ : Type}

/-- Starting the service does nothing but log. -/
theorem keeps_serve {κ : Type} {read : Progress σ → κ}
    (hlog : ∀ events, Keeps read (log events)) (s : Surroundings σ) (c : Config) :
    Keeps read (serve s c) := by
  unfold serve
  refine (keeps_attempt _ _).bind fun started => (hlog _).bind fun _ => ?_
  cases s.signal with
  | none => exact keeps_throw _
  | some signal => exact hlog _

theorem printsLast_check (c : Config) : PrintsLast (check c : Task σ Unit) := by
  unfold check
  refine (keeps_log_printed _).bind_printsLast fun _ => (keeps_attempt _ _).bind_printsLast fun _ =>
    Finishes.printsLast ?_
  exact (finishes_print _).bind fun _ => finishes_print _

theorem keeps_areas_printed (s : Surroundings σ) (settings : ClientSettings) (multi : Bool)
    (shapes : List Shape) : Keeps Progress.printed (areas s settings multi shapes) := by
  unfold areas
  cases multi with
  | true => exact (keeps_log_printed _).bind fun _ => keeps_client_printed _
  | false =>
    refine Keeps.bind (keeps_mapM fun shape => ?_) fun _ => keeps_pure _
    exact (keeps_log_printed _).bind fun _ => keeps_client_printed _

theorem printsLast_calculate (s : Surroundings σ) (endpoint : String) (multi : Bool)
    (timeout : Fin UInt64.size) (shapes : List Shape) :
    PrintsLast (calculate s endpoint multi timeout shapes) := by
  unfold calculate
  refine (keeps_client_printed _).bind_printsLast fun _ =>
    (keeps_areas_printed s _ multi shapes).bind_printsLast fun values => Finishes.printsLast ?_
  exact finishes_forM fun _ => finishes_print _

theorem printsLast_task (i : Invocation) (s : Surroundings σ) (c : Config) :
    PrintsLast (i.task s c) := by
  unfold Invocation.task
  split
  · exact (finishes_print _).printsLast
  · unfold perform
    split
    · exact (keeps_serve keeps_log_printed s c).printsLast
    · exact (keeps_serve keeps_log_printed s c).printsLast
    · exact printsLast_check c
    · exact printsLast_calculate s _ _ _ _

/-- The requests for areas of shapes, for all at once or for one after the other. -/
def requests (multi : Bool) (shapes : List Shape) : List Request :=
  if multi then [.multi (shapes.map some)] else shapes.map fun shape => .one (some shape)

/-- What an invocation asks if nothing goes wrong. -/
def Invocation.requests (i : Invocation) : List Request :=
  match i.printConfig, i.action with
  | false, some (.calculate _ multi _ shapes) => Command.requests multi shapes
  | _, _ => []

theorem asks_areas (s : Surroundings σ) {settings : ClientSettings}
    (hretries : settings.maxRetries = 0) (multi : Bool) (shapes : List Shape) :
    Asks (requests multi shapes) (areas s.recording settings multi shapes) := by
  unfold areas
  cases multi with
  | true => exact (keeps_log_peer Prod.snd _).asks.bind fun _ => asks_call hretries _
  | false =>
    refine Asks.bind_keeps (asks_mapM fun shape => ?_) fun _ => keeps_pure _
    exact (keeps_log_peer Prod.snd _).asks.bind fun _ => asks_call hretries _

theorem asks_calculate (s : Surroundings σ) (endpoint : String) (multi : Bool)
    (timeout : Fin UInt64.size) (shapes : List Shape) :
    Asks (requests multi shapes) (calculate s.recording endpoint multi timeout shapes) := by
  unfold calculate
  refine (keeps_connect rfl endpoint).asks.bind fun _ => ?_
  refine (asks_areas s rfl multi shapes).bind_keeps fun values => ?_
  exact keeps_forM fun _ => keeps_print_peer Prod.snd _

/-- Checking the configuration asks nothing. -/
theorem keeps_check_peer {κ : Type} (read : σ → κ) (c : Config) :
    Keeps (fun p => read p.peer) (check c : Task σ Unit) := by
  unfold check
  refine (keeps_log_peer read _).bind fun _ => (keeps_attempt _ _).bind fun _ => ?_
  exact (keeps_print_peer read _).bind fun _ => keeps_print_peer read _

theorem asks_task (i : Invocation) (s : Surroundings σ) (c : Config) :
    Asks i.requests (i.task s.recording c) := by
  obtain ⟨config, printConfig, verbose, action⟩ := i
  cases printConfig with
  | true => exact (keeps_print_peer Prod.snd _).asks
  | false =>
    cases action with
    | none => exact (keeps_serve (keeps_log_peer Prod.snd) _ c).asks
    | some action =>
      cases action with
      | run listen => exact (keeps_serve (keeps_log_peer Prod.snd) _ c).asks
      | check => exact (keeps_check_peer Prod.snd c).asks
      | calculate endpoint multi timeout shapes =>
        exact asks_calculate s endpoint multi timeout shapes

section

variable {s : Surroundings σ} {arguments : List String} (peer : σ)

/-- A run that does not get to its task asks nothing, and prints nothing unless it was asked for a
text. -/
theorem run_of_not_prepared
    (h : ∀ i, Invocation.ofArguments arguments = .ok i → ∀ c, prepare s i ≠ .ok (.ok c)) :
    ((run s arguments peer).ending = .exited 0 ∨ (run s arguments peer).stdout = "") ∧
      (run s arguments peer).peer = peer := by
  rw [run]
  cases harguments : Invocation.ofArguments arguments with
  | error interruption =>
    cases interruption with
    | help scope => exact ⟨.inl rfl, rfl⟩
    | version => exact ⟨.inl rfl, rfl⟩
    | wrong e => exact ⟨.inr rfl, rfl⟩
  | ok i =>
    cases hprepare : prepare s i with
    | error fault => simp [hprepare]
    | ok prepared =>
      cases prepared with
      | error e => simp [hprepare]
      | ok c => exact absurd hprepare (h i harguments c)

/-- A run that gets to its task ends as the task does and leaves what the task leaves. -/
theorem run_of_prepared {i : Invocation} {c : Config} {logger : Logger}
    (harguments : Invocation.ofArguments arguments = .ok i)
    (hprepare : prepare s i = .ok (.ok (c, logger))) :
    (run s arguments peer).ending = (match (outcome (i.task s c) ⟨"", [], peer⟩).1 with
      | .ok _ => .exited 0
      | .error stop => stop.ending) ∧
    (run s arguments peer).stdout = (outcome (i.task s c) ⟨"", [], peer⟩).2.printed ∧
    (run s arguments peer).peer = (outcome (i.task s c) ⟨"", [], peer⟩).2.peer := by
  rw [run, harguments]
  simp only [hprepare, outcome]
  rcases (i.task s c).run.run ⟨"", [], peer⟩ with ⟨stop | _, done⟩ <;> exact ⟨rfl, rfl, rfl⟩

end

/-- The requests that a command line has the program make if nothing goes wrong. -/
def requested (arguments : List String) : List Request :=
  match Invocation.ofArguments arguments with
  | .ok i => i.requests
  | .error _ => []

theorem exited_or_stdout_eq (s : Surroundings σ) (arguments : List String) (peer : σ) :
    (run s arguments peer).ending = .exited 0 ∨ (run s arguments peer).stdout = "" := by
  by_cases h : ∃ i c, Invocation.ofArguments arguments = .ok i ∧ prepare s i = .ok (.ok c)
  · obtain ⟨i, ⟨c, logger⟩, harguments, hprepare⟩ := h
    obtain ⟨hending, hstdout, -⟩ := run_of_prepared peer harguments hprepare
    cases hresult : (outcome (i.task s c) ⟨"", [], peer⟩).1 with
    | ok _ => exact .inl (by rw [hending, hresult])
    | error stop => exact .inr (hstdout.trans (printsLast_task i s c _ stop hresult))
  · exact (run_of_not_prepared _ fun i hi c hc => h ⟨i, c, hi, hc⟩).1

theorem conversation_run (s : Surroundings σ) (arguments : List String) (peer : σ) :
    Conversation (requested arguments) (run s.recording arguments (peer, [])).peer.2 := by
  by_cases h : ∃ i c, Invocation.ofArguments arguments = .ok i ∧ prepare s.recording i = .ok (.ok c)
  · obtain ⟨i, ⟨c, logger⟩, harguments, hprepare⟩ := h
    obtain ⟨-, -, hpeer⟩ := run_of_prepared (peer, []) harguments hprepare
    obtain ⟨exchanges, hexchanges, hconversation, -⟩ := asks_task i s c ⟨"", [], (peer, [])⟩
    rw [hpeer, hexchanges, requested, harguments]
    exact hconversation
  · rw [(run_of_not_prepared _ fun i hi c hc => h ⟨i, c, hi, hc⟩).2]
    exact ⟨List.nil_prefix, fun e he => absurd he List.not_mem_nil⟩

/-- A run that does not come to its end, whatever stops it, has written nothing to the standard
output. Whatever a peer answers, it is asked at most what the command line says, each request once
and in its order, and nothing after a request that was not answered with areas. -/
theorem stopped_run_leaves_nothing (s : Surroundings σ) (arguments : List String) (peer : σ) :
    ((run s arguments peer).ending ≠ .exited 0 → (run s arguments peer).stdout = "") ∧
    ((run s.recording arguments (peer, [])).peer.2.map Prod.fst <+: requested arguments ∧
      ∀ e ∈ (run s.recording arguments (peer, [])).peer.2.dropLast, ∃ values, e.2 = .ok values) :=
  have hconversation := conversation_run s arguments peer
  ⟨(exited_or_stdout_eq s arguments peer).resolve_left, hconversation.sent, hconversation.answered⟩

/-- A peer that answers once and fails from then on. -/
def answersOnce : Surroundings Nat where
  file _ := none
  environment := []
  time := ""
  bind address := .ok address
  signal := none
  dial _ n := (.ok (), n)
  send _ n := (⟨[], if n = 0 then .ok [.zero] else .error ⟨.internal, "", []⟩⟩, n + 1)

def threeSquares : List String := ["calculate", "square=0", "square=0", "square=0"]

def askThreeSquares : Invocation where
  config := none
  printConfig := false
  verbose := 0
  action := some (.calculate "http://127.0.0.1:50051" false defaultTimeout
    (List.replicate 3 (.square .zero)))

/-- The second of three requests fails: the first area is not printed, and the third request is not
sent. -/
theorem stopped_run_leaves_nothing_second :
    (run answersOnce threeSquares 0).ending = .exited 1 ∧
    (run answersOnce threeSquares 0).stdout = "" ∧
    (run answersOnce.recording threeSquares (0, [])).peer.2.map Prod.fst =
      List.replicate 2 (.one (some (.square .zero))) ∧
    List.replicate 2 (.one (some (.square .zero))) <+: requested threeSquares := by
  have harguments : Invocation.ofArguments threeSquares = .ok askThreeSquares := by rfl
  obtain ⟨c, logger, hprepare⟩ : ∃ c logger,
      prepare answersOnce askThreeSquares = .ok (.ok (c, logger)) := ⟨_, _, by rfl⟩
  have hrecording : prepare answersOnce.recording askThreeSquares = .ok (.ok (c, logger)) :=
    hprepare
  obtain ⟨hending, -, -⟩ := run_of_prepared 0 harguments hprepare
  obtain ⟨-, -, hpeer⟩ := run_of_prepared (0, []) harguments hrecording
  have hstopped : (run answersOnce threeSquares 0).ending = .exited 1 := hending.trans (by rfl)
  have hsent : (run answersOnce.recording threeSquares (0, [])).peer.2.map Prod.fst =
      List.replicate 2 (.one (some (.square .zero))) := by
    rw [hpeer]
    rfl
  obtain ⟨hprinted, hrequests, -⟩ := stopped_run_leaves_nothing answersOnce threeSquares 0
  refine ⟨hstopped, hprinted ?_, hsent, by rwa [hsent] at hrequests⟩
  rw [hstopped]
  decide

end Planimeter.Command
