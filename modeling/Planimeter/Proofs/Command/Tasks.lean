import Planimeter.Command.Program
/-!
# What tasks leave behind

A task takes what was done before it to what is done after it, and ends or stops. What a task keeps
as it was, a sequence of such tasks keeps as well; a task that prints only where nothing can stop it
any more has printed nothing when it stops. A call without retries is a single step of the peer.
-/
namespace Planimeter.Command

namespace Task

variable {σ α β κ : Type}

/-- How a task ends, and what is done then. -/
def outcome (t : Task σ α) (p : Progress σ) : Except Stop α × Progress σ := t.run.run p

@[simp] theorem outcome_pure (a : α) (p : Progress σ) :
    outcome (pure a : Task σ α) p = (.ok a, p) := rfl

@[simp] theorem outcome_throw (stop : Stop) (p : Progress σ) :
    outcome (throw stop : Task σ α) p = (.error stop, p) := rfl

theorem outcome_bind (t : Task σ α) (f : α → Task σ β) (p : Progress σ) :
    outcome (t >>= f) p = match outcome t p with
      | (.ok a, next) => outcome (f a) next
      | (.error stop, next) => (.error stop, next) := by
  simp only [outcome, ExceptT.run_bind, StateT.run_bind]
  rcases t.run.run p with ⟨_ | _, next⟩ <;> rfl

@[simp] theorem outcome_print (text : String) (p : Progress σ) :
    outcome (print text) p = (.ok (), { p with printed := p.printed ++ text }) := rfl

@[simp] theorem outcome_log (events : List Event) (p : Progress σ) :
    outcome (log events) p = (.ok (), { p with events := p.events ++ events }) := rfl

@[simp] theorem outcome_get (p : Progress σ) : outcome (get : Task σ (Progress σ)) p = (.ok p, p) :=
  rfl

section

variable {act : σ → Except Fault (Logged (Except ClientError α) × σ)} {p : Progress σ}

theorem outcome_client_of_error {fault : Fault} (h : act p.peer = .error fault) :
    outcome (client act) p = (.error (.crashed fault), p) := by
  simp only [client, outcome_bind, outcome_get, h, outcome_throw]

theorem outcome_client_of_ok {answer : Logged (Except ClientError α)} {peer : σ}
    (h : act p.peer = .ok (answer, peer)) :
    outcome (client act) p = (answer.result.mapError fun e => .failed (.asking e),
      { p with events := p.events ++ answer.events, peer }) := by
  simp only [client, outcome_bind, outcome_get, h]
  cases answer.result <;> rfl

end

/-- The task leaves what is read off the progress as it was. -/
def Keeps (read : Progress σ → κ) (t : Task σ α) : Prop :=
  ∀ p, read (outcome t p).2 = read p

section

variable {read : Progress σ → κ} {t : Task σ α}

theorem Keeps.bind {f : α → Task σ β} (ht : Keeps read t) (hf : ∀ a, Keeps read (f a)) :
    Keeps read (t >>= f) := by
  intro p
  have hkept := ht p
  rw [outcome_bind]
  rcases houtcome : outcome t p with ⟨stop | a, next⟩
  · rwa [houtcome] at hkept
  · rw [houtcome] at hkept
    exact (hf a next).trans hkept

theorem keeps_pure (a : α) : Keeps read (pure a : Task σ α) := fun _ => rfl

theorem keeps_throw (stop : Stop) : Keeps read (throw stop : Task σ α) := fun _ => rfl

theorem keeps_attempt {ε : Type} (failure : ε → Failure) (result : Except ε α) :
    Keeps read (attempt failure result : Task σ α) := by
  cases result with
  | ok a => exact keeps_pure a
  | error e => exact keeps_throw _

theorem keeps_mapM {items : List β} {f : β → Task σ α} (hf : ∀ b, Keeps read (f b)) :
    Keeps read (items.mapM f) := by
  induction items with
  | nil => exact keeps_pure []
  | cons b rest ih =>
    rw [List.mapM_cons]
    exact (hf b).bind fun _ => ih.bind fun _ => keeps_pure _

theorem keeps_forM {items : List β} {f : β → Task σ Unit} (hf : ∀ b, Keeps read (f b)) :
    Keeps read (items.forM f) := by
  induction items with
  | nil => exact keeps_pure ()
  | cons b rest ih => exact (hf b).bind fun _ => ih

end

theorem keeps_log_printed (events : List Event) :
    Keeps Progress.printed (log events : Task σ Unit) := fun _ => rfl

theorem keeps_log_peer (read : σ → κ) (events : List Event) :
    Keeps (fun p => read p.peer) (log events : Task σ Unit) := fun _ => rfl

theorem keeps_print_peer (read : σ → κ) (text : String) :
    Keeps (fun p => read p.peer) (print text : Task σ Unit) := fun _ => rfl

theorem keeps_client_printed (act : σ → Except Fault (Logged (Except ClientError α) × σ)) :
    Keeps Progress.printed (client act) := by
  intro p
  cases hact : act p.peer with
  | error fault => rw [outcome_client_of_error hact]
  | ok result => rw [outcome_client_of_ok hact]

/-- Nothing stops the task. -/
def Finishes (t : Task σ α) : Prop := ∀ p, ∃ a, (outcome t p).1 = .ok a

/-- A task that is stopped has printed nothing. -/
def PrintsLast (t : Task σ α) : Prop :=
  ∀ p stop, (outcome t p).1 = .error stop → (outcome t p).2.printed = p.printed

section

variable {t : Task σ α}

theorem Finishes.printsLast (h : Finishes t) : PrintsLast t := by
  intro p stop hstop
  obtain ⟨a, ha⟩ := h p
  rw [ha] at hstop
  contradiction

theorem Keeps.printsLast (h : Keeps Progress.printed t) : PrintsLast t := fun p _ _ => h p

theorem Finishes.bind {f : α → Task σ β} (ht : Finishes t) (hf : ∀ a, Finishes (f a)) :
    Finishes (t >>= f) := by
  intro p
  obtain ⟨a, ha⟩ := ht p
  rw [outcome_bind]
  rcases houtcome : outcome t p with ⟨stop | a', next⟩
  · rw [houtcome] at ha
    contradiction
  · exact hf a' next

/-- What comes after a task that prints nothing decides. -/
theorem Keeps.bind_printsLast {f : α → Task σ β} (ht : Keeps Progress.printed t)
    (hf : ∀ a, PrintsLast (f a)) : PrintsLast (t >>= f) := by
  intro p stop hstop
  have hkept := ht p
  rw [outcome_bind] at hstop ⊢
  rcases houtcome : outcome t p with ⟨stop' | a, next⟩
  · rwa [houtcome] at hkept
  · rw [houtcome] at hkept hstop
    exact (hf a next stop hstop).trans hkept

end

theorem finishes_print (text : String) : Finishes (print text : Task σ Unit) := fun _ => ⟨(), rfl⟩

theorem finishes_forM {items : List β} {f : β → Task σ Unit} (hf : ∀ b, Finishes (f b)) :
    Finishes (items.forM f) := by
  induction items with
  | nil => exact fun _ => ⟨(), rfl⟩
  | cons b rest ih => exact (hf b).bind fun _ => ih

@[simp] theorem outcome_forM_print {items : List β} (text : β → String) (p : Progress σ) :
    outcome (items.forM fun b => print (text b)) p =
      (.ok (), { p with printed := p.printed ++ String.join (items.map text) }) := by
  induction items generalizing p with
  | nil => simp
  | cons b rest ih =>
    rw [List.forM_eq_forM, List.forM_cons, outcome_bind, outcome_print]
    simp only
    rw [← List.forM_eq_forM, ih, List.map_cons, String.join_cons, String.append_assoc]

/-- From a peer that is in order the task yields a value, and leaves it in order. -/
def Yields (ready : σ → Prop) (t : Task σ α) (a : α) : Prop :=
  ∀ p, ready p.peer → (outcome t p).1 = .ok a ∧ ready (outcome t p).2.peer

section

variable {ready : σ → Prop} {t : Task σ α} {a : α}

theorem Yields.bind {f : α → Task σ β} {b : β} (ht : Yields ready t a)
    (hf : Yields ready (f a) b) : Yields ready (t >>= f) b := by
  intro p hp
  obtain ⟨hvalue, hready⟩ := ht p hp
  rw [outcome_bind]
  rcases houtcome : outcome t p with ⟨stop | a', next⟩ <;> rw [houtcome] at hvalue hready
  · contradiction
  · obtain rfl : a' = a := Except.ok.inj hvalue
    exact hf next hready

/-- A task that yields a value and prints nothing ends so. -/
theorem Yields.exists_next (ht : Yields ready t a) (hkeeps : Keeps Progress.printed t)
    {p : Progress σ} (hp : ready p.peer) :
    ∃ next, outcome t p = (.ok a, next) ∧ ready next.peer ∧ next.printed = p.printed :=
  ⟨(outcome t p).2, Prod.ext (ht p hp).1 rfl, (ht p hp).2, hkeeps p⟩

theorem yields_pure (a : α) : Yields ready (pure a : Task σ α) a := fun _ hp => ⟨rfl, hp⟩

theorem yields_log (events : List Event) : Yields ready (log events) () := fun _ hp => ⟨rfl, hp⟩

theorem yields_mapM {items : List β} {f : β → Task σ α} {g : β → α}
    (hf : ∀ b ∈ items, Yields ready (f b) (g b)) :
    Yields ready (items.mapM f) (items.map g) := by
  induction items with
  | nil => exact yields_pure []
  | cons b rest ih =>
    rw [List.forall_mem_cons] at hf
    rw [List.mapM_cons, List.map_cons]
    exact hf.1.bind ((ih hf.2).bind (yields_pure _))

end

end Task

end Planimeter.Command
