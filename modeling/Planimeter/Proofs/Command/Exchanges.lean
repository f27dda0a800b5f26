import Planimeter.Proofs.Client.Endings
import Planimeter.Proofs.Command.Tasks
/-!
# What a task asks

A peer that keeps what it is asked and what it answers shows which requests a task sends. A task
asks a list of requests if it sends them in their order, each once, up to the first one that is not
answered with areas; what it sends after that, or leaves out although all was answered, would
contradict that. The notion is closed under sequences, so that it follows from that of a single
call.
-/
namespace Planimeter.Command

variable {σ α β : Type}

/-- A request and its answer. -/
abbrev Exchange := Request × Except Status (List Binary32)

/-- The same surroundings with a peer that keeps what it is asked and what it answers. -/
def Surroundings.recording (s : Surroundings σ) : Surroundings (σ × List Exchange) :=
  { s with
    dial := fun uri state => ((s.dial uri state.1).1, (s.dial uri state.1).2, state.2)
    send := fun r state =>
      let (answer, peer) := s.send r state.1
      (answer, peer, state.2 ++ [(r, answer.result)]) }

/-- The answer has areas. -/
def Exchange.Answered (e : Exchange) : Prop := ∃ values, e.2 = .ok values

/-- Of the requests an initial part was sent, and all but the last were answered. -/
structure Conversation (requests : List Request) (exchanges : List Exchange) : Prop where
  sent : exchanges.map Prod.fst <+: requests
  answered : ∀ e ∈ exchanges.dropLast, e.Answered

/-- All requests were sent and answered. -/
structure Finished (requests : List Request) (exchanges : List Exchange) : Prop where
  sent : exchanges.map Prod.fst = requests
  answered : ∀ e ∈ exchanges, e.Answered

variable {requests requests' : List Request} {exchanges exchanges' : List Exchange}

theorem Finished.conversation (h : Finished requests exchanges) :
    Conversation requests exchanges :=
  ⟨h.sent ▸ List.prefix_rfl, fun e he => h.answered e (List.dropLast_subset _ he)⟩

theorem finished_nil : Finished [] [] := ⟨rfl, fun _ h => absurd h List.not_mem_nil⟩

theorem Finished.append (h : Finished requests exchanges) (h' : Finished requests' exchanges') :
    Finished (requests ++ requests') (exchanges ++ exchanges') :=
  ⟨by rw [List.map_append, h.sent, h'.sent], List.forall_mem_append.2 ⟨h.answered, h'.answered⟩⟩

theorem Conversation.append_right (h : Conversation requests exchanges) :
    Conversation (requests ++ requests') exchanges :=
  ⟨h.sent.trans (List.prefix_append _ _), h.answered⟩

theorem Finished.append_conversation (h : Finished requests exchanges)
    (h' : Conversation requests' exchanges') :
    Conversation (requests ++ requests') (exchanges ++ exchanges') := by
  refine ⟨?_, fun e he => ?_⟩
  · rw [List.map_append, h.sent]
    exact (List.prefix_append_right_inj _).2 h'.sent
  · rw [List.dropLast_append] at he
    split at he
    · exact h.answered e (List.dropLast_subset _ he)
    · rcases List.mem_append.1 he with he | he
      · exact h.answered e he
      · exact h'.answered e he

namespace Task

/-- The task sends these requests, each after the one before it was answered, and all of them if it
comes to its end. -/
def Asks (requests : List Request) (t : Task (σ × List Exchange) α) : Prop :=
  ∀ p, ∃ exchanges, (outcome t p).2.peer.2 = p.peer.2 ++ exchanges ∧
    Conversation requests exchanges ∧
      ((∃ a, (outcome t p).1 = .ok a) → Finished requests exchanges)

theorem Asks.bind {t : Task (σ × List Exchange) α} {f : α → Task (σ × List Exchange) β}
    (ht : Asks requests t) (hf : ∀ a, Asks requests' (f a)) :
    Asks (requests ++ requests') (t >>= f) := by
  intro p
  obtain ⟨exchanges, hpeer, hconversation, hfinished⟩ := ht p
  -- If the first task is stopped nothing follows; if not, all that it asked was answered.
  rw [outcome_bind]
  rcases houtcome : outcome t p with ⟨stop | a, next⟩
  · rw [houtcome] at hpeer
    exact ⟨exchanges, hpeer, hconversation.append_right, fun ⟨_, h⟩ => by contradiction⟩
  · rw [houtcome] at hpeer hfinished
    obtain ⟨exchanges', hpeer', hconversation', hfinished'⟩ := hf a next
    have hfirst := hfinished ⟨a, rfl⟩
    refine ⟨exchanges ++ exchanges', ?_, hfirst.append_conversation hconversation',
      fun h => hfirst.append (hfinished' h)⟩
    rw [hpeer', hpeer, List.append_assoc]

/-- A task that leaves the record as it was asks nothing. -/
theorem Keeps.asks {t : Task (σ × List Exchange) α} (h : Keeps (fun p => p.peer.2) t) :
    Asks [] t :=
  fun p =>
    ⟨[], by rw [List.append_nil]; exact h p, finished_nil.conversation, fun _ => finished_nil⟩

theorem Asks.bind_keeps {t : Task (σ × List Exchange) α} {f : α → Task (σ × List Exchange) β}
    (ht : Asks requests t) (hf : ∀ a, Keeps (fun p => p.peer.2) (f a)) :
    Asks requests (t >>= f) := by
  have hbind := ht.bind fun a => (hf a).asks
  rwa [List.append_nil] at hbind

theorem asks_mapM {items : List β} {f : β → Task (σ × List Exchange) α} {request : β → Request}
    (hf : ∀ b, Asks [request b] (f b)) : Asks (items.map request) (items.mapM f) := by
  induction items with
  | nil => exact (keeps_pure []).asks
  | cons b rest ih =>
    rw [List.mapM_cons]
    exact (hf b).bind fun _ => ih.bind_keeps fun _ => keeps_pure _

variable {s : Surroundings σ} {settings : ClientSettings}

/-- Connecting asks nothing. -/
theorem keeps_connect (hretries : settings.maxRetries = 0) (endpoint : String) :
    Keeps (fun p => p.peer.2)
      (client fun peer =>
        Session.connect settings Uri.ofEndpoint endpoint s.recording.dial peer) := by
  intro p
  cases hread : Uri.ofEndpoint endpoint with
  | error problem => rw [outcome_client_of_ok (Session.connect_unread hread)]
  | ok address =>
    rw [outcome_client_of_ok (Session.connect_ended hread (.inl hretries))]
    rfl

/-- A call sends its request once. -/
theorem asks_call (hretries : settings.maxRetries = 0) (r : Request) :
    Asks [r] (client fun peer => Session.call settings r s.recording.send peer) := by
  intro p
  refine ⟨[(r, (s.send r p.peer.1).1.result)], ?_, ⟨List.prefix_rfl, fun e he => by simp at he⟩, ?_⟩
  · rw [outcome_client_of_ok (Session.call_ended (.inl hretries))]
    rfl
  · rw [outcome_client_of_ok (Session.call_ended (.inl hretries))]
    rintro ⟨values, hvalues⟩
    exact ⟨rfl, List.forall_mem_singleton.2
      ⟨values, mapError_eq_ok_iff.1 (mapError_eq_ok_iff.1 hvalues)⟩⟩

end Task

end Planimeter.Command
