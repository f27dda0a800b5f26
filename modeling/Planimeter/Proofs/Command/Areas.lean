import Planimeter.Proofs.Calculation.Batch
import Planimeter.Proofs.Client.Remote
import Planimeter.Proofs.Command.Lines
import Planimeter.Proofs.Command.Output
import Planimeter.Proofs.Shape.RoundTrip
import Mathlib.Data.List.Forall2
/-!
# Areas of shapes, together or one by one

Whether the shapes are sent together or one by one decides which requests go out, not what is
printed. A task that asks for areas is held against a peer whose states of one kind all give the
right answers and are left for one of that kind, so that the single requests are an induction over
the shapes and the request for all of them is one step. The service is such a peer, whatever it has
received.
-/
open Planimeter.Command.Task

namespace Planimeter

/-- The area of a shape as the service gets it. -/
def Shape.arrivedArea (shape : Shape) : Binary32 := (shape.map Binary.unsignZero).area

namespace Calculation

@[simp] theorem areas_map_some (shapes : List Shape) :
    areas (shapes.map some) = .ok (shapes.map Shape.area) := by
  rw [areas_eq_ok_iff, List.map_map, List.map_map]
  rfl

@[simp] theorem answer_unsignZeros (shapes : List Shape) :
    (answer (Request.multi (shapes.map some)).unsignZeros).result =
      .ok (shapes.map Shape.arrivedArea) := by
  have harrived : (shapes.map some).map (Option.map (Shape.map Binary.unsignZero)) =
      (shapes.map (Shape.map Binary.unsignZero)).map some := by
    rw [List.map_map, List.map_map]
    rfl
  rw [Request.unsignZeros, harrived, answer, calculateMulti_of_ok (areas_map_some _)]
  exact congrArg Except.ok List.map_map

end Calculation

namespace Peer

/-- The service gives an answer that is within the limit to a request that arrives. -/
theorem askRemote_service {r : Request} {values : List Binary32} (received : List Request)
    (hrequest : transmitRequest r = .ok r.unsignZeros)
    (hanswer : (Calculation.answer r.unsignZeros).result = .ok values)
    (hlimit : (Wire.encodeResponse values).length ≤ Rpc.messageLimit) :
    askRemote r (answering [] received) =
      (⟨[], .ok values⟩, answering [] (received ++ [r.unsignZeros])) := by
  have hresult : ((Rpc.handle r.unsignZeros).map transmitAnswer).result = .ok values := by
    rw [result_transmitted, hanswer]
    exact transmitAreas_eq hlimit
  rw [askRemote, ask_eq received hrequest]
  simp only [hresult]

theorem askRemote_one (shape : Shape) (received : List Request) :
    askRemote (.one (some shape)) (answering [] received) =
      (⟨[], .ok [shape.arrivedArea]⟩,
        answering [] (received ++ [(Request.one (some shape)).unsignZeros])) :=
  have hlength : [shape.arrivedArea].length < 32 := by simp
  askRemote_service received (transmitRequest_one _) rfl
    (Wire.length_encodeResponse_le_limit hlength)

/-- The request for the areas of all shapes and its answer are within the limit for messages. -/
structure Carries (shapes : List Shape) : Prop where
  request : (Wire.encodeRequest (shapes.map some)).length ≤ Rpc.messageLimit
  response : (Wire.encodeResponse (shapes.map Shape.arrivedArea)).length ≤ Rpc.messageLimit

theorem carries_of_length_lt {shapes : List Shape} (h : shapes.length < 32) : Carries shapes where
  request := Wire.length_encodeRequest_le_limit (by rwa [List.length_map])
  response := Wire.length_encodeResponse_le_limit (by rwa [List.length_map])

theorem askRemote_multi {shapes : List Shape} (h : Carries shapes) (received : List Request) :
    askRemote (.multi (shapes.map some)) (answering [] received) =
      (⟨[], .ok (shapes.map Shape.arrivedArea)⟩,
        answering [] (received ++ [(Request.multi (shapes.map some)).unsignZeros])) :=
  askRemote_service received (transmitRequest_multi h.request)
    (Calculation.answer_unsignZeros shapes) h.response

end Peer

namespace Command

variable {σ : Type}

/-- Asked for this, peers that are in order answer with these areas and stay in order. -/
def Gives (s : Surroundings σ) (ready : σ → Prop) (r : Request) (values : List Binary32) : Prop :=
  ∀ peer, ready peer → (s.send r peer).1.result = .ok values ∧ ready (s.send r peer).2

/-- Peers that are in order can be reached and asked for the areas of shapes. -/
structure Serves (s : Surroundings σ) (ready : σ → Prop) (endpoint : String) (multi : Bool)
    (shapes : List Shape) : Prop where
  reached : ∃ address, Uri.ofEndpoint endpoint = .ok address ∧
    ∀ peer, ready peer → (s.dial address peer).1 = .ok () ∧ ready (s.dial address peer).2
  alone : multi = false → ∀ shape ∈ shapes,
    Gives s ready (.one (some shape)) [shape.arrivedArea]
  together : multi = true →
    Gives s ready (.multi (shapes.map some)) (shapes.map Shape.arrivedArea)

variable {s : Surroundings σ} {ready : σ → Prop} {settings : ClientSettings} {multi : Bool}
  {shapes : List Shape} {endpoint : String}

theorem yields_call {r : Request} {values : List Binary32} (hretries : settings.maxRetries = 0)
    (h : Gives s ready r values) :
    Task.Yields ready (client fun peer => Session.call settings r s.send peer) values := by
  intro p hp
  obtain ⟨hresult, hready⟩ := h p.peer hp
  rw [outcome_client_of_ok (Session.call_ended (.inl hretries))]
  exact ⟨by rw [hresult]; rfl, hready⟩

theorem yields_connect (hretries : settings.maxRetries = 0)
    (h : Serves s ready endpoint multi shapes) :
    Task.Yields ready
      (client fun peer => Session.connect settings Uri.ofEndpoint endpoint s.dial peer) () := by
  intro p hp
  obtain ⟨address, hread, hdial⟩ := h.reached
  obtain ⟨hresult, hready⟩ := hdial p.peer hp
  rw [outcome_client_of_ok (Session.connect_ended hread (.inl hretries))]
  exact ⟨by rw [hresult]; rfl, hready⟩

/-- The areas are those of the shapes in their order, whichever way they are asked for. -/
theorem yields_areas (hretries : settings.maxRetries = 0)
    (h : Serves s ready endpoint multi shapes) :
    Task.Yields ready (areas s settings multi shapes) (shapes.map Shape.arrivedArea) := by
  unfold areas
  cases multi with
  | true => exact (yields_log _).bind (yields_call hretries (h.together rfl))
  | false =>
    -- Each answer has a single area, so that together they are as many as the shapes.
    have hflat : (shapes.map fun shape => [shape.arrivedArea]).flatten =
        shapes.map Shape.arrivedArea := List.map_eq_flatMap.symm
    rw [← hflat]
    refine (yields_mapM fun shape hshape => ?_).bind (yields_pure _)
    exact (yields_log _).bind (yields_call hretries (h.alone rfl shape hshape))

/-- The lines that are printed for areas. -/
def areaLines (values : List Binary32) : String :=
  String.join (values.map fun value => s!"Area: {value.text}\n")

/-- A line is printed for each area once all are there. -/
theorem outcome_calculate (timeout : Fin UInt64.size) (h : Serves s ready endpoint multi shapes)
    {p : Progress σ} (hp : ready p.peer) :
    (outcome (calculate s endpoint multi timeout shapes) p).1 = .ok () ∧
      (outcome (calculate s endpoint multi timeout shapes) p).2.printed =
        p.printed ++ areaLines (shapes.map Shape.arrivedArea) := by
  have hretries : (clientSettings timeout).maxRetries = 0 := rfl
  obtain ⟨connected, hconnect, hready, hprinted⟩ :=
    (yields_connect hretries h).exists_next (keeps_client_printed _) hp
  obtain ⟨asked, hareas, -, hprinted'⟩ :=
    (yields_areas hretries h).exists_next (keeps_areas_printed s _ multi shapes) hready
  simp only [calculate, outcome_bind, hconnect, hareas]
  rw [outcome_forM_print]
  exact ⟨rfl, by simp only [hprinted', hprinted]; rfl⟩

theorem Serves.recording (h : Serves s ready endpoint multi shapes) :
    Serves s.recording (fun p => ready p.1) endpoint multi shapes where
  reached := by
    obtain ⟨address, hread, hdial⟩ := h.reached
    exact ⟨address, hread, fun p hp => hdial p.1 hp⟩
  alone hmulti shape hshape p hp := h.alone hmulti shape hshape p.1 hp
  together hmulti p hp := h.together hmulti p.1 hp

/-- A run that gets to such a task comes to its end, prints the areas, and asks for each shape or
for all of them once. -/
theorem run_calculate {arguments : List String} {i : Invocation} {c : Config} {logger : Logger}
    {timeout : Fin UInt64.size} {peer : σ} (harguments : Invocation.ofArguments arguments = .ok i)
    (hprepare : prepare s i = .ok (.ok (c, logger))) (hprint : i.printConfig = false)
    (haction : i.action = some (.calculate endpoint multi timeout shapes))
    (h : Serves s ready endpoint multi shapes) (hpeer : ready peer) :
    (run s arguments peer).ending = .exited 0 ∧
    (run s arguments peer).stdout = areaLines (shapes.map Shape.arrivedArea) ∧
    (run s.recording arguments (peer, [])).peer.2.map Prod.fst = requests multi shapes := by
  have htask : i.task s c = calculate s endpoint multi timeout shapes := by
    simp [Invocation.task, hprint, haction, perform]
  have hrecording : i.task s.recording c = calculate s.recording endpoint multi timeout shapes := by
    simp [Invocation.task, hprint, haction, perform]
  have hprepare' : prepare s.recording i = .ok (.ok (c, logger)) := hprepare
  obtain ⟨hending, hstdout, -⟩ := run_of_prepared peer harguments hprepare
  obtain ⟨-, -, hexchanges⟩ := run_of_prepared (peer, []) harguments hprepare'
  obtain ⟨hresult, hprinted⟩ := outcome_calculate timeout h (p := ⟨"", [], peer⟩) hpeer
  obtain ⟨hrecorded, -⟩ :=
    outcome_calculate timeout h.recording (p := ⟨"", [], (peer, [])⟩) hpeer
  obtain ⟨exchanges, hasked, -, hfinished⟩ :=
    asks_calculate s endpoint multi timeout shapes ⟨"", [], (peer, [])⟩
  refine ⟨by rw [hending, htask, hresult], ?_, ?_⟩
  · rw [hstdout, htask, hprinted, String.empty_append]
  · rw [hexchanges, hrecording, hasked, List.nil_append]
    exact (hfinished ⟨(), hrecorded⟩).sent

/-- The service is found at an endpoint and can be asked. -/
structure Reaches (s : Surroundings Peer) (endpoint : String) : Prop where
  dial : ∃ address, Uri.ofEndpoint endpoint = .ok address ∧
    ∀ peer, s.dial address peer = (.ok (), peer)
  send : s.send = Peer.askRemote

theorem Reaches.serves {s : Surroundings Peer} (h : Reaches s endpoint)
    (hcarries : multi = true → Peer.Carries shapes) :
    Serves s (fun peer => ∃ received, peer = .answering [] received) endpoint multi shapes where
  reached := by
    obtain ⟨address, hread, hdial⟩ := h.dial
    refine ⟨address, hread, fun peer hpeer => ?_⟩
    rw [hdial peer]
    exact ⟨rfl, hpeer⟩
  alone := by
    rintro - shape - peer ⟨received, rfl⟩
    rw [h.send, Peer.askRemote_one]
    exact ⟨rfl, _, rfl⟩
  together := by
    rintro hmulti peer ⟨received, rfl⟩
    rw [h.send, Peer.askRemote_multi (hcarries hmulti)]
    exact ⟨rfl, _, rfl⟩

/-- A text on one line that is read as the area of a shape as the service gets it. -/
def TextOfArea (text : String) (shape : Shape) : Prop :=
  '\n' ∉ text.toList ∧ Binary.ofText text = .ok shape.arrivedArea.canonical

theorem textOfArea (shape : Shape) : TextOfArea shape.arrivedArea.text shape :=
  ⟨Binary.not_mem_text (by decide) (by decide), Binary.ofText_text (by decide) _⟩

/-- With a service that can be reached, a command line that asks for areas prints a line for each
shape, in the order of the shapes, of which the text is read as the area of the shape as the service
gets it. The lines are the same whether the shapes are sent together, which is one request, or one
by one, which is a request for each. Only shapes that are sent together may be too long for a
message. -/
theorem prints_areas_either_way {c : Config} {logger : Logger} (l : AreaLine)
    (s : Surroundings Peer) (received : List Request)
    (hprepare : prepare s (l.invocation false) = .ok (.ok (c, logger)))
    (hreaches : Reaches s l.endpoint) :
    ∃ printed : List String, List.Forall₂ TextOfArea printed l.shapes ∧
      ∀ multi, (multi = true → Peer.Carries l.shapes) →
        (run s (l.arguments multi) (.answering [] received)).ending = .exited 0 ∧
        (run s (l.arguments multi) (.answering [] received)).stdout =
          String.join (printed.map fun text => s!"Area: {text}\n") ∧
        (run s.recording (l.arguments multi) (.answering [] received, [])).peer.2.map Prod.fst =
          requests multi l.shapes := by
  refine ⟨l.shapes.map fun shape => shape.arrivedArea.text, ?_, fun multi hcarries => ?_⟩
  · rw [List.forall₂_map_left_iff, List.forall₂_same]
    exact fun shape _ => textOfArea shape
  · have hprepare' : prepare s (l.invocation multi) = .ok (.ok (c, logger)) := hprepare
    obtain ⟨hending, hstdout, hrequests⟩ := run_calculate (l.ofArguments multi) hprepare' rfl rfl
      (hreaches.serves hcarries) ⟨received, rfl⟩
    refine ⟨hending, ?_, hrequests⟩
    rw [hstdout, areaLines, List.map_map, List.map_map]
    rfl

/-- Surroundings without a file and without variables, in which the service is reached. -/
def besideService : Surroundings Peer where
  file _ := none
  environment := []
  time := ""
  bind address := .ok address
  signal := none
  dial _ peer := (.ok (), peer)
  send := Peer.askRemote

/-- A rectangle of two by three and a square of edge minus zero. -/
def twoShapes : AreaLine where
  before := ["-v"]
  outer := { verbose := some 1 }
  options := ["--timeout-ms", "250"]
  given := { timeout := some ⟨250, by decide⟩ }
  texts := ["rectangle=2,3", "square=-0"]
  shapes := [.rectangle (.ofBits 0x40000000) (.ofBits 0x40400000), .square (.ofBits 0x80000000)]
  before_read := ⟨by decide, _, by rfl, by rfl⟩
  options_read := ⟨by decide, _, by rfl, by rfl⟩
  texts_read := by rfl
  printConfig_eq := rfl
  multi_eq := rfl
  shapes_eq := rfl
  texts_ne_nil := by decide

/-- Both ways succeed and print the same for the two shapes, with one request and with two. -/
theorem prints_areas_either_way_two :
    twoShapes.arguments true =
      ["-v", "calculate", "--timeout-ms", "250", "--multi", "rectangle=2,3", "square=-0"] ∧
    (∃ loaded, prepare besideService (twoShapes.invocation false) = .ok (.ok loaded)) ∧
    Reaches besideService twoShapes.endpoint ∧ Peer.Carries twoShapes.shapes ∧
    (∀ multi, (run besideService (twoShapes.arguments multi) (.answering [] [])).ending =
      .exited 0) ∧
    (run besideService (twoShapes.arguments true) (.answering [] [])).stdout =
      (run besideService (twoShapes.arguments false) (.answering [] [])).stdout ∧
    ∀ multi, (run besideService.recording (twoShapes.arguments multi)
      (.answering [] [], [])).peer.2.map Prod.fst = requests multi twoShapes.shapes := by
  have hprepare : ∃ loaded,
      prepare besideService (twoShapes.invocation false) = .ok (.ok loaded) := ⟨_, by rfl⟩
  have hreaches : Reaches besideService twoShapes.endpoint := ⟨⟨_, by rfl, fun _ => rfl⟩, rfl⟩
  have hcarries : Peer.Carries twoShapes.shapes := Peer.carries_of_length_lt (by decide)
  obtain ⟨⟨c, logger⟩, hloaded⟩ := hprepare
  obtain ⟨printed, -, hruns⟩ :=
    prints_areas_either_way twoShapes besideService [] hloaded hreaches
  have hboth := fun multi => hruns multi fun _ => hcarries
  refine ⟨rfl, ⟨_, hloaded⟩, hreaches, hcarries, fun multi => (hboth multi).1, ?_,
    fun multi => (hboth multi).2.2⟩
  exact (hboth true).2.1.trans (hboth false).2.1.symm

end Command

end Planimeter
