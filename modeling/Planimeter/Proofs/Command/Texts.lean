import Planimeter.Proofs.Binary.Plain
import Planimeter.Proofs.Command.Areas
/-!
# Texts of dimensions and of areas

Data are shown in two places, as the dimensions of a shape and as the areas that a command prints.
Both show a finite datum other than zero by the shortest decimal that reads back to it.
-/
open Planimeter.Command.Task

namespace Planimeter

/-- A datum and its text, which is a shortest one if the datum is finite and not zero. -/
def Shown (x : Binary32) (text : String) : Prop :=
  x.IsFinite → x.isZero = false → ShortestText x text

theorem shown_text (x : Binary32) : Shown x x.text := by
  intro hfinite hzero
  refine shortestText_text hfinite fun hrank => ?_
  rw [Binary.isZero, hrank] at hzero
  contradiction

theorem forall₂_shown (values : List Binary32) :
    List.Forall₂ Shown values (values.map Binary.text) := by
  rw [List.forall₂_map_right_iff, List.forall₂_same]
  exact fun x _ => shown_text x

namespace Command

variable {σ : Type} {s : Surroundings σ} {endpoint : String} {multi : Bool} {shapes : List Shape}
  {timeout : Fin UInt64.size} {p connected asked : Progress σ} {values : List Binary32}

/-- Whatever areas there are, a line is printed for each. -/
theorem printed_calculate
    (hconnect : outcome (client fun peer =>
      Session.connect (clientSettings timeout) Uri.ofEndpoint endpoint s.dial peer) p =
        (.ok (), connected))
    (hareas : outcome (areas s (clientSettings timeout) multi shapes) connected =
      (.ok values, asked)) :
    (outcome (calculate s endpoint multi timeout shapes) p).2.printed =
      p.printed ++ areaLines values := by
  have hconnected : connected.printed = p.printed := by
    rw [← keeps_client_printed _ p, hconnect]
  have hasked : asked.printed = connected.printed := by
    rw [← keeps_areas_printed s (clientSettings timeout) multi shapes connected, hareas]
  simp only [calculate, outcome_bind, hconnect, hareas]
  rw [outcome_forM_print]
  simp only [hasked, hconnected]
  rfl

end Command

/-- The text of a finite datum other than zero is the shortest decimal that reads back to it, and of
those the nearest one, laid out plainly. It is what stands for the datum among the dimensions in the
text of a shape, and in the line that a command prints for an area. -/
theorem texts_shortest :
    (∀ x : Binary32, x.IsFinite → x.isZero = false → ShortestText x x.text) ∧
    (∀ shape : Shape, ∃ texts, List.Forall₂ Shown shape.dims texts ∧
      shape.text = shape.kind.name ++ "=" ++ ",".intercalate texts) ∧
    ∀ (σ : Type) (s : Command.Surroundings σ) (endpoint : String) (multi : Bool)
      (timeout : Fin UInt64.size) (shapes : List Shape) (p connected asked : Command.Progress σ)
      (values : List Binary32),
      outcome (client fun peer =>
        Session.connect (Command.clientSettings timeout) Uri.ofEndpoint endpoint s.dial peer) p =
          (.ok (), connected) →
      outcome (Command.areas s (Command.clientSettings timeout) multi shapes) connected =
        (.ok values, asked) →
      ∃ texts, List.Forall₂ Shown values texts ∧
        (outcome (Command.calculate s endpoint multi timeout shapes) p).2.printed =
          p.printed ++ String.join (texts.map fun text => s!"Area: {text}\n") := by
  refine ⟨shown_text, fun shape => ⟨_, forall₂_shown shape.dims, rfl⟩, ?_⟩
  intro σ s endpoint multi timeout shapes p connected asked values hconnect hareas
  refine ⟨_, forall₂_shown values, ?_⟩
  rw [Command.printed_calculate hconnect hareas, Command.areaLines, List.map_map]
  rfl

/-- The datum next to a tenth is shown as a tenth, and a line is printed for the area of a
rectangle. -/
theorem texts_shortest_tenth :
    (Binary.ofBits 0x3dcccccd : Binary32).text = "0.1" ∧
    ShortestText (.ofBits 0x3dcccccd) "0.1" ∧
    ∃ texts, List.Forall₂ Shown
        [(Shape.rectangle (.ofBits 0x40000000) (.ofBits 0x40400000)).arrivedArea] texts ∧
      (outcome (Command.calculate Command.besideService "http://localhost:50051" false
          ⟨250, by decide⟩ [.rectangle (.ofBits 0x40000000) (.ofBits 0x40400000)])
        ⟨"", [], .answering [] []⟩).2.printed =
        "" ++ String.join (texts.map fun text => s!"Area: {text}\n") := by
  have htext : (Binary.ofBits 0x3dcccccd : Binary32).text = "0.1" := by decide +kernel
  obtain ⟨hall, -, hcalculate⟩ := texts_shortest
  have htenth := hall (.ofBits 0x3dcccccd) (by decide) (by decide)
  rw [htext] at htenth
  refine ⟨htext, htenth, ?_⟩
  have hserves : Command.Serves Command.besideService
      (fun peer => ∃ received, peer = .answering [] received) "http://localhost:50051" false
      [.rectangle (.ofBits 0x40000000) (.ofBits 0x40400000)] :=
    Command.Reaches.serves ⟨⟨_, by rfl, fun _ => rfl⟩, rfl⟩ fun h => absurd h (by decide)
  have hretries : (Command.clientSettings ⟨250, by decide⟩).maxRetries = 0 := rfl
  obtain ⟨connected, hconnect, hready, -⟩ := (Command.yields_connect hretries hserves).exists_next
    (keeps_client_printed _) (p := ⟨"", [], .answering [] []⟩) ⟨[], rfl⟩
  obtain ⟨asked, hareas, -, -⟩ := (Command.yields_areas hretries hserves).exists_next
    (Command.keeps_areas_printed _ _ _ _) hready
  exact hcalculate _ _ _ _ _ _ _ _ _ _ hconnect hareas

end Planimeter
