import Planimeter.Calculation
import Mathlib.Order.Bounds.Basic
import Mathlib.Data.List.Basic
/-!
# Several areas at once

A batch is held against the single calculation of each of its shapes. Either every shape is there,
and the values are those of the single calculations in their order, or one is missing, and the
position of the first missing one is all that is told. The two cases are told apart by one induction
over the list each.
-/
namespace Planimeter.Calculation

/-- The areas are those of the shapes one by one, none of which is missing. -/
theorem areas_eq_ok_iff {shapes : List (Option Shape)} {values : List Binary32} :
    areas shapes = .ok values ↔ shapes.map area = values.map .ok := by
  induction shapes generalizing values with
  | nil => cases values <;> simp [areas]
  | cons m shapes ih =>
    cases m with
    | none => cases values <;> simp [areas, area]
    | some s =>
      cases hrest : areas shapes with
      | ok rest =>
        have hmap := ih.1 hrest
        cases values with
        | nil => simp [areas, hrest]
        | cons x values =>
          have hinj : Function.Injective (List.map (.ok : Binary32 → Except AreaError Binary32)) :=
            List.map_injective_iff.2 fun _ _ => Except.ok.inj
          simp [areas, hrest, area, hmap, hinj.eq_iff]
      | error index =>
        have hmap (values : List Binary32) : shapes.map area ≠ values.map .ok := fun h => by
          rw [ih.2 h] at hrest
          contradiction
        cases values <;> simp [areas, hrest, hmap]

/-- The areas fail with the position of the first missing shape. -/
theorem areas_eq_error_iff {shapes : List (Option Shape)} {index : Nat} :
    areas shapes = .error index ↔ IsLeast {i | shapes[i]? = some none} index := by
  induction shapes generalizing index with
  | nil => simp [areas, IsLeast]
  | cons m shapes ih =>
    cases m with
    | none =>
      have hzero : IsLeast {i | (none :: shapes)[i]? = some none} 0 :=
        ⟨rfl, fun _ _ => Nat.zero_le _⟩
      constructor
      · intro h
        obtain rfl : 0 = index := Except.error.inj h
        exact hzero
      · intro h
        rw [h.unique hzero, areas]
    | some s =>
      have hshift (i : Nat) : IsLeast {j | (some s :: shapes)[j]? = some none} (i + 1) ↔
          IsLeast {j | shapes[j]? = some none} i := by
        simp only [IsLeast, mem_lowerBounds, Set.mem_ofPred_eq, List.getElem?_cons_succ]
        refine and_congr_right fun _ => ⟨fun h j hj => ?_, fun h j hj => ?_⟩
        · exact Nat.le_of_succ_le_succ (h (j + 1) hj)
        · cases j with
          | zero => simp at hj
          | succ j => exact Nat.succ_le_succ (h j hj)
      cases index with
      | zero =>
        have hne : ¬IsLeast {j | (some s :: shapes)[j]? = some none} 0 := fun h => by
          simpa using h.1
        cases hrest : areas shapes <;> simp [areas, hrest, hne]
      | succ index =>
        rw [hshift, ← ih]
        cases hrest : areas shapes <;> simp [areas, hrest]

def target : String := "area_calculator::domain::service"

/-- The report that a batch of so many shapes begins. -/
def counted (count : Nat) : Event :=
  ⟨.debug, target, "calculating areas for multiple shapes", [("count", .count count)]⟩

/-- The report that the shape at a position is missing. -/
def rejected (index : Nat) : Event :=
  ⟨.debug, target, "rejecting batch on invalid shape", [("index", .count index)]⟩

theorem calculateMulti_of_ok {shapes : List (Option Shape)} {values : List Binary32}
    (h : areas shapes = .ok values) :
    calculateMulti shapes = ⟨[counted shapes.length], .ok values⟩ := by
  rw [calculateMulti, h]
  rfl

theorem calculateMulti_of_error {shapes : List (Option Shape)} {index : Nat}
    (h : areas shapes = .error index) :
    calculateMulti shapes =
      ⟨[counted shapes.length, rejected index], .error .unrecognized⟩ := by
  rw [calculateMulti, h]
  rfl

theorem calculateOne_result_eq_ok_iff {m : Option Shape} {x : Binary32} :
    (calculateOne m).result = .ok [x] ↔ area m = .ok x := by
  cases m <;> simp [calculateOne, area, Except.map]

/-- A batch succeeds exactly if no shape is missing. Its values are then as many as the shapes, each
the single value that its shape gives alone, and it reports nothing but their count. If a shape is
missing, the batch fails without values and reports, after the count, the position of the first
missing shape and nothing else. -/
theorem calculateMulti_all_or_nothing (shapes : List (Option Shape)) :
    ((∃ values, (calculateMulti shapes).result = .ok values) ↔ ∀ m ∈ shapes, m ≠ none) ∧
    (∀ values, (calculateMulti shapes).result = .ok values →
      values.length = shapes.length ∧
      (∀ i (hshape : i < shapes.length) (hvalue : i < values.length),
        (calculateOne shapes[i]).result = .ok [values[i]]) ∧
      (calculateMulti shapes).events = [counted shapes.length]) ∧
    (none ∈ shapes → ∃ index, IsLeast {i | shapes[i]? = some none} index ∧
      calculateMulti shapes =
        ⟨[counted shapes.length, rejected index], .error .unrecognized⟩) := by
  cases h : areas shapes with
  | ok values =>
    have hmap := areas_eq_ok_iff.1 h
    have hpresent : ∀ m ∈ shapes, m ≠ none := by
      rintro m hm rfl
      have hmem : area none ∈ values.map .ok := hmap ▸ List.mem_map_of_mem hm
      simp [area] at hmem
    rw [calculateMulti_of_ok h]
    refine ⟨⟨fun _ => hpresent, fun _ => ⟨values, rfl⟩⟩, fun values' hvalues' => ?_,
      fun hnone => absurd rfl (hpresent none hnone)⟩
    obtain rfl : values = values' := Except.ok.inj hvalues'
    refine ⟨by simpa using (congrArg List.length hmap).symm, fun i hshape hvalue => ?_, rfl⟩
    rw [calculateOne_result_eq_ok_iff]
    have hget := congrArg (·[i]?) hmap
    simpa [hshape, hvalue] using hget
  | error index =>
    have hleast := areas_eq_error_iff.1 h
    have hnone : none ∈ shapes := List.mem_of_getElem? hleast.1
    rw [calculateMulti_of_error h]
    refine ⟨⟨fun ⟨_, hvalues⟩ => by contradiction, fun hpresent => absurd rfl (hpresent _ hnone)⟩,
      fun _ hvalues => by contradiction, fun _ => ⟨index, hleast, rfl⟩⟩

/-- Two of four shapes are missing, and the first of them is told. -/
theorem calculateMulti_all_or_nothing_second :
    none ∈ [some (Shape.square .zero), none, some (.circle .zero), none] ∧
      calculateMulti [some (.square .zero), none, some (.circle .zero), none] =
        ⟨[counted 4, rejected 1], .error .unrecognized⟩ := by
  have hnone : none ∈ [some (Shape.square .zero), none, some (.circle .zero), none] := by simp
  obtain ⟨index, hleast, hbatch⟩ := (calculateMulti_all_or_nothing _).2.2 hnone
  obtain rfl : index = 1 := by
    refine hleast.unique ⟨rfl, fun i hi => Nat.one_le_iff_ne_zero.2 ?_⟩
    rintro rfl
    simp at hi
  exact ⟨hnone, hbatch⟩

end Planimeter.Calculation
