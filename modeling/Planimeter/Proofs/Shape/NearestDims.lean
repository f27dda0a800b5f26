import Planimeter.Proofs.Binary.Decimals
import Planimeter.Proofs.Shape.Reading
/-!
# Dimensions are read to the nearest datum

A dimension is read from a trimmed value of a shape's text. The main statement is that a decimal is
read as the nearest datum of single precision to the number that it writes, by itself and among the
values of a shape. It is rounded once, so that a digit however far to the right decides a tie.
-/
namespace Planimeter

namespace Shape

theorem readDim_of_writes {piece : List Char} {negative : Bool} {m : ℝ}
    (h : Numeral.Writes piece negative m) :
    ∃ x, readDim piece = .ok x ∧ RoundsSingle negative m x := by
  obtain ⟨n, e, hsigned, hvalue⟩ := h.signed
  have hread : Binary.ofText (String.ofList piece) =
      .ok (Binary.ofDecimal negative n e : Binary32) :=
    Binary.ofText_eq_ok_iff.2 ⟨negative, _, by rwa [String.toList_ofList], rfl⟩
  refine ⟨_, by rw [readDim, hread]; rfl, ?_⟩
  have hnearest := Binary.isNearest_ofDecimal Format.fractionBits_single Format.infinity_single
    negative n e
  exact @roundsSingle_of_isNearest (Binary.ofDecimal negative n e) m h.nonneg (hvalue ▸ hnearest)

/-- The decimals among the values of a shape's text become the dimensions nearest to them. -/
theorem ofText_of_writes {text name : String} {values : List String} {kind : Kind}
    (hparts : Parts text name values) (hkind : kind.name = name)
    (hlength : values.length = kind.arity) (hvalues : ∀ value ∈ values, IsNumeral value) :
    ∃ shape, ofText text = .ok shape ∧ shape.kind = kind ∧
      List.Forall₂ (fun value x => ∀ negative m, Numeral.Writes value.toList negative m →
        RoundsSingle negative m x) values shape.dims := by
  obtain ⟨shape, houtcome⟩ := Outcome.exists_shape_iff.2 ⟨⟨kind, hkind, hlength⟩, hvalues⟩
  obtain ⟨hname, hdims⟩ := Outcome.shape_iff.1 houtcome
  refine ⟨shape, (ofText_eq_iff hparts).2 houtcome, ?_, hdims.imp ?_⟩
  · exact Option.some.inj ((Kind.ofName?_eq_some_iff.2 hname).symm.trans
      (Kind.ofName?_eq_some_iff.2 hkind))
  · intro value x hx negative m hwrites
    obtain ⟨x', hread, hrounds⟩ := readDim_of_writes hwrites
    rw [readDim_toList, hx] at hread
    obtain rfl := Except.ok.inj hread
    exact hrounds

/-- Every decimal with an exponent below 655360 is read as the datum of single precision for the
number that it writes, by itself and as a value in the text of a shape. -/
theorem dims_nearest :
    (∀ piece negative m, Numeral.Writes piece negative m →
      ∃ x, readDim piece = .ok x ∧ RoundsSingle negative m x) ∧
    ∀ text name values kind, Parts text name values → kind.name = name →
      values.length = kind.arity → (∀ value ∈ values, IsNumeral value) →
      ∃ shape, ofText text = .ok shape ∧ shape.kind = kind ∧
        List.Forall₂ (fun value x => ∀ negative m, Numeral.Writes value.toList negative m →
          RoundsSingle negative m x) values shape.dims :=
  ⟨fun _ _ _ => readDim_of_writes, fun _ _ _ _ => ofText_of_writes⟩

/-- A digit far to the right decides against the even neighbour. The nearest datum of double
precision is halfway between two of single precision and would be rounded down from there. -/
theorem dims_nearest_above_tie :
    readDim "1.000000059604644775390625000000000001".toList = .ok (.ofBits 0x3f800001) ∧
    RoundsSingle false (1 + 59604644775390625000000000001 / 10 ^ 36) (.ofBits 0x3f800001) ∧
    ∃ shape x, ofText "square=1.000000059604644775390625000000000001" = .ok shape ∧
      shape.dims = [x] ∧ RoundsSingle false (1 + 59604644775390625000000000001 / 10 ^ 36) x := by
  have hwrites : Numeral.Writes "1.000000059604644775390625000000000001".toList false
      (1 + 59604644775390625000000000001 / 10 ^ 36) := by
    have h := @Numeral.Writes.pointed [] ['1'] "000000059604644775390625000000000001".toList []
      false 0 .none (.inl (by decide)) (List.all_eq_true.1 (by decide))
      (List.all_eq_true.1 (by decide +kernel)) .none
    rw [show Numeral.ofDigits ['1'] = 1 by decide,
      show Numeral.ofDigits "000000059604644775390625000000000001".toList =
        59604644775390625000000000001 by decide +kernel] at h
    simpa using h
  have hread : readDim "1.000000059604644775390625000000000001".toList =
      .ok (.ofBits 0x3f800001) := by decide +kernel
  have hparts : Parts "square=1.000000059604644775390625000000000001" "square"
      ["1.000000059604644775390625000000000001"] := by
    have hvalue : Text.Trimmed "1.000000059604644775390625000000000001".toList
        "1.000000059604644775390625000000000001".toList := Text.trim_eq_iff.1 rfl
    refine @Parts.mk _ _ _ "square".toList "1.000000059604644775390625000000000001".toList _ rfl
      (by decide) (Text.trimmed_trim "square".toList) rfl ?_
    rw [← Text.pieces_eq_splitOn]
    exact .cons hvalue .nil
  obtain ⟨hone, hall⟩ := dims_nearest
  refine ⟨hread, ?_, ?_⟩
  · obtain ⟨x, hx, hrounds⟩ := hone _ _ _ hwrites
    rw [hread] at hx
    obtain rfl := Except.ok.inj hx
    exact hrounds
  · obtain ⟨shape, hshape, -, hdims⟩ := hall _ _ _ .square hparts rfl rfl
      (List.forall_mem_singleton.2 hwrites.isNumeral)
    obtain ⟨x, rest, hx, hrest, hcons⟩ := List.forall₂_cons_left_iff.1 hdims
    obtain rfl := List.forall₂_nil_left_iff.1 hrest
    exact ⟨shape, x, hshape, hcons, hx _ _ hwrites⟩

end Shape

end Planimeter
