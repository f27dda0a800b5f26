import Planimeter.Proofs.Binary.Numerals
import Mathlib.Data.List.Forall2
/-!
# Which texts are shapes

The text form is held against its parts: the name before the first `=` and the values between the
commas after it. The main statement says for every text what reading it comes to, which is the shape
with these values or the first thing that is wrong: the separator, the kind, the number of values,
or the leftmost value that is no numeral.
-/
namespace Planimeter

@[simp] theorem Kind.ofName?_eq_some_iff {name : String} {kind : Kind} :
    Kind.ofName? name = some kind ↔ kind.name = name := by
  constructor
  · intro h
    rw [ofName?] at h
    simpa using List.find?_some h
  · rintro rfl
    cases kind <;> decide

@[simp] theorem Kind.ofName?_eq_none_iff {name : String} :
    Kind.ofName? name = none ↔ ∀ kind : Kind, kind.name ≠ name := by
  simp only [Option.eq_none_iff_forall_ne_some, ne_eq, ofName?_eq_some_iff]

namespace Shape

variable {text name value : String} {values : List String} {kind : Kind} {dims : List Binary32}
  {x : Binary32}

/-- The name of a text, trimmed and in lower case, and its values, trimmed. -/
inductive Parts : String → String → List String → Prop where
  | mk {text name : String} {values : List String} {before after trimmed : List Char}
      (htext : text.toList = before ++ '=' :: after) (hfirst : '=' ∉ before)
      (htrimmed : Text.Trimmed before trimmed) (hname : name.toList = trimmed.map Char.toLower)
      (hvalues : List.Forall₂ (fun piece value => Text.Trimmed piece value.toList)
        (after.splitOn ',') values) : Parts text name values

theorem exists_parts (h : '=' ∈ text.toList) : ∃ name values, Parts text name values := by
  cases hcut : Text.cut? '=' text.toList with
  | none => exact absurd h (Text.cut?_eq_none_iff.1 hcut)
  | some cut =>
    obtain ⟨before, after⟩ := cut
    obtain ⟨htext, hfirst⟩ := Text.cut?_eq_some_iff.1 hcut
    refine ⟨Text.lower (String.ofList (Text.trim before)),
      (after.splitOn ',').map fun piece => String.ofList (Text.trim piece),
      .mk htext hfirst (Text.trimmed_trim before) (by simp [Text.lower]) ?_⟩
    rw [List.forall₂_map_right_iff, List.forall₂_same]
    intro piece _
    rw [String.toList_ofList]
    exact Text.trimmed_trim piece

/-- Reading by parts. -/
def ofParts (name : String) (values : List String) : Except TextError Shape := do
  let some kind := Kind.ofName? name | throw (.unknownKind name)
  if values.length ≠ kind.arity then throw (.arity kind values.length)
  let dims ← (values.map String.toList).mapM readDim
  let some shape := ofDims? kind dims | throw (.arity kind dims.length)
  return shape

theorem ofText_of_parts (h : Parts text name values) : ofText text = ofParts name values := by
  cases h with
  | @mk before after trimmed htext hfirst htrimmed hname hvalues =>
    have hcut : Text.cut? '=' text.toList = some (before, after) :=
      Text.cut?_eq_some_iff.2 ⟨htext, hfirst⟩
    have hlower : Text.lower (String.ofList (Text.trim before)) = name := by
      rw [Text.trim_of_trimmed htrimmed, Text.lower, String.toList_ofList, ← hname,
        String.ofList_toList]
    have hpieces : (Text.pieces ',' after).map Text.trim = values.map String.toList := by
      rw [Text.pieces_eq_splitOn, ← List.forall₂_eq_eq_eq, List.forall₂_map_left_iff,
        List.forall₂_map_right_iff]
      exact hvalues.imp fun _ _ => Text.trim_of_trimmed
    simp only [ofText, hcut, hlower, hpieces, List.length_map]
    rfl

@[simp] theorem readDim_toList (value : String) :
    readDim value.toList = (Binary.ofText value).mapError (.invalidNumber value) := by
  rw [readDim, String.ofList_toList]

theorem mapM_readDim_ok
    (h : List.Forall₂ (fun value x => Binary.ofText value = .ok x) values dims) :
    (values.map String.toList).mapM readDim = .ok dims := by
  induction h with
  | nil => rfl
  | @cons value x values dims hvalue h ih =>
    rw [List.map_cons, List.mapM_cons, readDim_toList, hvalue, ih]
    rfl

theorem exists_dims (h : ∀ value ∈ values, IsNumeral value) :
    ∃ dims, List.Forall₂ (fun value (x : Binary32) => Binary.ofText value = .ok x) values dims := by
  induction values with
  | nil => exact ⟨[], .nil⟩
  | cons value values ih =>
    rw [List.forall_mem_cons] at h
    obtain ⟨⟨negative, numeral, hvalue⟩, hvalues⟩ := h
    obtain ⟨dims, hdims⟩ := ih hvalues
    exact ⟨_, .cons (Binary.ofText_eq_ok_iff.2 ⟨negative, numeral, hvalue, rfl⟩) hdims⟩

/-- Values are read up to the leftmost one that is no numeral. -/
theorem mapM_readDim_error {before after : List String} (hbefore : ∀ v ∈ before, IsNumeral v)
    (h : ¬IsNumeral value) :
    ((before ++ value :: after).map String.toList).mapM readDim =
      .error (.invalidNumber value (if value = "" then .empty else .malformed)) := by
  obtain ⟨dims, hdims⟩ := exists_dims hbefore
  have hvalue : Binary.ofText (F := .single) value = .error _ :=
    Binary.ofText_eq_error_iff.2 ⟨h, rfl⟩
  rw [List.map_append, List.mapM_append, mapM_readDim_ok hdims, List.map_cons, List.mapM_cons,
    readDim_toList, hvalue]
  rfl

/-- As many dimensions as a kind takes are those of a shape of the kind. -/
theorem exists_shape (h : dims.length = kind.arity) :
    ∃ shape : Shape, shape.kind = kind ∧ shape.dims = dims := by
  cases kind with
  | square =>
    obtain ⟨edge, rfl⟩ := List.length_eq_one_iff.1 h
    exact ⟨.square edge, rfl, rfl⟩
  | rectangle =>
    obtain ⟨length, width, rfl⟩ := List.length_eq_two.1 h
    exact ⟨.rectangle length width, rfl, rfl⟩
  | circle =>
    obtain ⟨radius, rfl⟩ := List.length_eq_one_iff.1 h
    exact ⟨.circle radius, rfl, rfl⟩
  | triangle =>
    obtain ⟨a, b, c, rfl⟩ := List.length_eq_three.1 h
    exact ⟨.triangle a b c, rfl, rfl⟩
  | parallelogram =>
    obtain ⟨base, height, rfl⟩ := List.length_eq_two.1 h
    exact ⟨.parallelogram base height, rfl, rfl⟩

/-- What is to come of the parts of a text; of the errors it is the first in the order of the
cases. -/
inductive Outcome (name : String) (values : List String) : Except TextError Shape → Prop where
  | unknownKind (h : ∀ kind : Kind, kind.name ≠ name) :
      Outcome name values (.error (.unknownKind name))
  | arity {kind : Kind} (hkind : kind.name = name) (h : values.length ≠ kind.arity) :
      Outcome name values (.error (.arity kind values.length))
  | invalidNumber {kind : Kind} {before after : List String} {value : String}
      (hkind : kind.name = name) (hlength : values.length = kind.arity)
      (hvalues : values = before ++ value :: after) (hbefore : ∀ v ∈ before, IsNumeral v)
      (h : ¬IsNumeral value) : Outcome name values
        (.error (.invalidNumber value (if value = "" then .empty else .malformed)))
  | shape {shape : Shape} (hkind : shape.kind.name = name)
      (h : List.Forall₂ (fun value x => Binary.ofText value = .ok x) values shape.dims) :
      Outcome name values (.ok shape)

theorem exists_leftmost {P : String → Prop} (h : ¬∀ value ∈ values, P value) :
    ∃ before value after, values = before ++ value :: after ∧ (∀ v ∈ before, P v) ∧ ¬P value := by
  induction values with
  | nil => exact absurd (fun value hvalue => absurd hvalue List.not_mem_nil) h
  | cons value values ih =>
    by_cases hvalue : P value
    · obtain ⟨before, leftmost, after, rfl, hbefore, hleftmost⟩ :=
        ih fun hvalues => h (List.forall_mem_cons.2 ⟨hvalue, hvalues⟩)
      exact ⟨value :: before, leftmost, after, rfl, List.forall_mem_cons.2 ⟨hvalue, hbefore⟩,
        hleftmost⟩
    · exact ⟨[], value, values, rfl, fun v hv => absurd hv List.not_mem_nil, hvalue⟩

theorem exists_outcome (name : String) (values : List String) :
    ∃ result, Outcome name values result := by
  by_cases hkind : ∃ kind : Kind, kind.name = name
  · obtain ⟨kind, hkind⟩ := hkind
    by_cases hlength : values.length = kind.arity
    · by_cases hnumerals : ∀ value ∈ values, IsNumeral value
      · obtain ⟨dims, hdims⟩ := exists_dims hnumerals
        obtain ⟨shape, rfl, rfl⟩ := exists_shape (hdims.length_eq ▸ hlength)
        exact ⟨_, .shape hkind hdims⟩
      · obtain ⟨before, value, after, hvalues, hbefore, hvalue⟩ := exists_leftmost hnumerals
        exact ⟨_, .invalidNumber hkind hlength hvalues hbefore hvalue⟩
    · exact ⟨_, .arity hkind hlength⟩
  · exact ⟨_, .unknownKind (not_exists.1 hkind)⟩

theorem ofParts_eq_of_outcome {result : Except TextError Shape} (h : Outcome name values result) :
    ofParts name values = result := by
  cases h with
  | unknownKind h =>
    simp only [ofParts, Kind.ofName?_eq_none_iff.2 h]
    rfl
  | arity hkind h =>
    simp only [ofParts, Kind.ofName?_eq_some_iff.2 hkind, if_pos h]
    rfl
  | invalidNumber hkind hlength hvalues hbefore h =>
    simp only [ofParts, Kind.ofName?_eq_some_iff.2 hkind, hlength, ne_eq, not_true_eq_false,
      if_false]
    rw [hvalues, mapM_readDim_error hbefore h]
    rfl
  | @shape shape hkind h =>
    have hlength : values.length = shape.kind.arity := by simp [h.length_eq]
    simp only [ofParts, Kind.ofName?_eq_some_iff.2 hkind, hlength, ne_eq, not_true_eq_false,
      if_false, mapM_readDim_ok h, bind, Except.bind, ofDims?_dims]
    rfl

theorem ofText_eq_iff (h : Parts text name values) {result : Except TextError Shape} :
    ofText text = result ↔ Outcome name values result := by
  rw [ofText_of_parts h]
  constructor
  · -- Every name with values has an outcome, and reading is a function.
    rintro rfl
    obtain ⟨result, hresult⟩ := exists_outcome name values
    rwa [ofParts_eq_of_outcome hresult]
  · exact ofParts_eq_of_outcome

theorem ofText_eq_missingSeparator_iff {shown : String} :
    ofText text = .error (.missingSeparator shown) ↔ '=' ∉ text.toList ∧ shown = text := by
  by_cases hmem : '=' ∈ text.toList
  · obtain ⟨name, values, hparts⟩ := exists_parts hmem
    rw [ofText_eq_iff hparts]
    refine ⟨fun h => ?_, fun h => absurd hmem h.1⟩
    cases h
  · have hread : ofText text = .error (.missingSeparator text) := by
      simp only [ofText, Text.cut?_eq_none_iff.2 hmem]
      rfl
    rw [hread]
    simp [hmem, eq_comm]

namespace Outcome

theorem unknownKind_iff {shown : String} : Outcome name values (.error (.unknownKind shown)) ↔
    (∀ kind : Kind, kind.name ≠ name) ∧ shown = name := by
  constructor
  · rintro ⟨⟩
    exact ⟨‹_›, rfl⟩
  · rintro ⟨h, rfl⟩
    exact .unknownKind h

theorem arity_iff {count : Nat} : Outcome name values (.error (.arity kind count)) ↔
    kind.name = name ∧ values.length ≠ kind.arity ∧ count = values.length := by
  constructor
  · rintro ⟨⟩
    exact ⟨‹_›, ‹_›, rfl⟩
  · rintro ⟨hkind, h, rfl⟩
    exact .arity hkind h

theorem invalidNumber_iff {cause : NumeralError} :
    Outcome name values (.error (.invalidNumber value cause)) ↔
      (∃ kind : Kind, kind.name = name ∧ values.length = kind.arity) ∧
      (∃ before after, values = before ++ value :: after ∧ (∀ v ∈ before, IsNumeral v) ∧
        ¬IsNumeral value) ∧
      cause = if value = "" then .empty else .malformed := by
  constructor
  · intro h
    cases h with
    | invalidNumber hkind hlength hvalues hbefore h =>
      exact ⟨⟨_, hkind, hlength⟩, ⟨_, _, hvalues, hbefore, h⟩, rfl⟩
  · rintro ⟨⟨kind, hkind, hlength⟩, ⟨before, after, hvalues, hbefore, h⟩, rfl⟩
    exact .invalidNumber hkind hlength hvalues hbefore h

theorem shape_iff {shape : Shape} : Outcome name values (.ok shape) ↔ shape.kind.name = name ∧
    List.Forall₂ (fun value x => Binary.ofText value = .ok x) values shape.dims := by
  constructor
  · rintro ⟨⟩
    exact ⟨‹_›, ‹_›⟩
  · rintro ⟨hkind, h⟩
    exact .shape hkind h

theorem exists_shape_iff : (∃ shape, Outcome name values (.ok shape)) ↔
    (∃ kind : Kind, kind.name = name ∧ values.length = kind.arity) ∧
      ∀ value ∈ values, IsNumeral value := by
  constructor
  · rintro ⟨shape, h⟩
    obtain ⟨hkind, h⟩ := shape_iff.1 h
    have hnumerals : ∀ value ∈ values, IsNumeral value := by
      refine ((List.forall₂_and_left _ _).1 (h.imp fun value x hx => ⟨?_, hx⟩)).1
      obtain ⟨negative, numeral, hsigned, -⟩ := Binary.ofText_eq_ok_iff.1 hx
      exact ⟨negative, numeral, hsigned⟩
    exact ⟨⟨shape.kind, hkind, h.length_eq.trans shape.length_dims⟩, hnumerals⟩
  · rintro ⟨⟨kind, hkind, hlength⟩, hnumerals⟩
    obtain ⟨dims, hdims⟩ := exists_dims hnumerals
    obtain ⟨shape, rfl, rfl⟩ := exists_shape (hdims.length_eq ▸ hlength)
    exact ⟨shape, .shape hkind hdims⟩

end Outcome

/-- Reading a text comes to a missing separator if and only if no `=` is in it. Otherwise the text
has a name and values, and reading comes to an unknown kind if and only if the name is that of none;
to a wrong number of values if and only if the kind is known and takes another number of them; to
the leftmost value that is no numeral if and only if there is one and their number is right; and to
the shape of the kind whose dimensions are the values as they are read, in order, if and only if all
of them are numerals. -/
theorem ofText_by_parts (text : String) :
    (∀ shown, ofText text = .error (.missingSeparator shown) ↔
      '=' ∉ text.toList ∧ shown = text) ∧
    ('=' ∈ text.toList → ∃ name values, Parts text name values) ∧
    ∀ name values, Parts text name values →
      (∀ shown, ofText text = .error (.unknownKind shown) ↔
        (∀ kind : Kind, kind.name ≠ name) ∧ shown = name) ∧
      (∀ kind count, ofText text = .error (.arity kind count) ↔
        kind.name = name ∧ values.length ≠ kind.arity ∧ count = values.length) ∧
      (∀ value cause, ofText text = .error (.invalidNumber value cause) ↔
        (∃ kind : Kind, kind.name = name ∧ values.length = kind.arity) ∧
        (∃ before after, values = before ++ value :: after ∧ (∀ v ∈ before, IsNumeral v) ∧
          ¬IsNumeral value) ∧
        cause = if value = "" then .empty else .malformed) ∧
      (∀ shape, ofText text = .ok shape ↔ shape.kind.name = name ∧
        List.Forall₂ (fun value x => Binary.ofText value = .ok x) values shape.dims) ∧
      ((∃ shape, ofText text = .ok shape) ↔
        (∃ kind : Kind, kind.name = name ∧ values.length = kind.arity) ∧
          ∀ value ∈ values, IsNumeral value) := by
  refine ⟨fun shown => ofText_eq_missingSeparator_iff, exists_parts, fun name values hparts => ?_⟩
  simp only [ofText_eq_iff hparts]
  exact ⟨fun _ => Outcome.unknownKind_iff, fun _ _ => Outcome.arity_iff,
    fun _ _ => Outcome.invalidNumber_iff, fun _ => Outcome.shape_iff, Outcome.exists_shape_iff⟩

/-- A second `=` belongs to the values, and the value with it is no numeral. -/
theorem ofText_by_parts_second_sign :
    '=' ∈ " Circle=\u00A01=1".toList ∧ Parts " Circle=\u00A01=1" "circle" ["1=1"] ∧
      ofText " Circle=\u00A01=1" = .error (.invalidNumber "1=1" .malformed) := by
  have hmem : '=' ∈ " Circle=\u00A01=1".toList := by decide
  have hparts : Parts " Circle=\u00A01=1" "circle" ["1=1"] := by
    have htext : " Circle=\u00A01=1".toList = " Circle".toList ++ '=' :: "\u00A01=1".toList := rfl
    have hvalue : Text.Trimmed "\u00A01=1".toList "1=1".toList := Text.trim_eq_iff.1 rfl
    refine .mk htext (by decide) (Text.trimmed_trim " Circle".toList) rfl ?_
    rw [← Text.pieces_eq_splitOn]
    exact .cons hvalue .nil
  obtain ⟨-, -, hall⟩ := ofText_by_parts " Circle=\u00A01=1"
  obtain ⟨-, -, hnumber, -⟩ := hall _ _ hparts
  refine ⟨hmem, hparts, (hnumber _ _).2 ⟨⟨.circle, rfl, rfl⟩, ⟨[], [], rfl, ?_, ?_⟩, rfl⟩⟩
  · exact fun v hv => absurd hv List.not_mem_nil
  · have hread : Binary.ofText (F := .single) "1=1" = .error .malformed := rfl
    exact (Binary.ofText_eq_error_iff.1 hread).1

end Shape

end Planimeter
