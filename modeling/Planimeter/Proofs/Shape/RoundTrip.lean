import Planimeter.Shape.Text
import Planimeter.Proofs.Binary.RoundTrip
/-!
# Reading the text of a shape back

The separators of the text form, `=` and `,`, and blanks occur in no kind and in no dimension, so
cutting a text at them gives back the pieces that it was joined from. The main statement is that
reading the text of a shape gives the shape back with its dimensions bit for bit, all NaNs made one.
-/
namespace Planimeter

namespace Text

variable {separator : Char} {piece : List Char}

@[simp] theorem cut?_append (after : List Char) (h : separator ∉ piece) :
    cut? separator (piece ++ separator :: after) = some (piece, after) := by
  induction piece with
  | nil => simp [cut?]
  | cons c cs ih =>
    simp only [List.mem_cons, not_or] at h
    simp only [List.cons_append, cut?, if_neg (Ne.symm h.1), ih h.2, Option.map_some]

@[simp] theorem pieces_of_not_mem (h : separator ∉ piece) : pieces separator piece = [piece] := by
  induction piece with
  | nil => rfl
  | cons c cs ih =>
    simp only [List.mem_cons, not_or] at h
    simp only [pieces, if_neg (Ne.symm h.1), ih h.2]

@[simp] theorem pieces_append (after : List Char) (h : separator ∉ piece) :
    pieces separator (piece ++ separator :: after) = piece :: pieces separator after := by
  induction piece with
  | nil => simp [pieces]
  | cons c cs ih =>
    simp only [List.mem_cons, not_or] at h
    simp only [List.cons_append, pieces, if_neg (Ne.symm h.1), ih h.2]

theorem pieces_intercalate {joined : List (List Char)} (hne : joined ≠ [])
    (h : ∀ piece ∈ joined, separator ∉ piece) :
    pieces separator ([separator].intercalate joined) = joined := by
  induction joined with
  | nil => contradiction
  | cons first rest ih =>
    rw [List.forall_mem_cons] at h
    by_cases hrest : rest = []
    · rw [hrest, List.intercalate_singleton, pieces_of_not_mem h.1]
    · have hcut : [separator].intercalate (first :: rest) =
          first ++ separator :: [separator].intercalate rest := by
        simp [List.intercalate_cons_of_ne_nil hrest]
      rw [hcut, pieces_append _ h.1, ih hrest h.2]

theorem trim_eq_self (h : ∀ c ∈ piece, isBlank c = false) : trim piece = piece := by
  have hdrop {cs : List Char} (hcs : ∀ c ∈ cs, isBlank c = false) : cs.dropWhile isBlank = cs := by
    cases cs with
    | nil => rfl
    | cons c cs => rw [List.dropWhile_cons_of_neg (by simp [hcs c List.mem_cons_self])]
  simp only [trim, trimBy]
  rw [hdrop h, hdrop (by simpa using h), List.reverse_reverse]

theorem isBlank_of_isDigit {c : Char} (h : c.isDigit) : isBlank c = false := by
  simp only [Char.isDigit, Bool.and_eq_true, decide_eq_true_eq] at h
  have hlow : 48 ≤ c.toNat := h.1
  have hhigh : c.toNat ≤ 57 := h.2
  simp [isBlank]
  omega

end Text

namespace Shape

theorem isBlank_of_mem_text {x : Binary32} {c : Char} (h : c ∈ x.text.toList) :
    Text.isBlank c = false := by
  rcases Binary.mem_text h with h | h
  · exact Text.isBlank_of_isDigit h
  · have hall : ['.', '-', 'N', 'a', 'i', 'n', 'f'].all (fun c => !Text.isBlank c) = true := by rfl
    simpa using List.all_eq_true.1 hall c h

@[simp] theorem readDim_text (x : Binary32) : readDim x.text.toList = .ok x.canonical := by
  rw [readDim, String.ofList_toList, Binary.ofText_text (by decide)]
  rfl

@[simp] theorem mapM_readDim (dims : List Binary32) :
    (dims.map fun x => x.text.toList).mapM readDim = .ok (dims.map Binary.canonical) := by
  induction dims with
  | nil => rfl
  | cons x dims ih =>
    rw [List.map_cons, List.mapM_cons, readDim_text, ih]
    rfl

theorem dims_ne_nil (s : Shape) : s.dims ≠ [] := by
  cases s <;> simp [dims]

theorem dims_map (f : Binary32 → Binary32) (s : Shape) : (s.map f).dims = s.dims.map f := by
  cases s <;> rfl

@[simp] theorem kind_map (f : Binary32 → Binary32) (s : Shape) : (s.map f).kind = s.kind := by
  cases s <;> rfl

/-- The characters of a text: the kind, the separator, and the dimensions between commas. -/
@[simp] theorem toList_text (s : Shape) : s.text.toList =
    s.kind.name.toList ++ '=' :: [','].intercalate (s.dims.map fun x => x.text.toList) := by
  simp [text, String.toList_append, String.toList_intercalate, Function.comp_def]

@[simp] theorem cut?_text (s : Shape) : Text.cut? '=' s.text.toList =
    some (s.kind.name.toList, [','].intercalate (s.dims.map fun x => x.text.toList)) := by
  have hname : '=' ∉ s.kind.name.toList := by cases s.kind <;> decide
  rw [toList_text, Text.cut?_append _ hname]

@[simp] theorem pieces_dims (s : Shape) :
    (Text.pieces ',' ([','].intercalate (s.dims.map fun x => x.text.toList))).map Text.trim =
      s.dims.map fun x => x.text.toList := by
  rw [Text.pieces_intercalate (by simpa using s.dims_ne_nil)]
  · rw [List.map_map]
    exact List.map_congr_left fun x _ => Text.trim_eq_self fun c hc => isBlank_of_mem_text hc
  · intro piece hpiece
    obtain ⟨x, -, rfl⟩ := List.mem_map.1 hpiece
    exact Binary.not_mem_text (by decide) (by decide)

/-- The name of a kind is found again, trimmed and in lower case as it is. -/
@[simp] theorem ofName?_name (k : Kind) :
    Kind.ofName? (Text.lower (String.ofList (Text.trim k.name.toList))) = some k := by
  cases k <;> decide

theorem ofText_shapeText (s : Shape) : ofText s.text = .ok (s.map Binary.canonical) := by
  have hlength : (s.dims.map fun x => x.text.toList).length = s.kind.arity := by simp
  have hdims : ofDims? s.kind (s.dims.map Binary.canonical) = some (s.map Binary.canonical) := by
    rw [← dims_map, ← kind_map Binary.canonical, ofDims?_dims]
  simp only [ofText, cut?_text, ofName?_name, pieces_dims, hlength, mapM_readDim]
  simp [bind, Except.bind, pure, Except.pure, hdims]

/-- Reading the text of a message that has a shape gives the shape back, bit for bit save that all
NaNs become one, and what stands before the first `=` is the name of its kind. The text of a message
without a shape is refused. -/
theorem text_reads_back :
    (∀ s : Shape, ofText (textOrUnrecognized (some s)) = .ok (s.map Binary.canonical) ∧
      (Text.cut? '=' (textOrUnrecognized (some s)).toList).map Prod.fst =
        some s.kind.name.toList) ∧
    ofText (textOrUnrecognized none) = .error (.missingSeparator "<unrecognized>") := by
  refine ⟨fun s => ⟨ofText_shapeText s, ?_⟩, ?_⟩
  · rw [textOrUnrecognized, cut?_text, Option.map_some]
  · rfl

end Shape

end Planimeter
