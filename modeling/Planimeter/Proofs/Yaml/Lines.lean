import Planimeter.Yaml.Token.Scan
import Planimeter.Yaml.Write
/-!
# Lines of text

What is written has line feeds and no other line breaks or control characters, so each line is laid
out character by character and the next one begins in the first column.
-/
namespace Planimeter.Yaml

/-- The character ends no line, and is no control character either. -/
structure IsInline (c : Char) : Prop where
  control : Write.isControl c = false
  separator : isSeparator c = false

namespace IsInline

variable {c : Char}

theorem ne_control (h : IsInline c) {d : Char} (hd : Write.isControl d) : c ≠ d := by
  rintro rfl
  rw [h.control] at hd
  contradiction

@[simp] theorem isLineEnd (h : IsInline c) : isLineEnd c = false := by
  simp only [Yaml.isLineEnd, Bool.or_eq_false_iff, beq_eq_false_iff_ne]
  exact ⟨⟨h.ne_control (by decide), h.ne_control (by decide)⟩, h.ne_control (by decide)⟩

@[simp] theorem isBreak (h : IsInline c) : isBreak c = false := by
  rw [Yaml.isBreak, h.isLineEnd, h.separator]
  rfl

@[simp] theorem isFinish (h : IsInline c) : isFinish c = false := by
  simpa [Yaml.isFinish] using h.ne_control (d := finish) (by decide)

@[simp] theorem isBlank (h : IsInline c) (hspace : c ≠ ' ') : isBlank c = false := by
  simpa [Yaml.isBlank, hspace] using h.ne_control (d := '\t') (by decide)

@[simp] theorem isGap (h : IsInline c) (hspace : c ≠ ' ') : isGap c = false := by
  rw [Yaml.isGap, h.isBlank hspace, h.isBreak, h.isFinish]
  rfl

end IsInline

/-- The character stands for itself where a document is laid out: of the control characters only
the line feed does. -/
def IsLaid (c : Char) : Prop := c = '\n' ∨ Write.isControl c = false

namespace IsLaid

variable {c : Char}

theorem of_isInline (h : IsInline c) : IsLaid c := .inr h.control

theorem ne_control (h : IsLaid c) {d : Char} (hd : Write.isControl d) (hfeed : d ≠ '\n') :
    c ≠ d := by
  rintro rfl
  rcases h with rfl | h
  · contradiction
  · rw [h] at hd
    contradiction

@[simp] theorem isFinish (h : IsLaid c) : isFinish c = false := by
  simpa [Yaml.isFinish] using h.ne_control (d := finish) (by decide) (by decide)

/-- What ends no line is no control character. -/
theorem isInline (h : IsLaid c) (hbreak : isBreak c = false) : IsInline c := by
  rw [isBreak, Bool.or_eq_false_iff] at hbreak
  refine ⟨?_, hbreak.2⟩
  rcases h with rfl | h
  · exact absurd hbreak.1 (by decide)
  · exact h

/-- What ends a line and is no line feed is a separator. -/
theorem isSeparator_iff (h : IsLaid c) (hfeed : c ≠ '\n') : isSeparator c = isBreak c := by
  have hreturn : c ≠ '\r' := h.ne_control (by decide) (by decide)
  have hnext : c ≠ '\u0085' := h.ne_control (by decide) (by decide)
  simp [isBreak, isLineEnd, hfeed, hreturn, hnext]

theorem isForbidden (h : IsLaid c) (hfirst : c ≠ '\ufffe') (hsecond : c ≠ '\uffff') :
    isForbidden c = false := by
  rcases h with rfl | hcontrol
  · decide
  · have hne {d : Char} (hd : c ≠ d) : c.toNat ≠ d.toNat := fun heq => hd (Char.toNat_inj.1 heq)
    have h1 : c.toNat ≠ 0xFFFE := hne hfirst
    have h2 : c.toNat ≠ 0xFFFF := hne hsecond
    simp only [Write.isControl, Bool.or_eq_false_iff, decide_eq_false_iff_not,
      Bool.and_eq_false_iff] at hcontrol
    simp only [Yaml.isForbidden, Bool.not_eq_false', Bool.or_eq_true, Bool.and_eq_true,
      decide_eq_true_eq, beq_iff_eq]
    omega

end IsLaid

/-- A character of ASCII that can be printed. -/
def IsPrintable (c : Char) : Prop := 0x20 ≤ c.toNat ∧ c.toNat ≤ 0x7E

instance (c : Char) : Decidable (IsPrintable c) := inferInstanceAs (Decidable (_ ∧ _))

theorem isPrintable_of_all {cs : List Char} (h : cs.all fun c => decide (IsPrintable c)) :
    ∀ c ∈ cs, IsPrintable c := by
  simpa using h

theorem IsPrintable.isInline {c : Char} (h : IsPrintable c) : IsInline c := by
  have hlow := h.1
  have hhigh := h.2
  have hne {d : Char} (hd : 0x7E < d.toNat) : c ≠ d := fun heq => by
    rw [heq] at hhigh
    omega
  constructor
  · simp only [Write.isControl, Bool.or_eq_false_iff, decide_eq_false_iff_not,
      Bool.and_eq_false_iff]
    omega
  · simp only [isSeparator, Bool.or_eq_false_iff, beq_eq_false_iff_ne]
    exact ⟨hne (by decide), hne (by decide)⟩

theorem isInline_space : IsInline ' ' := ⟨by decide, by decide⟩

theorem isInline_colon : IsInline ':' := ⟨by decide, by decide⟩

theorem isInline_quote : IsInline '\x22' := ⟨by decide, by decide⟩

theorem isPrintable_of_isName {c : Char} (h : isName c) : IsPrintable c := by
  simp only [isName, Bool.or_eq_true, beq_iff_eq] at h
  rcases h with (halphanum | rfl) | rfl
  · have hranges : ((decide ('A'.val ≤ c.val ∧ c.val ≤ 'Z'.val) ||
        ('a'.val ≤ c.val && c.val ≤ 'z'.val)) || ('0'.val ≤ c.val && c.val ≤ '9'.val)) = true :=
      halphanum
    simp only [Bool.or_eq_true, Bool.and_eq_true, decide_eq_true_eq,
      UInt32.le_iff_toNat_le] at hranges
    have hbounds : '0'.val.toNat = 48 ∧ '9'.val.toNat = 57 ∧ 'A'.val.toNat = 65 ∧
        'Z'.val.toNat = 90 ∧ 'a'.val.toNat = 97 ∧ 'z'.val.toNat = 122 :=
      ⟨rfl, rfl, rfl, rfl, rfl, rfl⟩
    change 0x20 ≤ c.val.toNat ∧ c.val.toNat ≤ 0x7E
    omega
  · exact ⟨by decide, by decide⟩
  · exact ⟨by decide, by decide⟩

theorem ne_of_isAlpha {c d : Char} (hc : c.isAlpha) (hd : d.isAlpha = false) : c ≠ d := by
  rintro rfl
  rw [hc] at hd
  contradiction

theorem isName_of_isAlpha {c : Char} (h : c.isAlpha) : isName c := by
  simp [isName, Char.isAlphanum, h]

namespace Mark

/-- The place behind a character that stands for itself. -/
def past (m : Mark) (c : Char) : Mark := if isBreak c then m.nextLine c.utf8Size else m.next c

theorem past_break {c : Char} (h : isBreak c) (m : Mark) : (m.past c).column = 0 := by
  rw [past, if_pos h]
  rfl

theorem past_inline {c : Char} (h : isBreak c = false) (m : Mark) : m.past c = m.next c := by
  rw [past, if_neg (by simp [h])]

/-- The place behind characters that end no line. -/
def after (m : Mark) (cs : List Char) : Mark := cs.foldl next m

@[simp] theorem next_column (m : Mark) (c : Char) : (m.next c).column = m.column + 1 := rfl

@[simp] theorem after_cons (m : Mark) (c : Char) (cs : List Char) :
    m.after (c :: cs) = (m.next c).after cs := rfl

@[simp] theorem after_append (m : Mark) (cs ds : List Char) :
    m.after (cs ++ ds) = (m.after cs).after ds :=
  List.foldl_append

@[simp] theorem after_line (m : Mark) (cs : List Char) : (m.after cs).line = m.line := by
  induction cs generalizing m with
  | nil => rfl
  | cons c cs ih => exact ih (m.next c)

@[simp] theorem after_column (m : Mark) (cs : List Char) :
    (m.after cs).column = m.column + cs.length := by
  induction cs generalizing m with
  | nil => rfl
  | cons c cs ih =>
    rw [List.length_cons, Nat.add_comm cs.length, ← Nat.add_assoc]
    exact ih (m.next c)

/-- A character takes at most four bytes. -/
theorem after_index_le (m : Mark) (cs : List Char) :
    (m.after cs).index ≤ m.index + 4 * cs.length := by
  induction cs generalizing m with
  | nil => exact Nat.le_refl _
  | cons c cs ih =>
    have hrest := ih (m.next c)
    have hc : c.utf8Size ≤ 4 := c.utf8Size_le_four
    simp only [next, List.length_cons] at hrest ⊢
    change ((m.next c).after cs).index ≤ _
    simp only [next]
    omega

/-- The place behind characters that stand for themselves. -/
def through (m : Mark) (cs : List Char) : Mark := cs.foldl past m

@[simp] theorem through_nil (m : Mark) : m.through [] = m := rfl

@[simp] theorem through_cons (m : Mark) (c : Char) (cs : List Char) :
    m.through (c :: cs) = (m.past c).through cs := rfl

@[simp] theorem through_append (m : Mark) (cs ds : List Char) :
    m.through (cs ++ ds) = (m.through cs).through ds :=
  List.foldl_append

theorem through_inline {cs : List Char} (h : ∀ c ∈ cs, isBreak c = false) (m : Mark) :
    m.through cs = m.after cs := by
  induction cs generalizing m with
  | nil => rfl
  | cons c cs ih =>
    obtain ⟨hc, hcs⟩ := List.forall_mem_cons.1 h
    rw [through_cons, after_cons, past_inline hc, ih hcs]

theorem line_le_past (m : Mark) (c : Char) : m.line ≤ (m.past c).line := by
  unfold past
  split
  · exact Nat.le_succ m.line
  · exact Nat.le_refl m.line

end Mark

namespace Source

variable {m : Mark} {c : Char} {cs ds : List Char}

@[simp] theorem front_cons (g : Glyph) (rest : Source) : front (g :: rest) = g.char := rfl

@[simp] theorem behind_cons (g : Glyph) (rest : Source) : behind (g :: rest) = rest := rfl

@[simp] theorem place_lineFeed (m : Mark) (cs : List Char) :
    place m ('\n' :: cs) = ⟨'\n', m⟩ :: place (m.nextLine 1) cs := rfl

@[simp] theorem place_inline (hc : IsInline c) (m : Mark) (cs : List Char) :
    place m (c :: cs) = ⟨c, m⟩ :: place (m.next c) cs := by
  rw [place, hc.isLineEnd, hc.separator]
  · rfl
  · intro cs' h
    exact absurd h (hc.ne_control (by decide))

theorem place_laid (hc : IsLaid c) (m : Mark) (cs : List Char) :
    place m (c :: cs) = ⟨c, m⟩ :: place (m.past c) cs := by
  by_cases hfeed : c = '\n'
  · subst hfeed
    rfl
  · have hseparator := hc.isSeparator_iff hfeed
    have hreturn : c ≠ '\r' := hc.ne_control (by decide) (by decide)
    have hend : isLineEnd c = false := by
      simp [isLineEnd, hfeed, hreturn, hc.ne_control (d := '\u0085') (by decide) (by decide)]
    rw [place, hend, hseparator, Mark.past]
    · by_cases hbreak : isBreak c <;> simp [hbreak]
    · intro cs' h
      exact absurd h hreturn

/-- Characters that stand for themselves in their places. -/
def laid (m : Mark) : List Char → Source
  | [] => []
  | c :: cs => ⟨c, m⟩ :: laid (m.past c) cs

theorem place_append (hcs : ∀ c ∈ cs, IsLaid c) (m : Mark) (ds : List Char) :
    place m (cs ++ ds) = laid m cs ++ place (m.through cs) ds := by
  induction cs generalizing m with
  | nil => rfl
  | cons c cs ih =>
    obtain ⟨hc, hcs⟩ := List.forall_mem_cons.1 hcs
    rw [List.cons_append, place_laid hc, ih hcs]
    rfl

@[simp] theorem laid_append (m : Mark) (cs ds : List Char) :
    laid m (cs ++ ds) = laid m cs ++ laid (m.through cs) ds := by
  induction cs generalizing m with
  | nil => rfl
  | cons c cs ih => exact congrArg (⟨c, m⟩ :: ·) (ih (m.past c))

@[simp] theorem chars_laid (m : Mark) (cs : List Char) : (laid m cs).map Glyph.char = cs := by
  induction cs generalizing m with
  | nil => rfl
  | cons c cs ih => exact congrArg (c :: ·) (ih (m.past c))

theorem char_of_mem_laid {g : Glyph} (h : g ∈ laid m cs) : g.char ∈ cs := by
  rw [← chars_laid m cs]
  exact List.mem_map_of_mem h

/-- Characters that end their last line stand on the lines before. -/
theorem line_of_mem_laid (hlast : ∀ c ∈ cs.getLast?, isBreak c) {g : Glyph} (h : g ∈ laid m cs) :
    g.mark.line < (m.through cs).line := by
  induction cs generalizing m g with
  | nil => exact absurd h List.not_mem_nil
  | cons c cs ih =>
    have hrest {g : Glyph} (hg : g ∈ laid (m.past c) cs) :
        g.mark.line < (m.through (c :: cs)).line := by
      refine ih (fun d hd => hlast d ?_) hg
      obtain ⟨front, rfl⟩ := List.getLast?_eq_some_iff.1 hd
      rw [← List.cons_append, List.getLast?_concat]
      rfl
    rcases List.mem_cons.1 h with rfl | hg
    · cases cs with
      | nil =>
        have hbreak : isBreak c := hlast c rfl
        rw [Mark.through_cons, Mark.past, if_pos hbreak]
        exact Nat.lt_succ_self m.line
      | cons d cs =>
        exact Nat.lt_of_le_of_lt (m.line_le_past c) (hrest List.mem_cons_self)
    · exact hrest hg

/-- Every text begins with a character at its place, be it the one that marks its end. -/
theorem exists_place_eq (m : Mark) (cs : List Char) : ∃ c rest, place m cs = ⟨c, m⟩ :: rest := by
  unfold place
  split
  · exact ⟨_, _, rfl⟩
  · exact ⟨_, _, rfl⟩
  · split
    · exact ⟨_, _, rfl⟩
    · split <;> exact ⟨_, _, rfl⟩

theorem place_ne_nil (m : Mark) (cs : List Char) : place m cs ≠ [] := by
  obtain ⟨c, rest, hplace⟩ := exists_place_eq m cs
  simp [hplace]

@[simp] theorem mark_place (m : Mark) (cs : List Char) : (place m cs).mark = m := by
  obtain ⟨c, rest, hplace⟩ := exists_place_eq m cs
  rw [hplace]
  rfl

end Source

/-- The character begins a token: nothing that stands between tokens begins with it. -/
structure BeginsToken (c : Char) : Prop where
  isBlank : isBlank c = false
  isBreak : isBreak c = false
  ne_comment : c ≠ '#'
  ne_order : c ≠ '\ufeff'

attribute [simp] BeginsToken.isBlank BeginsToken.isBreak

namespace BeginsToken

variable {c : Char}

theorem ne_space (h : BeginsToken c) : c ≠ ' ' := by
  rintro rfl
  exact absurd h.isBlank (by decide)

theorem ne_tab (h : BeginsToken c) : c ≠ '\t' := by
  rintro rfl
  exact absurd h.isBlank (by decide)

theorem of_isAlpha (h : c.isAlpha) : BeginsToken c := by
  have hinline := (isPrintable_of_isName (isName_of_isAlpha h)).isInline
  exact ⟨hinline.isBlank (ne_of_isAlpha h rfl), hinline.isBreak, ne_of_isAlpha h rfl,
    ne_of_isAlpha h rfl⟩

end BeginsToken

/-- The text goes on with a name, or ends. -/
def GoesOn (cs : List Char) : Prop := ∀ c ∈ cs.head?, c.isAlpha

instance (cs : List Char) : Decidable (GoesOn cs) :=
  decidable_of_iff (cs.head?.all Char.isAlpha = true) (by simp [GoesOn, Option.all_eq_true])

/-- The place at the end of the indentation of the next line. -/
def Mark.below (m : Mark) (indent : Nat) : Mark :=
  (m.nextLine 1).after (List.replicate indent ' ')

@[simp] theorem Mark.below_column (m : Mark) (indent : Nat) : (m.below indent).column = indent := by
  simp [below, nextLine]

theorem GoesOn.exists_glyph {cs : List Char} (h : GoesOn cs) (m : Mark) :
    ∃ c rest, Source.place m cs = ⟨c, m⟩ :: rest ∧ BeginsToken c := by
  cases cs with
  | nil => exact ⟨finish, [], rfl, by constructor <;> decide⟩
  | cons c cs =>
    have hc : c.isAlpha := h c rfl
    have hinline := (isPrintable_of_isName (isName_of_isAlpha hc)).isInline
    exact ⟨c, _, Source.place_inline hinline m cs, .of_isAlpha hc⟩

namespace Scan

variable {keyAllowed : Bool} {m : Mark} {c : Char} {cs : List Char}

@[simp] theorem skip_token {source : Source} (h : BeginsToken c) :
    skip false false keyAllowed (⟨c, m⟩ :: source) = (keyAllowed, ⟨c, m⟩ :: source) := by
  simp [skip, h, h.ne_comment, h.ne_order, h.ne_space, h.ne_tab]

@[simp] theorem skip_goesOn (h : GoesOn cs) :
    skip false false keyAllowed (Source.place m cs) = (keyAllowed, Source.place m cs) := by
  obtain ⟨c, rest, hplace, hc⟩ := h.exists_glyph m
  rw [hplace, skip_token hc]

@[simp] theorem skip_spaces (n : Nat) :
    skip false false keyAllowed (Source.place m (List.replicate n ' ' ++ cs)) =
      skip false false keyAllowed (Source.place (m.after (List.replicate n ' ')) cs) := by
  induction n generalizing m with
  | zero => rfl
  | succ n ih => exact ih

/-- At the end of a line the next token is a key of the next line. -/
theorem skip_line (h : GoesOn cs) (indent : Nat) :
    skip false false keyAllowed (Source.place m ('\n' :: (List.replicate indent ' ' ++ cs))) =
      (true, Source.place (m.below indent) cs) := by
  have hbreak : isBreak '\n' = true := rfl
  rw [Source.place_lineFeed, skip, if_pos hbreak, Bool.not_false, Bool.or_true, skip_spaces]
  exact skip_goesOn h

end Scan

end Planimeter.Yaml
