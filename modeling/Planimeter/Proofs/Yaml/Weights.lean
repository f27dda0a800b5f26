import Planimeter.Proofs.Yaml.Passing
/-!
# How much text a token takes

Characters are given weights, and reading never adds to the weight of a text: what the scalars read
so far weigh, and what is left of the text, is at most what the text weighed. The separators of
lines, and whatever a quoted scalar can spell one with, are heavy, so that of two heavy scalars a
text can hold only as many as it has the weight for.
-/
namespace Planimeter.Yaml

/-- What the elements of a list weigh, such as the characters of a text. -/
def total {α : Type} (w : α → Nat) : List α → Nat
  | [] => 0
  | a :: as => w a + total w as

def Source.total (w : Char → Nat) (s : Source) : Nat := Yaml.total w (s.map Glyph.char)

section

variable {α : Type} {w : α → Nat} {as bs : List α}

@[simp] theorem total_nil : total w [] = 0 := rfl

@[simp] theorem total_cons (a : α) (as : List α) : total w (a :: as) = w a + total w as := rfl

@[simp] theorem total_append (as bs : List α) : total w (as ++ bs) = total w as + total w bs := by
  induction as with
  | nil => simp
  | cons a as ih => simp [ih, Nat.add_assoc]

@[simp] theorem total_reverse (as : List α) : total w as.reverse = total w as := by
  induction as with
  | nil => rfl
  | cons a as ih => simp [ih, Nat.add_comm]

theorem total_eq_length {n : Nat} (h : ∀ a ∈ as, w a = n) : total w as = as.length * n := by
  induction as with
  | nil => simp
  | cons a as ih =>
    obtain ⟨ha, has⟩ := List.forall_mem_cons.1 h
    rw [total_cons, ha, ih has, List.length_cons, Nat.succ_mul, Nat.add_comm]

@[simp] theorem total_replicate (n : Nat) (a : α) : total w (List.replicate n a) = n * w a := by
  rw [total_eq_length fun b hb => congrArg w (List.eq_of_mem_replicate hb), List.length_replicate]

theorem total_of_perm (h : as.Perm bs) : total w as = total w bs := by
  induction h with
  | nil => rfl
  | cons a _ ih => rw [total_cons, total_cons, ih]
  | swap a b as => simp only [total_cons, Nat.add_left_comm]
  | trans _ _ ih ih' => rw [ih, ih']

theorem total_of_sublist (h : as.Sublist bs) : total w as ≤ total w bs := by
  induction h with
  | slnil => exact Nat.le_refl 0
  | cons a _ ih => exact Nat.le_add_left_of_le ih
  | cons_cons a _ ih => exact Nat.add_le_add_left ih (w a)

theorem total_of_suffix (h : as <:+ bs) : total w as ≤ total w bs := total_of_sublist h.sublist

theorem le_total {a : α} (h : a ∈ as) : w a ≤ total w as := by
  simpa using total_of_sublist (List.singleton_sublist.2 h)

end

section

variable {w : Char → Nat}

namespace Source

variable {s rest : Source}

@[simp] theorem total_nil : total w [] = 0 := rfl

@[simp] theorem total_cons (g : Glyph) (rest : Source) :
    total w (g :: rest) = w g.char + total w rest := rfl

@[simp] theorem total_append (s rest : Source) :
    total w (s ++ rest) = total w s + total w rest := by
  simp [total]

@[simp] theorem total_laid (m : Mark) (cs : List Char) :
    (laid m cs).total w = Yaml.total w cs := by
  rw [total, chars_laid]

/-- Laying out a text adds no weight if the marks and line ends have none. -/
theorem total_place (hend : ∀ c, isLineEnd c → w c = 0) (hfinish : w finish = 0) (m : Mark)
    (cs : List Char) : (place m cs).total w = Yaml.total w cs := by
  fun_induction place m cs with
  | case1 m => simpa [total] using hfinish
  | case2 m cs ih => simp [ih, hend '\n' rfl, hend '\r' rfl]
  | case3 m c cs hpair hc ih => simp [ih, hend c hc, hend '\n' rfl]
  | case4 m c cs hpair hc hseparator ih => simp [ih]
  | case5 m c cs hpair hc hseparator ih => simp [ih]

theorem total_of_suffix (h : rest <:+ s) : rest.total w ≤ s.total w :=
  Yaml.total_of_suffix (h.map Glyph.char)

end Source

end

/-- Counts the separators of lines. -/
def separatorWeight (c : Char) : Nat := if isSeparator c then 1 else 0

theorem total_separatorWeight {cs : List Char} :
    total separatorWeight cs = 0 ↔ ∀ c ∈ cs, isSeparator c = false := by
  induction cs with
  | nil => simp
  | cons c cs ih => simp [ih, separatorWeight]

/-- Laying out a text makes no separators. -/
@[simp] theorem Source.total_separatorWeight_place (m : Mark) (cs : List Char) :
    (place m cs).total separatorWeight = Yaml.total separatorWeight cs := by
  refine total_place (fun c hc => ?_) rfl m cs
  simp only [isLineEnd, Bool.or_eq_true, beq_iff_eq] at hc
  rcases hc with (rfl | rfl) | rfl <;> rfl

theorem Source.separator_place {cs : List Char} (h : ∀ c ∈ cs, isSeparator c = false) (m : Mark) :
    ∀ g ∈ place m cs, isSeparator g.char = false := by
  have htotal := (total_separatorWeight_place m cs).trans (total_separatorWeight.2 h)
  simpa using total_separatorWeight.1 htotal

/-- What is read weighs no more than the part of the text that it was read from. -/
abbrev Takes {α : Type} (w : Char → Nat) (weight : α → Nat) (held : Nat) (s : Source)
    (r : Except SyntaxError (α × Source)) : Prop :=
  Yields (fun r => weight r.1 + r.2.total w ≤ held + s.total w) r

/-- What is read of a later part is read of the text. -/
theorem Takes.of_le {α : Type} {w : Char → Nat} {weight : α → Nat} {held held' : Nat}
    {s s' : Source} {r : Except SyntaxError (α × Source)} (h : Takes w weight held s r)
    (hle : held + s.total w ≤ held' + s'.total w) : Takes w weight held' s' r :=
  Yields.mono h fun _ hr => Nat.le_trans hr hle

section

variable {w : Char → Nat}

namespace Gap

/-- What a gap stands for is made of these. -/
def chars : Gap → List Char
  | blanks run => run
  | folded breaks => breaks
  | joined breaks => breaks

theorem total_foldBreaks (hspace : w ' ' = 0) (breaks : List Char) :
    total w (foldBreaks breaks) ≤ total w breaks := by
  unfold foldBreaks
  split <;> simp [hspace]

theorem total_text (hspace : w ' ' = 0) (gap : Gap) : total w gap.text ≤ total w gap.chars := by
  cases gap with
  | blanks run => simp [text, chars]
  | folded breaks => simpa [text, chars] using total_foldBreaks hspace breaks.reverse
  | joined breaks => simp [text, chars]

theorem total_addBlank (gap : Gap) (c : Char) :
    total w (gap.addBlank c).chars ≤ total w gap.chars + w c := by
  cases gap <;> simp [addBlank, chars, Nat.add_comm]

theorem total_addBreak (gap : Gap) (c : Char) :
    total w (gap.addBreak c).chars ≤ total w gap.chars + w c := by
  cases gap <;> simp [addBreak, chars, Nat.add_comm]

end Gap

namespace PlainScalar

/-- What a gap is made of, if there is one. -/
def gapChars (gap : Option Gap) : List Char := (gap.map Gap.chars).getD []

theorem total_gap (hspace : w ' ' = 0) (gap : Option Gap) :
    total w ((gap.map Gap.text).getD []) ≤ total w (gapChars gap) := by
  cases gap with
  | none => exact Nat.le_refl 0
  | some gap => exact gap.total_text hspace

theorem total_addBlank (gap : Option Gap) (c : Char) :
    total w (gapChars (some ((gap.getD (.blanks [])).addBlank c))) ≤
      total w (gapChars gap) + w c := by
  cases gap with
  | none => exact Gap.total_addBlank (.blanks []) c
  | some gap => exact gap.total_addBlank c

theorem total_addBreak (gap : Option Gap) (c : Char) :
    total w (gapChars (some ((gap.getD (.blanks [])).addBreak c))) ≤
      total w (gapChars gap) + w c := by
  cases gap with
  | none => exact Gap.total_addBreak (.blanks []) c
  | some gap => exact gap.total_addBreak c

theorem takes_scan (hspace : w ' ' = 0) (ctx : PlainContext) (gap : Option Gap) (text : List Char)
    (s : Source) :
    Takes w (total w ·.text) (total w text + total w (gapChars gap)) s (scan ctx gap text s) := by
  induction s generalizing gap text with
  | nil => exact Yields.ok (by simp)
  | cons g rest ih =>
    have hblank := total_addBlank (w := w) gap g.char
    have hbreak := total_addBreak (w := w) gap g.char
    have hgap := total_gap hspace gap
    have hend : Takes w (total w ·.text) (total w text + total w (gapChars gap)) (g :: rest)
        (.ok (ofReversed gap text, g :: rest)) := Yields.ok (by simp [ofReversed])
    rw [scan]
    dsimp only
    refine Yields.ite (fun _ => ?_) fun _ => Yields.ite (fun _ => ?_) fun _ => ?_
    · refine Yields.ite (fun _ => yields_failAt) fun _ => (ih _ _).of_le ?_
      rw [Source.total_cons]
      omega
    · refine (ih _ _).of_le ?_
      rw [Source.total_cons]
      omega
    · refine Yields.ite (fun _ => hend) fun _ => Yields.ite (fun _ => yields_failAt) fun _ =>
        Yields.ite (fun _ => hend) fun _ => (ih none _).of_le ?_
      have hnone : total w (gapChars none) = 0 := rfl
      rw [Source.total_cons, hnone, total_cons, total_append, total_reverse]
      omega

end PlainScalar

namespace BlockScalar

theorem takes_leadingBreaks (start : Mark) (breaks : List Char) (longest : Nat) (s : Source) :
    Takes w (fun r : List Char × Nat => total w r.1) (total w breaks) s
      (leadingBreaks start breaks longest s) := by
  induction s generalizing breaks longest with
  | nil => exact Yields.ok (by simp)
  | cons g rest ih =>
    rw [leadingBreaks]
    dsimp only
    refine Yields.ite (fun _ => (ih _ _).of_le ?_) fun _ => Yields.ite (fun _ => yields_failAt)
      fun _ => Yields.ite (fun _ => (ih _ _).of_le ?_) fun _ => Yields.ok (by simp)
    · rw [Source.total_cons]
      omega
    · rw [Source.total_cons, total_cons]
      omega

/-- What has been read and is not in the text yet. -/
def Stage.chars : Stage → List Char
  | .line _ => []
  | .pause p => p.ending ++ p.empty

theorem Pause.total_text (hspace : w ' ' = 0) (layout : Layout) (first : Char) (p : Pause) :
    total w (p.text layout first) ≤ total w (Stage.pause p).chars := by
  unfold Pause.text
  dsimp only
  split
  · split
    · simp [hspace]
    · simp [Stage.chars]
  · simp [Stage.chars]

theorem Pause.total_chomp (chomping : Chomping) (p : Pause) :
    total w (p.chomp chomping) ≤ total w (Stage.pause p).chars := by
  cases chomping <;> simp [Pause.chomp, Stage.chars]

theorem takes_scan (hspace : w ' ' = 0) (r : Rules) (stage : Stage) (text : List Char)
    (s : Source) :
    Takes w (total w) (total w text + total w stage.chars) s (scan r stage text s) := by
  induction s generalizing stage text with
  | nil => cases stage <;> exact Yields.ok (by simp)
  | cons g rest ih =>
    cases stage with
    | line blank =>
      rw [scan]
      refine Yields.ite (fun _ => Yields.ok (by simp)) fun _ =>
        Yields.ite (fun _ => (ih _ text).of_le ?_) fun _ => (ih _ _).of_le ?_
      all_goals
        simp [Stage.chars]
        omega
    | pause p =>
      have hchomp := p.total_chomp (w := w) r.chomping
      have htext := p.total_text hspace r.layout g.char
      rw [scan]
      refine Yields.ite (fun _ => (ih _ text).of_le ?_) fun _ =>
        Yields.ite (fun _ => yields_failAt) fun _ => Yields.ite (fun _ => (ih _ text).of_le ?_)
          fun _ => Yields.ite (fun _ => (ih _ _).of_le ?_) fun _ => Yields.ok ?_
      · rw [Source.total_cons]
        omega
      · simp [Stage.chars]
        omega
      · have hline : (Stage.line (isBlank g.char)).chars = [] := rfl
        rw [Source.total_cons, hline, total_cons, total_append, total_reverse, total_nil]
        omega
      · dsimp only
        rw [total_append, total_reverse]
        omega

theorem takes_read (hspace : w ' ' = 0) (layout : Layout) (parent : Option Nat) (s : Source) :
    Takes w (total w) 0 s (read layout parent s) := by
  refine Yields.bind (endsLine_header s.mark s.behind) fun (header, s₁) hs₁ => ?_
  have hle := Source.total_of_suffix (w := w) (hs₁.suffix.trans s.behind_suffix)
  dsimp only at hle ⊢
  split
  · refine (takes_scan hspace _ _ [] s₁).of_le ?_
    simpa [Stage.chars] using hle
  · refine Yields.bind (takes_leadingBreaks (w := w) s.mark [] 0 s₁)
      fun ((empty, longest), s₂) hs₂ => ?_
    refine (takes_scan hspace _ _ [] s₂).of_le ?_
    simp [Stage.chars] at hs₂ ⊢
    omega

end BlockScalar

end

/-- A line feed counts less than any other character, so that a text also gets smaller where a line
feed takes the place of a blank. -/
def charSize (c : Char) : Nat := if c = '\n' then 1 else 2

theorem charSize_pos (c : Char) : 0 < charSize c := by
  unfold charSize
  split <;> omega

@[simp] theorem charSize_lineFeed : charSize '\n' = 1 := rfl

@[simp] theorem charSize_space : charSize ' ' = 2 := rfl

theorem charSize_of_ne {c : Char} (h : c ≠ '\n') : charSize c = 2 := if_neg h

theorem total_charSize_pos {cs : List Char} (h : cs ≠ []) : 0 < total charSize cs := by
  obtain ⟨c, cs, rfl⟩ := List.exists_cons_of_ne_nil h
  have hc := charSize_pos c
  rw [total_cons]
  omega

/-- The letters that a character is written with which an escape gives by a number or by a name. -/
def isSpelling (c : Char) : Bool := c == 'L' || c == 'P' || c == 'U' || c == 'u' || c == 'x'

/-- What a character weighs: a quote little, and much if it is written with such a letter. -/
def charWeight (c : Char) : Nat :=
  if (Write.escape c).any isSpelling then 3 else if c == '\x22' || c == '\x27' then 1 else 0

theorem charWeight_le (c : Char) : charWeight c ≤ 3 := by
  unfold charWeight
  split
  · exact Nat.le_refl 3
  · split <;> omega

theorem charWeight_of_isSeparator {c : Char} (h : isSeparator c) : charWeight c = 3 := by
  simp only [isSeparator, Bool.or_eq_true, beq_iff_eq] at h
  rcases h with rfl | rfl <;> rfl

namespace QuotedScalar

/-- What an escape stands for weighs no more than the letter it is named by. -/
theorem charWeight_escaped {c d : Char} (h : escaped? c = some d) :
    charWeight d ≤ charWeight c := by
  unfold escaped? at h
  split at h <;> first
    | contradiction
    | (obtain rfl := Option.some.inj h; decide)

theorem charWeight_hexWidth {c : Char} {n : Nat} (h : hexWidth? c = some n) : charWeight c = 3 := by
  unfold hexWidth? at h
  split at h <;> first
    | contradiction
    | rfl

/-- What has been read and is not in the text yet. -/
def Stage.weight : Stage → Nat
  | .gap g => total charWeight g.chars
  | .quote => 1
  | .codePoint _ _ _ => 3
  | _ => 0

theorem charWeight_quote (quote : Quote) : charWeight quote.char = 1 := by
  cases quote <;> rfl

theorem weight_wordStage {quote : Quote} {g : Glyph} {stage : Stage}
    (h : wordStage quote g = some stage) : stage.weight ≤ charWeight g.char := by
  unfold wordStage at h
  split at h
  · next hquote =>
    obtain rfl := Option.some.inj h
    simp [Stage.weight, hquote, charWeight_quote]
  · split at h
    · obtain rfl := Option.some.inj h
      exact Nat.zero_le _
    · split at h
      · obtain rfl := Option.some.inj h
        simp [Stage.weight, Gap.chars]
      · split at h
        · obtain rfl := Option.some.inj h
          simp [Stage.weight, Gap.chars]
        · contradiction

/-- What is read of a quoted scalar; the closing quote is no part of the text. -/
abbrev TakesQuoted (held : Nat) (s : Source) (r : Except SyntaxError (List Char × Source)) : Prop :=
  Takes charWeight (fun text => total charWeight text + 1) held s r

theorem takes_scanWord {quote : Quote} {start : Mark} {rest : Source}
    (hrest : ∀ stage text, TakesQuoted (total charWeight text + stage.weight) rest
      (scan quote start stage text rest)) (g : Glyph) (text : List Char) :
    TakesQuoted (total charWeight text) (g :: rest) (scanWord quote start text g rest) := by
  refine Yields.ite (fun _ => yields_failAt) fun _ => ?_
  split
  · next hquote =>
    have hweight : charWeight g.char = 1 := by
      rw [wordStage_quote hquote, charWeight_quote]
    refine Yields.ite (fun _ => Yields.ok ?_) fun _ => (hrest .quote text).of_le ?_
    · simp [hweight]
      omega
    · rw [Source.total_cons, hweight]
      simp [Stage.weight]
      omega
  · next stage _ hstage =>
    have hweight := weight_wordStage hstage
    refine (hrest stage text).of_le ?_
    rw [Source.total_cons]
    omega
  · refine (hrest .word _).of_le ?_
    simp [Stage.weight]
    omega

theorem takes_scan (quote : Quote) (start : Mark) (stage : Stage) (text : List Char) (s : Source) :
    TakesQuoted (total charWeight text + stage.weight) s (scan quote start stage text s) := by
  induction s generalizing stage text with
  | nil => cases stage <;> exact yields_failAt
  | cons g rest ih =>
    have hword := takes_scanWord ih g
    cases stage with
    | word => exact hword text
    | gap gap =>
      have hblank := gap.total_addBlank (w := charWeight) g.char
      have hbreak := gap.total_addBreak (w := charWeight) g.char
      have hgap := gap.total_text (w := charWeight) rfl
      rw [scan]
      dsimp only
      refine Yields.ite (fun _ => (ih _ text).of_le ?_) fun _ =>
        Yields.ite (fun _ => (ih _ text).of_le ?_) fun _ =>
          Yields.ite (fun _ => yields_failAt) fun _ => (hword _).of_le ?_
      · simp only [Stage.weight, Source.total_cons]
        omega
      · simp only [Stage.weight, Source.total_cons]
        omega
      · simp only [Stage.weight, total_append, total_reverse]
        omega
    | quote =>
      rw [scan]
      refine Yields.ite (fun hquote => (ih .word _).of_le ?_) fun _ => Yields.ok ?_
      · simp [Stage.weight]
        omega
      · simp [Stage.weight]
    | escape backslash =>
      rw [scan]
      refine Yields.ite (fun _ => (ih _ text).of_le ?_) fun _ => ?_
      · simp [Stage.weight, Gap.chars]
      · split
        · next c hc =>
          have hweight := charWeight_escaped hc
          refine (ih .word _).of_le ?_
          simp [Stage.weight]
          omega
        · next width hnone hwidth =>
          have hweight := charWeight_hexWidth hwidth
          refine (ih _ text).of_le ?_
          simp [Stage.weight, hweight]
          omega
        · exact yields_failAt
    | codePoint left value first =>
      rw [scan]
      dsimp only
      split
      · exact yields_failAt
      · refine Yields.ite (fun _ => (ih _ text).of_le ?_) fun _ => ?_
        · simp [Stage.weight]
        · split
          · next c hc =>
            have hweight := charWeight_le c
            refine (ih .word _).of_le ?_
            simp [Stage.weight]
            omega
          · exact yields_failAt

end QuotedScalar

end Planimeter.Yaml
