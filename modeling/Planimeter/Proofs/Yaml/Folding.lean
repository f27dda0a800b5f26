import Planimeter.Proofs.Yaml.BlockScalars
/-!
# Folded texts

Folding breaks a long line at its last blank. A text without other blanks than spaces, none of which
stands at its end, is read back; where another blank is broken at, or the last one, it gets lost.
-/
namespace Planimeter.Yaml

namespace Write

@[simp] theorem fold_nil (line : List Char) (column : Nat) (word : Option Nat) :
    fold line column word [] = [line.reverse] := by
  rfl

theorem fold_cons (line : List Char) (column : Nat) (word : Option Nat) (c : Char)
    (cs : List Char) : fold line column word (c :: cs) =
      match if Text.isBlank c && cs.head?.any Text.isBlank || decide (column + 1 ≤ lineLength)
        then none else if Text.isBlank c then some 0 else word.map (· + 1) with
      | none =>
        fold (c :: line) (column + 1) (if Text.isBlank c then some 0 else word.map (· + 1)) cs
      | some length => ((c :: line).drop (length + 1)).reverse ::
          fold ((c :: line).take length) 0 none cs := by
  rfl

/-- The lines that a text is broken into: each break takes the place of a blank that no blank
follows. -/
inductive Broken : List Char → List (List Char) → Prop where
  | last (l : List Char) : Broken l [l]
  | cons {b : Char} {rest : List Char} {lines : List (List Char)} (l : List Char)
      (hb : Text.isBlank b) (hrest : ∀ c ∈ rest.head?, Text.isBlank c = false)
      (h : Broken rest lines) : Broken (l ++ b :: rest) (l :: lines)

/-- Where a line is broken: behind its last blank, which the break takes the place of. -/
theorem line_eq {cs : List Char} {length : Nat} (h : cs.findIdx? Text.isBlank = some length) :
    ∃ b, Text.isBlank b ∧
      cs.reverse = (cs.drop (length + 1)).reverse ++ b :: (cs.take length).reverse ∧
      (∀ c ∈ cs.take length, Text.isBlank c = false) := by
  obtain ⟨hlt, hblank, hbefore⟩ := List.findIdx?_eq_some_iff_getElem.1 h
  refine ⟨cs[length], hblank, ?_, ?_⟩
  · have hcs : cs.take length ++ cs[length] :: cs.drop (length + 1) = cs := by simp
    calc cs.reverse = (cs.take length ++ cs[length] :: cs.drop (length + 1)).reverse := by
          rw [hcs]
      _ = _ := by rw [List.reverse_append, List.reverse_cons, List.append_assoc]; rfl
  · intro c hc
    obtain ⟨i, hi, rfl⟩ := List.mem_take_iff_getElem.1 hc
    simpa using hbefore i (by omega)

/-- The rest of a text is broken together with the line so far. The number of characters behind the
last blank of that tells where. -/
theorem broken_fold_line {line : List Char} {column : Nat} {word : Option Nat}
    (hword : word = line.findIdx? Text.isBlank) (cs : List Char) :
    Broken (line.reverse ++ cs) (fold line column word cs) := by
  induction cs generalizing line column word with
  | nil =>
    rw [List.append_nil, fold_nil]
    exact .last line.reverse
  | cons c cs ih =>
    have hnext : (if Text.isBlank c then some 0 else word.map (· + 1)) =
        (c :: line).findIdx? Text.isBlank := by
      rw [List.findIdx?_cons, hword]
    have hreverse : line.reverse ++ c :: cs = (c :: line).reverse ++ cs := by simp
    rw [fold_cons, hnext, hreverse]
    split
    · exact ih rfl
    · next length hlength =>
      split at hlength
      · contradiction
      · next hbreak =>
        obtain ⟨b, hb, hline, hbehind⟩ := line_eq hlength
        have hrest : Broken (((c :: line).take length).reverse ++ cs)
            (fold ((c :: line).take length) 0 none cs) :=
          ih (List.findIdx?_eq_none_iff.2 hbehind).symm
        rw [hline, List.append_assoc]
        refine .cons _ hb (fun d hd => ?_) hrest
        -- What follows the blank is the rest of the line, or what stands behind the blank itself.
        cases htake : ((c :: line).take length).reverse with
        | cons e es =>
          rw [htake] at hd
          obtain rfl : e = d := by simpa using hd
          exact hbehind e (List.mem_reverse.1 (htake ▸ List.mem_cons_self))
        | nil =>
          have hlength0 : length = 0 := by simpa using htake
          subst hlength0
          have hc : Text.isBlank c := by
            simpa [List.findIdx?_cons] using hlength
          rw [htake] at hd
          have hhead : cs.head? = some d := hd
          rw [Bool.or_eq_true, not_or] at hbreak
          simpa [hc, hhead] using hbreak.1

/-- Folding breaks a text. -/
theorem broken_fold (cs : List Char) : Broken cs (fold [] 0 none cs) :=
  have h : Broken ([].reverse ++ cs) (fold [] 0 none cs) := broken_fold_line rfl cs
  h

/-- The text begins with a character that is no blank. -/
def Opened (cs : List Char) : Prop := ∃ c rest, cs = c :: rest ∧ Text.isBlank c = false

theorem Opened.ne_nil {cs : List Char} (h : Opened cs) : cs ≠ [] := by
  obtain ⟨c, rest, rfl, -⟩ := h
  simp

/-- What stands in front of a blank begins as the whole does. -/
theorem Opened.front {b : Char} {cs ds : List Char} (h : Opened (cs ++ b :: ds))
    (hb : Text.isBlank b) : Opened cs := by
  obtain ⟨c, rest, heq, hc⟩ := h
  cases cs with
  | nil =>
    obtain ⟨rfl, -⟩ := List.cons.inj heq
    rw [hb] at hc
    contradiction
  | cons d cs =>
    obtain ⟨rfl, -⟩ := List.cons.inj heq
    exact ⟨_, _, rfl, hc⟩

/-- Lines none of which is empty or begins with a blank, save that the last may be empty. -/
def Lined (lines : List (List Char)) : Prop :=
  ∃ opened, (∀ l ∈ opened, Opened l) ∧ (lines = opened ∨ lines = opened ++ [[]])

namespace Broken

variable {text : List Char} {lines : List (List Char)}

theorem nonempty (h : Broken text lines) : lines ≠ [] := by
  cases h <;> simp

theorem lines_of_nil (h : Broken [] lines) : lines = [[]] := by
  generalize hnil : ([] : List Char) = text at h
  cases h with
  | last l => rw [← hnil]
  | cons l hb hrest h => simp at hnil

/-- Only the last line can be empty, if the text is broken at its end. -/
theorem lined (h : Broken text lines) (htext : Opened text) : Lined lines := by
  induction h with
  | last l => exact ⟨[l], by simpa using htext, .inl rfl⟩
  | @cons b rest lines l hb hrest hbroken ih =>
    have hl : Opened l := htext.front hb
    cases rest with
    | nil => exact ⟨[l], by simpa using hl, .inr (by simp [hbroken.lines_of_nil])⟩
    | cons c rest =>
      obtain ⟨opened, hopened, hlines⟩ := ih ⟨c, rest, rfl, hrest c rfl⟩
      refine ⟨l :: opened, List.forall_mem_cons.2 ⟨hl, hopened⟩, ?_⟩
      rcases hlines with rfl | rfl
      · exact .inl rfl
      · exact .inr rfl

/-- Of any text all lines but the first are so. -/
theorem exists_lined (h : Broken text lines) : ∃ l rest, lines = l :: rest ∧ Lined rest := by
  cases h with
  | last => exact ⟨text, [], rfl, [], by simp, .inl rfl⟩
  | @cons b rest lines l hb hrest hbroken =>
    refine ⟨l, lines, rfl, ?_⟩
    cases rest with
    | nil => exact ⟨[], by simp, .inr (by simp [hbroken.lines_of_nil])⟩
    | cons c rest => exact hbroken.lined ⟨c, rest, rfl, hrest c rfl⟩

theorem isPrefix {l : List Char} (h : Broken text (l :: lines)) : l <+: text := by
  cases h with
  | last => exact List.prefix_rfl
  | cons => exact List.prefix_append _ _

theorem mem {l : List Char} (h : Broken text lines) (hl : l ∈ lines) : ∀ c ∈ l, c ∈ text := by
  induction h with
  | last l' =>
    obtain rfl := List.mem_singleton.1 hl
    exact fun c hc => hc
  | cons l' hb hrest hbroken ih =>
    intro c hc
    rcases List.mem_cons.1 hl with rfl | hl
    · simp [hc]
    · simp [ih hl c hc]

/-- No line is empty if the text ends with no blank. -/
theorem nil_not_mem (h : Broken text lines) (htext : Opened text)
    (hlast : ∀ c ∈ text.getLast?, Text.isBlank c = false) : [] ∉ lines := by
  induction h with
  | last l => simpa [eq_comm] using htext.ne_nil
  | @cons b rest lines l hb hrest hbroken ih =>
    cases rest with
    | nil =>
      have hblank := hlast b (by simp)
      exact absurd hb (by simp [hblank])
    | cons c rest =>
      rw [List.mem_cons, not_or]
      exact ⟨(htext.front hb).ne_nil.symm, ih ⟨c, rest, rfl, hrest c rfl⟩
        fun d hd => hlast d (by simpa using hd)⟩

/-- A break takes the place of one character. -/
theorem length_intercalate (h : Broken text lines) (c : Char) :
    ([c].intercalate lines).length = text.length := by
  induction h with
  | last l => simp
  | cons l hb hrest hbroken ih =>
    rw [List.intercalate_cons_of_ne_nil hbroken.nonempty]
    simp [ih]

/-- Of a text without other blanks than spaces nothing gets lost. -/
theorem intercalate_eq (h : Broken text lines) (hblank : ∀ c ∈ text, Text.isBlank c → c = ' ') :
    [' '].intercalate lines = text := by
  induction h with
  | last l => simp
  | cons l hb hrest hbroken ih =>
    obtain rfl := hblank _ (by simp) hb
    rw [List.intercalate_cons_of_ne_nil hbroken.nonempty,
      ih fun c hc => hblank c (by simp [hc])]
    simp

end Broken

end Write

namespace BlockScalar

open Write (Opened Broken)

variable {c : Char} {cs : List Char} {lines : List (List Char)}

theorem isBlank_of_not_text {c : Char} (h : Text.isBlank c = false) : isBlank c = false := by
  simp only [isBlank, Bool.or_eq_false_iff, beq_eq_false_iff_ne]
  constructor <;>
    · rintro rfl
      contradiction

theorem intercalate_cons (l : List Char) (lines : List (List Char)) :
    [' '].intercalate (l :: lines) = l ++ lines.flatMap (' ' :: ·) := by
  induction lines generalizing l with
  | nil => simp
  | cons l' lines ih => rw [List.intercalate_cons_of_ne_nil (by simp), ih]; simp

/-- What ends no line adds itself to the line. -/
theorem foldl_add_inline (layout : Layout) (hcs : ∀ d ∈ cs, isBreak d = false) (blank : Bool)
    (text : List Char) :
    cs.foldl (add layout) (.line blank, text) = (.line blank, cs.reverse ++ text) := by
  induction cs generalizing text with
  | nil => rfl
  | cons d cs ih =>
    obtain ⟨hd, hrest⟩ := List.forall_mem_cons.1 hcs
    rw [List.foldl_cons, add_next _ _ _ hd, ih hrest]
    simp

/-- A line with content adds itself behind what stands between it and the line before. -/
theorem foldl_add_line (layout : Layout) (hcs : ∀ d ∈ c :: cs, isBreak d = false) (p : Pause)
    (text : List Char) :
    (c :: cs ++ ['\n']).foldl (add layout) (.pause p, text) =
      (.pause ⟨['\n'], [], isBlank c⟩,
        (c :: cs).reverse ++ ((p.text layout c).reverse ++ text)) := by
  obtain ⟨hc, hrest⟩ := List.forall_mem_cons.1 hcs
  have hend : isBreak '\n' := rfl
  rw [List.cons_append, List.foldl_cons, add_first _ _ _ hc, List.foldl_append,
    foldl_add_inline layout hrest]
  simp [hend]

/-- The lines of a scalar, each ended. -/
theorem intercalate_append (h : lines ≠ []) :
    ['\n'].intercalate lines ++ ['\n'] = lines.flatMap (· ++ ['\n']) := by
  induction lines with
  | nil => contradiction
  | cons l lines ih =>
    by_cases hnil : lines = []
    · simp [hnil]
    · rw [List.intercalate_cons_of_ne_nil hnil, List.append_assoc, ih hnil]
      simp

theorem intercalate_concat (h : lines ≠ []) :
    ['\n'].intercalate (lines ++ [[]]) = ['\n'].intercalate lines ++ ['\n'] := by
  have hlines := intercalate_append h
  have hconcat : ['\n'].intercalate (lines ++ [[]]) ++ ['\n'] =
      (lines ++ [[]]).flatMap (· ++ ['\n']) := intercalate_append (by simp)
  have hends : ['\n'].intercalate (lines ++ [[]]) ++ ['\n'] =
      ['\n'].intercalate lines ++ ['\n'] ++ ['\n'] := by
    rw [hconcat, hlines]
    simp
  exact List.append_cancel_right hends

/-- Further lines each add themselves behind a space. -/
theorem foldl_add_folded (hopened : ∀ l ∈ lines, Opened l)
    (hinline : ∀ l ∈ lines, ∀ d ∈ l, isBreak d = false) (text : List Char) :
    (lines.flatMap (· ++ ['\n'])).foldl (add .folded) (.pause ⟨['\n'], [], false⟩, text) =
      (.pause ⟨['\n'], [], false⟩, (lines.flatMap (' ' :: ·)).reverse ++ text) := by
  induction lines generalizing text with
  | nil => rfl
  | cons l lines ih =>
    obtain ⟨⟨c, rest, rfl, hc⟩, htail⟩ := List.forall_mem_cons.1 hopened
    obtain ⟨hl, hlines⟩ := List.forall_mem_cons.1 hinline
    have hblank := isBlank_of_not_text hc
    rw [List.flatMap_cons, List.foldl_append, foldl_add_line .folded hl, hblank, ih htail hlines]
    simp [Pause.text, hblank]

/-- The first line with content adds itself behind the empty lines in front of it. -/
theorem content_folded (hc : isBlank c = false) (hopened : ∀ l ∈ lines, Opened l)
    (hinline : ∀ l ∈ (c :: cs) :: lines, ∀ d ∈ l, isBreak d = false) {empty : List Char}
    (hempty : ∀ d ∈ empty, isBreak d) :
    content .folded .strip (empty ++ ['\n'].intercalate ((c :: cs) :: lines)) =
      empty ++ [' '].intercalate ((c :: cs) :: lines) := by
  obtain ⟨hfirst, hlines⟩ := List.forall_mem_cons.1 hinline
  rw [content_append hempty, intercalate_append (List.cons_ne_nil _ _), List.flatMap_cons,
    List.foldl_append, foldl_add_line .folded hfirst, hc, foldl_add_folded hopened hlines,
    intercalate_cons]
  simp [Pause.text, Stage.chomp, Pause.chomp]

/-- An empty line at the end gets lost. -/
theorem content_append_lineFeed (layout : Layout) (cs : List Char) :
    content layout .strip (cs ++ ['\n']) = content layout .strip cs := by
  obtain ⟨p, hp⟩ := exists_pause layout (.pause ⟨[], [], false⟩, []) cs
  rw [content, content, List.foldl_append]
  generalize (cs ++ ['\n']).foldl (add layout) (.pause ⟨[], [], false⟩, []) = s at hp ⊢
  obtain ⟨stage, text⟩ := s
  obtain rfl : stage = .pause p := hp
  rfl

/-- A broken text is read back if it was broken at spaces only, and not at its end. -/
theorem content_eq_iff (hbroken : Broken (c :: cs) lines) (hc : isBlank c = false)
    (hinline : ∀ d ∈ c :: cs, isBreak d = false) :
    content .folded .strip (['\n'].intercalate lines) = c :: cs ↔
      [' '].intercalate lines = c :: cs ∧ [] ∉ lines := by
  have hlength := hbroken.length_intercalate ' '
  have hlines : ∀ l ∈ lines, ∀ d ∈ l, isBreak d = false :=
    fun l hl d hd => hinline d (hbroken.mem hl d hd)
  obtain ⟨l, lines, rfl, opened, hopened, hcases⟩ := hbroken.exists_lined
  have hcontent : content .folded .strip (['\n'].intercalate (l :: lines)) =
      content .folded .strip (['\n'].intercalate (l :: opened)) := by
    rcases hcases with rfl | rfl
    · rfl
    · rw [← List.cons_append, intercalate_concat (List.cons_ne_nil _ _), content_append_lineFeed]
  have hinside : ∀ l' ∈ l :: opened, ∀ d ∈ l', isBreak d = false := by
    intro l' hl'
    refine hlines l' ?_
    rcases hcases with rfl | rfl
    · exact hl'
    · exact List.mem_append_left [[]] hl'
  rw [hcontent]
  cases l with
  | nil =>
    have hne : content .folded .strip (['\n'].intercalate ([] :: opened)) ≠ c :: cs := by
      cases opened with
      | nil => exact fun heq => List.cons_ne_nil c cs heq.symm
      | cons x xs =>
        obtain ⟨⟨d, rest, rfl, hd⟩, hxs⟩ := List.forall_mem_cons.1 hopened
        obtain ⟨-, hinside⟩ := List.forall_mem_cons.1 hinside
        have hfeed : ∀ d ∈ ['\n'], isBreak d := by simp [isBreak, isLineEnd]
        have hfirst := content_folded (isBlank_of_not_text hd) hxs hinside hfeed
        intro heq
        rw [List.intercalate_cons_of_ne_nil (List.cons_ne_nil _ _), List.nil_append, hfirst] at heq
        exact absurd (hinline '\n' (heq ▸ List.mem_cons_self)) (by decide)
    exact iff_of_false hne fun h => h.2 List.mem_cons_self
  | cons d l =>
    obtain ⟨rfl, -⟩ := List.cons_prefix_cons.1 hbroken.isPrefix
    have hnil : [] ∉ opened := fun hmem => (hopened [] hmem).ne_nil rfl
    have hfirst := content_folded hc hopened hinside (List.forall_mem_nil _)
    rw [List.nil_append, List.nil_append] at hfirst
    rw [hfirst]
    rcases hcases with rfl | rfl
    · exact ⟨fun h => ⟨h, by simpa using hnil⟩, And.left⟩
    · have hne : [' '].intercalate ((d :: l) :: opened) ≠ d :: cs := by
        intro heq
        rw [intercalate_cons] at hlength heq
        simp [← heq] at hlength
      exact iff_of_false hne fun h => h.2 (by simp)

end BlockScalar

end Planimeter.Yaml
