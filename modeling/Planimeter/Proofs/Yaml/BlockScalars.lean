import Planimeter.Proofs.Yaml.Lines
/-!
# Scalars on lines of their own

A block scalar is read character by character: each adds itself to the text, behind what stands
between its line and the line before. Where a separator ends a line, no indentation is written on
the next one, and reading goes on only if that is empty. A literal scalar is read back as it was
written if so each of its separators is followed, and a folded one as its lines with a space between
each two.
-/
namespace Planimeter.Yaml

/-- A text without the occurrences of a character at its end. -/
def trimEnd (d : Char) (cs : List Char) : List Char := (cs.reverse.dropWhile (· == d)).reverse

@[simp] theorem trimEnd_append (d : Char) (cs : List Char) :
    trimEnd d cs ++ List.replicate (cs.reverse.takeWhile (· == d)).length d = cs := by
  have hend : cs.reverse.takeWhile (· == d) =
      List.replicate (cs.reverse.takeWhile (· == d)).length d :=
    List.eq_replicate_of_mem fun c hc => by
      simpa using List.all_eq_true.1 List.all_takeWhile c hc
  have hcs := List.takeWhile_append_dropWhile (p := (· == d)) (l := cs.reverse)
  rw [hend] at hcs
  simpa [trimEnd] using congrArg List.reverse hcs

theorem getLast?_trimEnd (d : Char) (cs : List Char) : (trimEnd d cs).getLast? ≠ some d := by
  intro hlast
  have hhead := List.head?_dropWhile_not (· == d) cs.reverse
  rw [trimEnd, List.getLast?_reverse] at hlast
  simp [hlast] at hhead

namespace Write

/-- A text of several lines as it stands behind the indentation of the first. -/
def body (cs : List Char) : List Char :=
  cs.flatMap fun c => if c = '\n' then '\n' :: margin else [c]

/-- The text without the last of the line feeds at its end. -/
def unended (cs : List Char) : List Char :=
  trimBreaks cs ++ List.replicate (trailingBreaks cs - 1) '\n'

/-- Behind each separator of lines stands another line break. -/
def followed : List Char → Bool
  | [] => true
  | [c] => !isSeparator c
  | c :: d :: cs => (!isSeparator c || isBreak d) && followed (d :: cs)

variable {c d : Char} {cs ds : List Char}

@[simp] theorem body_nil : body [] = [] := rfl

@[simp] theorem body_lineFeed (cs : List Char) : body ('\n' :: cs) = '\n' :: (margin ++ body cs) :=
  rfl

@[simp] theorem body_cons (hc : c ≠ '\n') (cs : List Char) : body (c :: cs) = c :: body cs := by
  simp [body, hc]

@[simp] theorem body_append (cs ds : List Char) : body (cs ++ ds) = body cs ++ body ds :=
  List.flatMap_append

theorem body_eq_self (h : '\n' ∉ cs) : body cs = cs := by
  induction cs with
  | nil => rfl
  | cons c cs ih =>
    rw [List.mem_cons, not_or] at h
    rw [body_cons (Ne.symm h.1), ih h.2]

theorem mem_body (h : c ∈ body cs) : c = ' ' ∨ c ∈ cs := by
  obtain ⟨d, hd, hc⟩ := List.mem_flatMap.1 h
  split at hc
  · next hfeed =>
    rcases List.mem_cons.1 hc with rfl | hc
    · exact .inr (hfeed ▸ hd)
    · exact .inl (by simpa [margin] using hc)
  · obtain rfl := List.mem_singleton.1 hc
    exact .inr hd

theorem mem_body_of_mem (h : c ∈ cs) : c ∈ body cs := by
  refine List.mem_flatMap.2 ⟨c, h, ?_⟩
  split
  · next hfeed => simp [hfeed]
  · simp

/-- The lines of a block scalar are the body of what they are the lines of. -/
theorem flatMap_line {lines : List (List Char)} (hne : lines ≠ [])
    (hfeed : ∀ l ∈ lines, '\n' ∉ l) :
    lines.flatMap line = margin ++ (body (['\n'].intercalate lines) ++ ['\n']) := by
  induction lines with
  | nil => contradiction
  | cons l lines ih =>
    obtain ⟨hl, hlines⟩ := List.forall_mem_cons.1 hfeed
    by_cases hnil : lines = []
    · simp [hnil, line, body_eq_self hl]
    · rw [List.flatMap_cons, ih hnil hlines, List.intercalate_cons_of_ne_nil hnil]
      simp [line, body_eq_self hl]

theorem followed_of_separator (h : ∀ c ∈ cs, isSeparator c = false) : followed cs := by
  induction cs with
  | nil => rfl
  | cons c cs ih =>
    obtain ⟨hc, hcs⟩ := List.forall_mem_cons.1 h
    cases cs with
    | nil => simp [followed, hc]
    | cons d cs => simpa [followed, hc] using ih hcs

theorem followed_tail (h : followed (c :: cs)) : followed cs := by
  cases cs with
  | nil => rfl
  | cons d cs =>
    rw [followed, Bool.and_eq_true] at h
    exact h.2

theorem followed_head (h : followed (c :: cs)) (hc : isSeparator c) :
    ∃ d ∈ cs.head?, isBreak d := by
  cases cs with
  | nil => simp [followed, hc] at h
  | cons d cs => exact ⟨d, rfl, by simpa [followed, hc] using (Bool.and_eq_true_iff.1 h).1⟩

theorem followed_of_append (h : followed (cs ++ ds)) : followed ds := by
  induction cs with
  | nil => exact h
  | cons c cs ih => exact ih (followed_tail h)

theorem followed_front (h : followed (cs ++ c :: ds)) (hc : isSeparator c = false) :
    followed (cs ++ [c]) := by
  induction cs with
  | nil => simp [followed, hc]
  | cons d cs ih =>
    have hrest := ih (followed_tail h)
    cases cs with
    | nil => simpa [followed, hc] using (Bool.and_eq_true_iff.1 h).1
    | cons e cs =>
      rw [List.cons_append, List.cons_append, followed, Bool.and_eq_true] at h ⊢
      exact ⟨h.1, hrest⟩

theorem followed_lineFeed (h : followed cs) : followed (cs ++ ['\n']) := by
  induction cs with
  | nil => rfl
  | cons c cs ih =>
    have hrest := ih (followed_tail h)
    cases cs with
    | nil =>
      have hc : isSeparator c = false := by simpa [followed] using h
      simpa [followed, hc] using hrest
    | cons d cs =>
      rw [followed, Bool.and_eq_true] at h
      simpa [followed, h.1] using hrest

theorem followed_last (h : followed cs) : ∀ c ∈ cs.getLast?, isSeparator c = false := by
  intro c hc
  obtain ⟨front, rfl⟩ := List.getLast?_eq_some_iff.1 hc
  clear hc
  induction front with
  | nil => simpa [followed] using h
  | cons d front ih => exact ih (followed_tail h)

/-- Where no line feed is, none of the separators is followed by the last. -/
theorem separator_of_followed (h : followed cs) (hcs : ∀ c ∈ cs, IsLaid c) (hfeed : '\n' ∉ cs) :
    ∀ c ∈ cs, isSeparator c = false := by
  induction cs with
  | nil => simp
  | cons c cs ih =>
    obtain ⟨-, hlaid⟩ := List.forall_mem_cons.1 hcs
    rw [List.mem_cons, not_or] at hfeed
    have hrest := ih (followed_tail h) hlaid hfeed.2
    refine List.forall_mem_cons.2 ⟨?_, hrest⟩
    rw [Bool.eq_false_iff]
    intro hc
    obtain ⟨d, hd, hbreak⟩ := followed_head h hc
    have hmem : d ∈ cs := List.mem_of_mem_head? hd
    have hne : d ≠ '\n' := by
      rintro rfl
      exact hfeed.2 hmem
    rw [← (hlaid d hmem).isSeparator_iff hne, hrest d hmem] at hbreak
    contradiction

end Write

namespace BlockScalar

/-- What a chomping is written as. -/
def Chomping.sign : Chomping → List Char
  | strip => ['-']
  | clip => []
  | keep => ['+']

/-- What stands behind the text so far. -/
def Stage.pending : Stage → List Char
  | line _ => []
  | pause p => p.ending ++ p.empty.reverse

/-- What stands after the last line. -/
def Stage.chomp (chomping : Chomping) : Stage → List Char
  | line _ => []
  | pause p => p.chomp chomping

/-- What is being read, and the text so far, backwards, after one more character. -/
def add (layout : Layout) : Stage × List Char → Char → Stage × List Char
  | (.line blank, text), c =>
    if isBreak c then (.pause ⟨[c], [], blank⟩, text) else (.line blank, c :: text)
  | (.pause p, text), c =>
    if isBreak c then (.pause { p with empty := c :: p.empty }, text)
    else (.line (isBlank c), c :: ((p.text layout c).reverse ++ text))

section

variable (layout : Layout) (blank : Bool) (p : Pause) (text : List Char) {c : Char}

@[simp] theorem add_empty (hc : isBreak c) : add layout (.pause p, text) c =
    (.pause { p with empty := c :: p.empty }, text) := by simp [add, hc]

@[simp] theorem add_first (hc : isBreak c = false) : add layout (.pause p, text) c =
    (.line (isBlank c), c :: ((p.text layout c).reverse ++ text)) := by simp [add, hc]

@[simp] theorem add_next (hc : isBreak c = false) : add layout (.line blank, text) c =
    (.line blank, c :: text) := by simp [add, hc]

@[simp] theorem add_end (hc : isBreak c) : add layout (.line blank, text) c =
    (.pause ⟨[c], [], blank⟩, text) := by simp [add, hc]

end

/-- What a text is read as that ends with a line feed. -/
def content (layout : Layout) (chomping : Chomping) (cs : List Char) : List Char :=
  let s := (cs ++ ['\n']).foldl (add layout) (.pause ⟨[], [], false⟩, [])
  s.2.reverse ++ s.1.chomp chomping

/-- The place is one where the stage goes on. -/
def Stage.IsAt (indent : Nat) (m : Mark) : Stage → Prop
  | line _ => True
  | pause _ => m.column = indent

variable {r : Rules} {p : Pause} {stage : Stage} {m : Mark} {c : Char} {cs text tail : List Char}

/-- Spaces in front of the content are no part of it. -/
theorem scan_spaces (n : Nat) (hcolumn : m.column + n ≤ r.indent) :
    scan r (.pause p) text (Source.place m (List.replicate n ' ' ++ cs)) =
      scan r (.pause p) text (Source.place (m.after (List.replicate n ' ')) cs) := by
  induction n generalizing m with
  | zero => rfl
  | succ n ih =>
    have hlow : m.column < r.indent := by omega
    rw [List.replicate_succ, List.cons_append, Source.place_inline isInline_space, scan]
    simp only [hlow, decide_true, beq_self_eq_true, Bool.and_self, if_true]
    exact ih (by simp; omega)

theorem scan_margin (hcolumn : m.column = 0) (hindent : 4 ≤ r.indent) :
    scan r (.pause p) text (Source.place m (Write.margin ++ cs)) =
      scan r (.pause p) text (Source.place (m.after Write.margin) cs) :=
  scan_spaces 4 (by omega)

/-- A line break is read at any place, and anything else where the content is. -/
theorem scan_add {rest : Source} (hc : isFinish c = false)
    (hplace : isBreak c ∨ stage.IsAt r.indent m) :
    scan r stage text (⟨c, m⟩ :: rest) =
      scan r (add r.layout (stage, text) c).1 (add r.layout (stage, text) c).2 rest := by
  cases stage with
  | line blank =>
    rw [scan]
    by_cases hbreak : isBreak c <;> simp [add, hc, hbreak]
  | pause p =>
    rw [scan]
    by_cases hbreak : isBreak c
    · have hblank : c ≠ ' ' ∧ c ≠ '\t' := by
        constructor <;>
          · rintro rfl
            contradiction
      simp [add, hbreak, hblank]
    · have hcolumn : m.column = r.indent := hplace.resolve_left hbreak
      simp [add, hc, hbreak, hcolumn]

/-- A stage that goes on, or stands before an empty line. -/
theorem add_isAt (hcs : Write.followed (c :: cs)) (hc : IsLaid c) (hfeed : c ≠ '\n') :
    (∃ d ∈ cs.head?, isBreak d) ∨ ∀ m, (add r.layout (stage, text) c).1.IsAt r.indent m := by
  by_cases hbreak : isBreak c
  · exact .inl (Write.followed_head hcs (by rwa [hc.isSeparator_iff hfeed]))
  · refine .inr fun m => ?_
    cases stage <;> simp [add, hbreak, Stage.IsAt]

/-- Reading goes on from line to line, up to the end of one. By induction on the text; a line begins
where the stage goes on, or is empty. -/
theorem scan_body (stage : Stage) (text tail : List Char) (hindent : r.indent = 4)
    (hcs : ∀ c ∈ cs, IsLaid c) {ending : Char} (hending : IsLaid ending) (hends : isBreak ending)
    (hfollowed : Write.followed (cs ++ ['\n']))
    (hplace : (∃ d ∈ (cs ++ [ending]).head?, isBreak d) ∨ stage.IsAt r.indent m) :
    ∃ m', m'.column = 0 ∧
      scan r stage text (Source.place m (Write.body cs ++ ending :: tail)) =
        scan r ((cs ++ [ending]).foldl (add r.layout) (stage, text)).1
          ((cs ++ [ending]).foldl (add r.layout) (stage, text)).2 (Source.place m' tail) := by
  induction cs generalizing m stage text with
  | nil =>
    refine ⟨m.past ending, Mark.past_break hends m, ?_⟩
    rw [Write.body_nil, List.nil_append, Source.place_laid hending,
      scan_add hending.isFinish (.inl hends)]
    rfl
  | cons c cs ih =>
    obtain ⟨hc, hlaid⟩ := List.forall_mem_cons.1 hcs
    have hrest := Write.followed_tail hfollowed
    have hfirst : isBreak c ∨ stage.IsAt r.indent m := by simpa using hplace
    by_cases hfeed : c = '\n'
    · subst hfeed
      have hpause : ∃ p, (add r.layout (stage, text) '\n').1 = .pause p := by
        cases stage <;> exact ⟨_, rfl⟩
      obtain ⟨p, hpause⟩ := hpause
      obtain ⟨m', hm', hscan⟩ := ih (m := (m.nextLine 1).after Write.margin) (.pause p)
        (add r.layout (stage, text) '\n').2 hlaid hrest (.inr hindent.symm)
      refine ⟨m', hm', ?_⟩
      rw [Write.body_lineFeed, List.cons_append, List.append_assoc, Source.place_lineFeed,
        scan_add rfl (.inl rfl), hpause, scan_margin rfl (Nat.le_of_eq hindent.symm), hscan,
        List.cons_append, List.foldl_cons, ← hpause]
    · have hnext : (∃ d ∈ (cs ++ ['\n']).head?, isBreak d) →
          ∃ d ∈ (cs ++ [ending]).head?, isBreak d := by
        cases cs <;> simp [hends]
      obtain ⟨m', hm', hscan⟩ := ih (m := m.past c) _ (add r.layout (stage, text) c).2 hlaid hrest
        ((add_isAt hfollowed hc hfeed).imp hnext fun h => h _)
      refine ⟨m', hm', ?_⟩
      rw [Write.body_cons hfeed, List.cons_append, Source.place_laid hc,
        scan_add hc.isFinish hfirst, hscan]
      rfl

/-- The scalar ends before a key that is indented less. -/
theorem scan_goesOn (hcolumn : m.column < r.indent) (hcs : GoesOn cs) :
    scan r (.pause p) text (Source.place m cs) =
      .ok (text.reverse ++ p.chomp r.chomping, Source.place m cs) := by
  obtain ⟨c, rest, hplace, hc⟩ := hcs.exists_glyph m
  have hne : m.column ≠ r.indent := Nat.ne_of_lt hcolumn
  rw [hplace, scan]
  simp [hc.ne_space, hc.ne_tab, hc, hne]

/-- The indentation of that key is passed over. -/
theorem scan_end {indent : Nat} (hindent : indent < r.indent) (hcs : GoesOn cs) (p : Pause)
    (text : List Char) (hcolumn : m.column = 0) :
    scan r (.pause p) text (Source.place m (List.replicate indent ' ' ++ cs)) =
      .ok (text.reverse ++ p.chomp r.chomping,
        Source.place (m.after (List.replicate indent ' ')) cs) := by
  rw [scan_spaces indent (by omega), scan_goesOn (by simpa [hcolumn] using hindent) hcs]

theorem header_sign (start m : Mark) (chomping : Chomping) (tail : List Char) :
    ∃ m' : Mark, m'.column = 0 ∧ header start (Source.place m (chomping.sign ++ '\n' :: tail)) =
      .ok (⟨chomping, none⟩, Source.place m' tail) := by
  cases chomping <;> exact ⟨_, rfl, rfl⟩

section

variable {start : Mark} {breaks : List Char} {longest : Nat}

theorem leadingBreaks_margin (m : Mark) (cs : List Char) :
    leadingBreaks start breaks longest (Source.place m (Write.margin ++ cs)) =
      leadingBreaks start breaks longest (Source.place (m.after Write.margin) cs) := rfl

theorem leadingBreaks_spaces (n : Nat) (m : Mark) (cs : List Char) :
    leadingBreaks start breaks longest (Source.place m (List.replicate n ' ' ++ cs)) =
      leadingBreaks start breaks longest (Source.place (m.after (List.replicate n ' ')) cs) := by
  induction n generalizing m with
  | zero => rfl
  | succ n ih => exact ih (m.next ' ')

theorem leadingBreaks_break {rest : Source} (hc : isBreak c) :
    leadingBreaks start breaks longest (⟨c, m⟩ :: rest) =
      leadingBreaks start (c :: breaks) (max longest m.column) rest := by
  have hblank : c ≠ ' ' ∧ c ≠ '\t' := by
    constructor <;>
      · rintro rfl
        contradiction
  rw [leadingBreaks]
  simp [hblank, hc]

/-- Empty lines before the first character of the content, and the indentation of that. By
induction on the lines, each of which begins where the content does or behind a separator. -/
theorem leadingBreaks_body (start : Mark) (breaks tail : List Char) {empty : List Char}
    (hempty : ∀ d ∈ empty, isBreak d ∧ IsLaid d) (hfollowed : Write.followed (empty ++ [c]))
    (hc : IsInline c) (hspace : c ≠ ' ') (hlongest : longest ≤ 4)
    (hcolumn : m.column = 4 ∨ m.column = 0 ∧ empty ≠ []) :
    ∃ m' : Mark, m'.column = 4 ∧ leadingBreaks start breaks longest
      (Source.place m (Write.body empty ++ c :: tail)) =
        .ok ((breaks.reverse ++ empty, 4), Source.place m' (c :: tail)) := by
  induction empty generalizing m breaks longest with
  | nil =>
    have htab : c ≠ '\t' := hc.ne_control (by decide)
    have hcolumn : m.column = 4 := by simpa using hcolumn
    refine ⟨m, hcolumn, ?_⟩
    rw [Write.body_nil, List.nil_append, Source.place_inline hc]
    simp [leadingBreaks, hspace, htab, hc, hcolumn, hlongest]
  | cons d empty ih =>
    obtain ⟨⟨hbreak, hlaid⟩, hrest⟩ := List.forall_mem_cons.1 hempty
    have hnext := Write.followed_tail hfollowed
    have hmax : max longest m.column ≤ 4 := by omega
    by_cases hfeed : d = '\n'
    · subst hfeed
      obtain ⟨m', hm', hleading⟩ := ih (m := (m.nextLine 1).after Write.margin)
        ('\n' :: breaks) hrest hnext hmax (.inl rfl)
      refine ⟨m', hm', ?_⟩
      rw [Write.body_lineFeed, List.cons_append, List.append_assoc, Source.place_lineFeed,
        leadingBreaks_break hbreak, leadingBreaks_margin, hleading]
      simp
    · have hne : empty ≠ [] := by
        rintro rfl
        obtain ⟨e, he, hend⟩ :=
          Write.followed_head hfollowed (by rwa [hlaid.isSeparator_iff hfeed])
        obtain rfl : c = e := by simpa using he
        rw [hc.isBreak] at hend
        contradiction
      obtain ⟨m', hm', hleading⟩ := ih (m := m.past d) (d :: breaks) hrest hnext hmax
        (.inr ⟨Mark.past_break hbreak m, hne⟩)
      refine ⟨m', hm', ?_⟩
      rw [Write.body_cons hfeed, List.cons_append, Source.place_laid hlaid,
        leadingBreaks_break hbreak, hleading]
      simp

/-- Where there are empty lines only, they are read with the indentation of what follows. -/
theorem leadingBreaks_end (start : Mark) (breaks : List Char) {empty rest : List Char}
    (hempty : ∀ d ∈ empty, isBreak d ∧ IsLaid d) {indent : Nat} (hindent : indent < 4)
    (hrest : GoesOn rest) (hlongest : longest ≤ 4)
    (hcolumn : m.column = 4 ∨ m.column = 0 ∧ longest = 4) :
    ∃ m' : Mark, m'.column = indent ∧ leadingBreaks start breaks longest
      (Source.place m (Write.body empty ++ '\n' :: (List.replicate indent ' ' ++ rest))) =
        .ok ((breaks.reverse ++ (empty ++ ['\n']), 4), Source.place m' rest) := by
  have hmax : max longest m.column = 4 := by omega
  induction empty generalizing m breaks longest with
  | nil =>
    refine ⟨m.below indent, Mark.below_column m indent, ?_⟩
    obtain ⟨c, source, hplace, hc⟩ := hrest.exists_glyph (m.below indent)
    rw [Write.body_nil, List.nil_append, Source.place_lineFeed, leadingBreaks_break rfl,
      leadingBreaks_spaces, ← Mark.below, hplace, leadingBreaks, hmax]
    simp [hc.ne_space, hc.ne_tab, hc]
    omega
  | cons d empty ih =>
    obtain ⟨⟨hbreak, hlaid⟩, hrest⟩ := List.forall_mem_cons.1 hempty
    by_cases hfeed : d = '\n'
    · subst hfeed
      obtain ⟨m', hm', hleading⟩ := ih (m := (m.nextLine 1).after Write.margin)
        ('\n' :: breaks) hrest (Nat.le_of_eq hmax) (.inl rfl) (by rw [hmax]; rfl)
      refine ⟨m', hm', ?_⟩
      rw [Write.body_lineFeed, List.cons_append, List.append_assoc, Source.place_lineFeed,
        leadingBreaks_break hbreak, leadingBreaks_margin, hleading]
      simp
    · have hcolumn := Mark.past_break hbreak m
      obtain ⟨m', hm', hleading⟩ := ih (m := m.past d) (d :: breaks) hrest
        (Nat.le_of_eq hmax) (.inr ⟨hcolumn, hmax⟩) (by rw [hmax, hcolumn]; rfl)
      refine ⟨m', hm', ?_⟩
      rw [Write.body_cons hfeed, List.cons_append, Source.place_laid hlaid,
        leadingBreaks_break hbreak, hleading]
      simp

end

/-- The indicator of a layout. -/
def Layout.indicator : Layout → Char
  | literal => '|'
  | folded => '>'

theorem Layout.isInline_indicator (layout : Layout) : IsInline layout.indicator := by
  cases layout <;> exact ⟨rfl, rfl⟩

/-- Empty lines in front of the content are collected. -/
theorem foldl_add_empty {layout : Layout} {empty : List Char} (hempty : ∀ d ∈ empty, isBreak d) :
    empty.foldl (add layout) (.pause p, text) =
      (.pause { p with empty := empty.reverse ++ p.empty }, text) := by
  induction empty generalizing p with
  | nil => rfl
  | cons d empty ih =>
    obtain ⟨hd, hrest⟩ := List.forall_mem_cons.1 hempty
    rw [List.foldl_cons, add_empty _ _ _ hd, ih hrest]
    simp

theorem content_append {empty : List Char} (hempty : ∀ d ∈ empty, isBreak d) (layout : Layout)
    (chomping : Chomping) (cs : List Char) : content layout chomping (empty ++ cs) =
      let s := (cs ++ ['\n']).foldl (add layout) (.pause ⟨[], empty.reverse, false⟩, [])
      s.2.reverse ++ s.1.chomp chomping := by
  rw [content, List.append_assoc, List.foldl_append, foldl_add_empty hempty, List.append_nil]

/-- How the value of a key two levels down is read on behind the empty lines in front of its
content. -/
abbrev readOn (layout : Layout) (chomping : Chomping) (start : Mark)
    (r : (List Char × Nat) × Source) : Except SyntaxError (List Char × Source) :=
  scan ⟨layout, chomping, max (max r.1.2 3) 1, start⟩ (.pause ⟨[], r.1.1.reverse, false⟩) [] r.2

theorem read_eq_readOn {layout : Layout} {chomping : Chomping} {s s₁ : Source}
    (hheader : header m s = .ok (⟨chomping, none⟩, s₁)) :
    read layout (some 2) (⟨c, m⟩ :: s) =
      (leadingBreaks m [] 0 s₁).bind (readOn layout chomping m) := by
  simp only [read, Source.mark, Source.behind, hheader, bind, Except.bind]
  rfl

/-- How a scalar is read behind its header and the empty lines in front. -/
theorem read_eq {layout : Layout} {chomping : Chomping} {empty : List Char} {s s₁ s₂ : Source}
    (hheader : header m s = .ok (⟨chomping, none⟩, s₁))
    (hleading : leadingBreaks m [] 0 s₁ = .ok ((empty, 4), s₂)) :
    read layout (some 2) (⟨c, m⟩ :: s) =
      scan ⟨layout, chomping, 4, m⟩ (.pause ⟨[], empty.reverse, false⟩) [] s₂ := by
  rw [read_eq_readOn hheader, hleading]
  rfl

/-- Behind a line feed there is no line. -/
theorem exists_pause (layout : Layout) (s : Stage × List Char) (cs : List Char) :
    ∃ p, ((cs ++ ['\n']).foldl (add layout) s).1 = .pause p := by
  rw [List.foldl_append]
  generalize cs.foldl (add layout) s = s
  obtain ⟨stage, text⟩ := s
  cases stage <;> exact ⟨_, rfl⟩

section

variable {indent : Nat} {rest : List Char}

/-- A block scalar with content as the value of a key two levels down. -/
theorem read_content (layout : Layout) (chomping : Chomping) {empty : List Char}
    (hempty : ∀ d ∈ empty, isBreak d ∧ IsLaid d) (hc : IsInline c) (hspace : c ≠ ' ')
    (hcs : ∀ c ∈ cs, IsLaid c) (hfollowed : Write.followed (empty ++ c :: cs ++ ['\n']))
    (hindent : indent < 4) (hrest : GoesOn rest) (m : Mark) :
    ∃ m' : Mark, m'.column = indent ∧
      read layout (some 2) (Source.place m (layout.indicator :: (chomping.sign ++ '\n' ::
        (Write.margin ++ (Write.body (empty ++ c :: cs) ++
          '\n' :: (List.replicate indent ' ' ++ rest)))))) =
          .ok (content layout chomping (empty ++ c :: cs), Source.place m' rest) := by
  have hfeed : c ≠ '\n' := hc.ne_control (by decide)
  have hleads : Write.followed (empty ++ c :: (cs ++ ['\n'])) := by simpa using hfollowed
  have hbody (tail : List Char) : Write.body (empty ++ c :: cs) ++ tail =
      Write.body empty ++ c :: (Write.body cs ++ tail) := by simp [hfeed]
  obtain ⟨m₁, hm₁, hheader⟩ := header_sign m (m.next layout.indicator) chomping
    (Write.margin ++ (Write.body (empty ++ c :: cs) ++
      '\n' :: (List.replicate indent ' ' ++ rest)))
  obtain ⟨m₂, hm₂, hleading⟩ := leadingBreaks_body (m := m₁.after Write.margin) m []
    (Write.body cs ++ '\n' :: (List.replicate indent ' ' ++ rest)) hempty
    (Write.followed_front hleads hc.separator) hc hspace (Nat.zero_le 4)
    (.inl (by simp [hm₁, Write.margin]))
  obtain ⟨m₃, hm₃, hscan⟩ := scan_body (r := ⟨layout, chomping, 4, m⟩) (m := m₂)
    (.pause ⟨[], empty.reverse, false⟩) [] (List.replicate indent ' ' ++ rest) rfl
    (List.forall_mem_cons.2 ⟨.of_isInline hc, hcs⟩) (.inl rfl) rfl (Write.followed_of_append hleads)
    (.inr hm₂)
  obtain ⟨p, hp⟩ := exists_pause layout (.pause ⟨[], empty.reverse, false⟩, []) (c :: cs)
  refine ⟨m₃.after (List.replicate indent ' '), by simp [hm₃], ?_⟩
  rw [Write.body_cons hfeed, List.cons_append] at hscan
  rw [hbody] at hheader ⊢
  rw [Source.place_inline layout.isInline_indicator,
    read_eq hheader ((leadingBreaks_margin _ _).trans hleading), List.reverse_nil,
    List.nil_append, hscan, hp, scan_end hindent hrest _ _ hm₃,
    content_append fun d hd => (hempty d hd).1]
  dsimp only
  rw [hp]
  rfl

/-- A block scalar without content. -/
theorem read_empty (layout : Layout) (chomping : Chomping)
    (hcs : ∀ d ∈ cs, isBreak d ∧ IsLaid d) (hindent : indent < 4) (hrest : GoesOn rest) (m : Mark) :
    ∃ m' : Mark, m'.column = indent ∧
      read layout (some 2) (Source.place m (layout.indicator :: (chomping.sign ++ '\n' ::
        (Write.margin ++ (Write.body cs ++ '\n' :: (List.replicate indent ' ' ++ rest)))))) =
          .ok (content layout chomping cs, Source.place m' rest) := by
  obtain ⟨m₁, hm₁, hheader⟩ := header_sign m (m.next layout.indicator) chomping
    (Write.margin ++ (Write.body cs ++ '\n' :: (List.replicate indent ' ' ++ rest)))
  obtain ⟨m₂, hm₂, hleading⟩ := leadingBreaks_end (m := m₁.after Write.margin) m [] hcs
    hindent hrest (Nat.zero_le 4)
    (.inl (by simp [hm₁, Write.margin]))
  have hfeed : ∀ d ∈ cs ++ ['\n'], isBreak d :=
    List.forall_mem_append.2 ⟨fun d hd => (hcs d hd).1, by simp [isBreak, isLineEnd]⟩
  refine ⟨m₂, hm₂, ?_⟩
  rw [Source.place_inline layout.isInline_indicator,
    read_eq hheader ((leadingBreaks_margin _ _).trans hleading),
    scan_goesOn (by simpa [hm₂] using hindent) hrest, content, foldl_add_empty hfeed]
  simp [Stage.chomp]

/-- A block scalar as the value of a key two levels down. -/
theorem read_body (layout : Layout) (chomping : Chomping) (hcs : ∀ c ∈ cs, IsLaid c)
    (hopens : (cs.dropWhile isBreak).head? ≠ some ' ') (hfollowed : Write.followed (cs ++ ['\n']))
    (hindent : indent < 4) (hrest : GoesOn rest) (m : Mark) :
    ∃ m' : Mark, m'.column = indent ∧
      read layout (some 2) (Source.place m (layout.indicator :: (chomping.sign ++ '\n' ::
        (Write.margin ++ (Write.body cs ++ '\n' :: (List.replicate indent ' ' ++ rest)))))) =
          .ok (content layout chomping cs, Source.place m' rest) := by
  have hempty : ∀ d ∈ cs.takeWhile isBreak, isBreak d ∧ IsLaid d := fun d hd =>
    ⟨List.all_eq_true.1 List.all_takeWhile d hd, hcs d ((List.takeWhile_sublist _).subset hd)⟩
  have happend := List.takeWhile_append_dropWhile (p := isBreak) (l := cs)
  have hstop := List.head?_dropWhile_not isBreak cs
  cases hrest' : cs.dropWhile isBreak with
  | nil =>
    rw [hrest', List.append_nil] at happend
    rw [happend] at hempty
    exact read_empty layout chomping hempty hindent hrest m
  | cons c l =>
    rw [hrest'] at happend hstop hopens
    rw [← happend, List.forall_mem_append, List.forall_mem_cons] at hcs
    obtain ⟨-, hc, hl⟩ := hcs
    rw [← happend] at hfollowed ⊢
    exact read_content layout chomping hempty (hc.isInline (by simpa using hstop))
      (by simpa using hopens) hl hfollowed hindent hrest m

end

/-- What becomes of so many line feeds at the end of a text. -/
def Chomping.ofBreaks : Nat → Chomping
  | 0 => strip
  | 1 => clip
  | _ => keep

@[simp] theorem trimBreaks_append (cs : List Char) :
    Write.trimBreaks cs ++ List.replicate (Write.trailingBreaks cs) '\n' = cs :=
  trimEnd_append '\n' cs

theorem getLast?_trimBreaks (cs : List Char) : (Write.trimBreaks cs).getLast? ≠ some '\n' :=
  getLast?_trimEnd '\n' cs

/-- The lines of a text. -/
theorem flatMap_pieces (cs : List Char) :
    (Text.pieces '\n' cs).flatMap Write.line = Write.margin ++ (Write.body cs ++ ['\n']) := by
  induction cs with
  | nil => rfl
  | cons c cs ih =>
    rw [Text.pieces]
    split
    · next hc => simp [hc, Write.line, ih]
    · next hc =>
      split
      · next hnil => simp [hnil, Write.margin] at ih
      · next piece rest hpieces =>
        rw [hpieces, List.flatMap_cons, Write.line] at ih
        simpa [Write.line, hc] using ih

/-- Further line feeds are empty lines. -/
theorem body_replicate (n : Nat) : Write.body (List.replicate n '\n') ++ ['\n'] =
    '\n' :: (List.replicate n []).flatMap Write.line := by
  induction n with
  | zero => rfl
  | succ n ih =>
    rw [List.replicate_succ, Write.body_lineFeed, List.cons_append, List.append_assoc, ih]
    simp [List.replicate_succ, Write.line]

theorem literal_eq (cs : List Char) : Write.literal cs =
    Layout.literal.indicator :: ((Chomping.ofBreaks (Write.trailingBreaks cs)).sign ++ '\n' ::
      (Write.margin ++ (Write.body (Write.unended cs) ++ ['\n']))) := by
  have hlines : (Text.pieces '\n' (Write.trimBreaks cs) ++
      List.replicate (Write.trailingBreaks cs - 1) []).flatMap Write.line =
        Write.margin ++ (Write.body (Write.unended cs) ++ ['\n']) := by
    rw [List.flatMap_append, flatMap_pieces, Write.unended, Write.body_append,
      List.append_assoc (Write.body _), body_replicate]
    simp
  rw [← hlines]
  unfold Write.literal
  match Write.trailingBreaks cs with
  | 0 | 1 | _ + 2 => rfl

/-- A character of a literal scalar adds itself to the text with what stands behind it. -/
theorem foldl_add_literal (s : Stage × List Char) (cs : List Char) :
    (cs.foldl (add .literal) s).2.reverse ++ (cs.foldl (add .literal) s).1.pending =
      s.2.reverse ++ s.1.pending ++ cs := by
  induction cs generalizing s with
  | nil => simp
  | cons c cs ih =>
    rw [List.foldl_cons, ih]
    obtain ⟨stage, text⟩ := s
    by_cases hbreak : isBreak c <;> cases stage <;>
      simp [hbreak, Stage.pending, Pause.text]

/-- Behind a character that ends no line the scalar is in a line. -/
theorem add_inline (layout : Layout) (s : Stage × List Char) {c : Char} (hc : isBreak c = false) :
    ∃ blank text, add layout s c = (.line blank, text) := by
  obtain ⟨stage, text⟩ := s
  cases stage <;> simp [hc]

/-- Where the last line has content, the line feed behind it is all that is chomped. -/
theorem content_line (chomping : Chomping) {cs : List Char}
    (hlast : ∃ c ∈ cs.getLast?, isBreak c = false) :
    content .literal chomping cs = cs ++ Pause.chomp chomping ⟨['\n'], [], false⟩ := by
  obtain ⟨c, hc, hbreak⟩ := hlast
  obtain ⟨front, rfl⟩ := List.getLast?_eq_some_iff.1 hc
  have htext := foldl_add_literal (.pause ⟨[], [], false⟩, []) (front ++ [c])
  obtain ⟨blank, text, hadd⟩ :=
    add_inline .literal (front.foldl (add .literal) (.pause ⟨[], [], false⟩, [])) hbreak
  have hfold : (front ++ [c]).foldl (add .literal) (.pause ⟨[], [], false⟩, []) =
      (.line blank, text) := by
    rw [List.foldl_append]
    exact hadd
  rw [hfold] at htext
  have hreverse : text.reverse = front ++ [c] := by simpa [Stage.pending] using htext
  rw [content, List.foldl_append, hfold, List.foldl_cons, List.foldl_nil, add_end _ _ _ rfl,
    hreverse]
  cases chomping <;> rfl

/-- A literal scalar is read as the text that it was written for. -/
theorem content_literal (hfollowed : Write.followed (Write.unended cs)) (hcs : ∀ c ∈ cs, IsLaid c)
    (hne : Write.trimBreaks cs ≠ []) :
    content .literal (.ofBreaks (Write.trailingBreaks cs)) (Write.unended cs) = cs := by
  have happend := trimBreaks_append cs
  obtain ⟨c, hc⟩ : ∃ c, (Write.trimBreaks cs).getLast? = some c :=
    ⟨_, List.getLast?_eq_some_getLast hne⟩
  have hmem : c ∈ cs := happend ▸ List.mem_append_left _ (List.mem_of_getLast? hc)
  have hfeed : c ≠ '\n' := fun heq => getLast?_trimBreaks cs (heq ▸ hc)
  have hlast (h : Write.unended cs = Write.trimBreaks cs) :
      ∃ c ∈ (Write.unended cs).getLast?, isBreak c = false := by
    rw [h] at hfollowed ⊢
    refine ⟨c, hc, ?_⟩
    rw [← (hcs c hmem).isSeparator_iff hfeed]
    exact Write.followed_last hfollowed c hc
  match hbreaks : Write.trailingBreaks cs with
  | 0 =>
    have hunended : Write.unended cs = Write.trimBreaks cs := by simp [Write.unended, hbreaks]
    rw [content_line _ (hlast hunended), hunended]
    simpa [hbreaks, Chomping.ofBreaks, Pause.chomp] using happend
  | 1 =>
    have hunended : Write.unended cs = Write.trimBreaks cs := by simp [Write.unended, hbreaks]
    rw [content_line _ (hlast hunended), hunended]
    simpa [hbreaks, Chomping.ofBreaks, Pause.chomp] using happend
  | n + 2 =>
    have htext := foldl_add_literal (.pause ⟨[], [], false⟩, []) (Write.unended cs ++ ['\n'])
    have hends : Write.unended cs ++ ['\n'] = cs := by
      rw [hbreaks, List.replicate_succ', ← List.append_assoc] at happend
      rw [Write.unended, hbreaks]
      exact happend
    obtain ⟨p, hp⟩ := exists_pause .literal (.pause ⟨[], [], false⟩, []) (Write.unended cs)
    rw [content, hp]
    rw [hp, hends] at htext
    rw [hends]
    exact htext

end BlockScalar

end Planimeter.Yaml
