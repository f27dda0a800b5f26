import Planimeter.Proofs.Yaml.Lines
/-!
# Scalars on one line

A plain scalar is read up to the end of its line or to the colon behind a key, and a quoted one up
to its last quote. Blanks inside either are collected until it is known that the scalar goes on
after them.
-/
namespace Planimeter.Yaml

/-- A document mark stands at the start of a line. -/
theorem Source.isDocumentMark_of_column {m : Mark} (h : 0 < m.column) (c : Char) (rest : Source) :
    isDocumentMark (⟨c, m⟩ :: rest) = false := by
  unfold isDocumentMark
  split
  · next heq =>
    obtain ⟨rfl, -⟩ := List.cons.inj heq
    have hcolumn : (m.column == 0) = false := by simpa using Nat.ne_of_gt h
    simp [hcolumn]
  · rfl

namespace Write

theorem hasColonGap_iff {cs : List Char} : hasColonGap cs ↔ [':', ' '] <:+: cs := by
  fun_induction hasColonGap cs with
  | case1 rest => simpa using (List.prefix_append [':', ' '] rest).isInfix
  | case2 c cs hnone ih =>
    have hstart : ¬[':', ' '] <+: c :: cs := by
      rintro ⟨rest, hrest⟩
      obtain ⟨rfl, rfl⟩ := List.cons.inj hrest
      exact hnone rest rfl rfl
    rw [ih, List.infix_cons_iff, or_iff_right hstart]
  | case3 => simp

theorem hasColonGap_of_infix {cs ds : List Char} (h : cs <:+: ds) (hds : hasColonGap ds = false) :
    hasColonGap cs = false := by
  rw [Bool.eq_false_iff] at hds ⊢
  exact fun hgap => hds (hasColonGap_iff.2 ((hasColonGap_iff.1 hgap).trans h))

end Write

namespace PlainScalar

/-- The gap that blanks on one line make up, if there are any. The last one comes first. -/
def pending : List Char → Option Gap
  | [] => none
  | run => some (.blanks run)

@[simp] theorem pending_text (run : List Char) :
    (((pending run).map Gap.text).getD []).reverse = run := by
  cases run <;> simp [pending, Gap.text]

@[simp] theorem addBlank_pending (run : List Char) (c : Char) :
    some (((pending run).getD (.blanks [])).addBlank c) = pending (c :: run) := by
  cases run <;> rfl

@[simp] theorem addBreak_pending (run : List Char) (c : Char) :
    ((pending run).getD (.blanks [])).addBreak c = .folded [c] := by
  cases run <;> rfl

/-- The text is read as it is by a plain scalar outside flow collections. -/
structure Fits (cs : List Char) : Prop where
  inline : ∀ c ∈ cs, IsInline c
  comment : '#' ∉ cs
  colonGap : Write.hasColonGap cs = false
  lastSpace : cs.getLast? ≠ some ' '
  lastColon : cs.getLast? ≠ some ':'

namespace Fits

variable {c d : Char} {cs : List Char}

theorem tail (h : Fits (c :: d :: cs)) : Fits (d :: cs) where
  inline := fun c' hc' => h.inline c' (List.mem_cons_of_mem _ hc')
  comment := fun hmem => h.comment (List.mem_cons_of_mem _ hmem)
  colonGap := Write.hasColonGap_of_infix (List.suffix_cons c _).isInfix h.colonGap
  lastSpace := by simpa using h.lastSpace
  lastColon := by simpa using h.lastColon

/-- No character of the text ends a word. -/
theorem endsWord (h : Fits (c :: cs)) (m : Mark) (tail : List Char) :
    endsWord false c (Source.front (Source.place m (cs ++ tail))) = false := by
  by_cases hc : c = ':'
  · subst hc
    cases cs with
    | nil => exact absurd rfl h.lastColon
    | cons d cs =>
      have hd : IsInline d := h.inline d (by simp)
      have hspace : d ≠ ' ' := by
        rintro rfl
        exact absurd h.colonGap (by simp [Write.hasColonGap])
      rw [List.cons_append, Source.place_inline hd]
      simp [PlainScalar.endsWord, Source.front, hd, hspace]
  · simp [PlainScalar.endsWord, hc]

end Fits

variable {ctx : PlainContext} {gap : Option Gap} {m : Mark} {cs tail text : List Char}

@[simp] theorem scan_space (rest : Source) : scan ctx gap text (⟨' ', m⟩ :: rest) =
    scan ctx (some ((gap.getD (.blanks [])).addBlank ' ')) text rest := by
  simp [scan, isBlank]

@[simp] theorem scan_lineFeed (rest : Source) : scan ctx gap text (⟨'\n', m⟩ :: rest) =
    scan ctx (some ((gap.getD (.blanks [])).addBreak '\n')) text rest := by
  simp [scan, isBlank, isBreak, isLineEnd]

/-- Inside a scalar, behind blanks that may end it, a text is read as it is. -/
theorem scan_append (hctx : ctx.inFlow = false) (hcolumn : ctx.indent ≤ m.column ∧ 0 < m.column)
    (hfits : Fits cs) (hcs : cs ≠ []) (run : List Char) :
    scan ctx (pending run) text (Source.place m (cs ++ tail)) =
      scan ctx none (cs.reverse ++ (run ++ text)) (Source.place (m.after cs) tail) := by
  induction cs generalizing m run text with
  | nil => contradiction
  | cons c cs ih =>
    have hc : IsInline c := hfits.inline c (by simp)
    have hnext : ctx.indent ≤ (m.next c).column ∧ 0 < (m.next c).column := by
      simp only [Mark.next]
      omega
    have hcomment : c ≠ '#' := fun heq => hfits.comment (by simp [heq])
    rw [List.cons_append, Source.place_inline hc]
    by_cases hspace : c = ' '
    · subst hspace
      cases cs with
      | nil => exact absurd rfl hfits.lastSpace
      | cons d cs =>
        rw [scan_space, addBlank_pending, ih hnext hfits.tail (by simp)]
        simp
    · have hmark := Source.isDocumentMark_of_column hcolumn.2 c
        (Source.place (m.next c) (cs ++ tail))
      have hindent : (decide (m.column < ctx.indent)) = false := by simpa using hcolumn.1
      have hstep : scan ctx (pending run) text (⟨c, m⟩ :: Source.place (m.next c) (cs ++ tail)) =
          scan ctx none (c :: (run ++ text)) (Source.place (m.next c) (cs ++ tail)) := by
        simp [scan, hc, hspace, hctx, hindent, hmark, hcomment, hfits.endsWord]
      rw [hstep]
      cases cs with
      | nil => rfl
      | cons d cs =>
        change scan ctx (pending []) _ _ = _
        rw [ih hnext hfits.tail (by simp)]
        simp

/-- Blanks at the end of a line are pending. -/
theorem scan_trailing (run : List Char) (n : Nat) :
    scan ctx (pending run) text (Source.place m (List.replicate n ' ' ++ cs)) =
      scan ctx (pending (List.replicate n ' ' ++ run)) text
        (Source.place (m.after (List.replicate n ' ')) cs) := by
  induction n generalizing m run with
  | zero => rfl
  | succ n ih =>
    have hrun : List.replicate n ' ' ++ ' ' :: run = ' ' :: List.replicate n ' ' ++ run := by
      rw [← List.replicate_succ, List.replicate_succ', List.append_assoc, List.singleton_append]
    rw [List.replicate_succ, List.cons_append, Source.place_inline isInline_space, scan_space,
      addBlank_pending, ih, hrun]
    rfl

@[simp] theorem scan_indentation (breaks : List Char) (n : Nat) :
    scan ctx (some (.folded breaks)) text (Source.place m (List.replicate n ' ' ++ cs)) =
      scan ctx (some (.folded breaks)) text (Source.place (m.after (List.replicate n ' ')) cs) := by
  induction n generalizing m with
  | zero => rfl
  | succ n ih =>
    rw [List.replicate_succ, List.cons_append, Source.place_inline isInline_space, scan_space]
    exact ih

/-- A scalar ends before a line that is indented less, without the blanks at its end. -/
theorem scan_line (hctx : ctx.inFlow = false) {indent : Nat} (hindent : indent < ctx.indent)
    (hcs : GoesOn cs) (run : List Char) :
    scan ctx (pending run) text (Source.place m ('\n' :: (List.replicate indent ' ' ++ cs))) =
      .ok (⟨text.reverse, true⟩, Source.place (m.below indent) cs) := by
  have hoff : ¬ctx.indent ≤ indent := Nat.not_le_of_lt hindent
  obtain ⟨c, rest, hplace, hc⟩ := hcs.exists_glyph (m.below indent)
  rw [Source.place_lineFeed, scan_lineFeed, addBreak_pending, scan_indentation]
  change scan ctx _ text (Source.place (m.below indent) cs) = _
  rw [hplace]
  simp [scan, hc, hctx, hoff, ofReversed, Gap.crossesLine]

variable {indent : Nat}

theorem read_append (hcolumn : indent ≤ m.column ∧ 0 < m.column) (hfits : Fits cs)
    (hcs : cs ≠ []) (tail : List Char) : read false indent (Source.place m (cs ++ tail)) =
      scan ⟨false, indent, m⟩ none cs.reverse (Source.place (m.after cs) tail) := by
  rw [read, Source.mark_place]
  change scan ⟨false, indent, m⟩ (pending []) [] _ = _
  rw [scan_append rfl hcolumn hfits hcs]
  simp

/-- A plain scalar in a block collection takes up the rest of its line but for blanks at its end. -/
theorem read_line (hcolumn : indent ≤ m.column ∧ 0 < m.column) (hfits : Fits cs)
    (hcs : cs ≠ []) (blanks : Nat) {below : Nat} (hbelow : below < indent) (htail : GoesOn tail) :
    ∃ m' : Mark, m'.column = below ∧ read false indent (Source.place m
      (cs ++ (List.replicate blanks ' ' ++ '\n' :: (List.replicate below ' ' ++ tail)))) =
        .ok (⟨cs, true⟩, Source.place m' tail) := by
  refine ⟨((m.after cs).after (List.replicate blanks ' ')).below below, by simp, ?_⟩
  rw [read_append hcolumn hfits hcs]
  change scan _ (pending []) _ _ = _
  rw [scan_trailing, scan_line rfl hbelow htail, List.reverse_reverse]

/-- A name that is a key ends before its colon. -/
theorem scan_name (hctx : ctx.inFlow = false) (hcs : ∀ c ∈ cs, isName c) {c : Char}
    (hc : c = ' ' ∨ c = '\n') (tail : List Char) :
    scan ctx none text (Source.place m (cs ++ ':' :: c :: tail)) =
      .ok (⟨text.reverse ++ cs, false⟩, Source.place (m.after cs) (':' :: c :: tail)) := by
  induction cs generalizing m text with
  | nil =>
    have hgap : isGap (Source.front (Source.place (m.next ':') (c :: tail))) := by
      rcases hc with rfl | rfl <;> rfl
    rw [List.nil_append, Source.place_inline isInline_colon]
    simp [scan, isInline_colon, hctx, endsWord, hgap, ofReversed, Mark.after]
  | cons d cs ih =>
    obtain ⟨hd, hcs⟩ := List.forall_mem_cons.1 hcs
    have hinline := (isPrintable_of_isName hd).isInline
    have hspace : d ≠ ' ' := by
      rintro rfl
      contradiction
    have hcolon : d ≠ ':' := by
      rintro rfl
      contradiction
    rw [List.cons_append, Source.place_inline hinline]
    simp only [scan, hinline.isBlank hspace, hinline.isBreak, hinline.isFinish, hctx, endsWord,
      beq_eq_false_iff_ne.2 hcolon, Option.isSome_none, Option.map_none, Option.getD_none,
      List.reverse_nil, List.nil_append, Bool.false_and, Bool.or_self, Bool.false_eq_true, if_false]
    rw [ih hcs]
    simp [Mark.after]

end PlainScalar

namespace Write

/-- The two digits of a number below 256. -/
theorem octet_digits : ∀ n < 256, (octet n).map Text.hexDigit? = [some (n / 16), some (n % 16)] ∧
    (octet n).all isName := by
  decide +kernel

theorem lt_of_isControl {c : Char} (h : isControl c) : c.toNat < 256 := by
  simp only [isControl, Bool.or_eq_true, Bool.and_eq_true, decide_eq_true_eq] at h
  omega

open QuotedScalar (escaped? hexWidth?)

/-- The number that hexadecimal digits make up behind those of another one. -/
def hexValue? (n : Nat) (digits : List Char) : Option Nat :=
  digits.foldlM (fun n d => (Text.hexDigit? d).map (16 * n + ·)) n

/-- What a character becomes between quotes: a letter behind a backslash, or the digits of its code
point behind a letter that announces them, or itself. -/
inductive Escaped (c : Char) : List Char → Prop where
  | letter {l : Char} (hl : IsPrintable l) (h : escaped? l = some c) : Escaped c ['\\', l]
  | codePoint {l : Char} {digits : List Char} (hl : IsPrintable l) (hletter : escaped? l = none)
      (hwidth : hexWidth? l = some digits.length) (hdigits : digits ≠ [])
      (hname : ∀ d ∈ digits, isName d) (hvalue : hexValue? 0 digits = some c.toNat) :
      Escaped c ('\\' :: l :: digits)
  | self (hc : IsInline c) (hquote : c ≠ '\x22') (hbackslash : c ≠ '\\') : Escaped c [c]

theorem escaped_octet {c : Char} (h : isControl c) :
    Escaped c ('\\' :: 'x' :: octet c.toNat) := by
  obtain ⟨hvalues, hname⟩ := octet_digits _ (lt_of_isControl h)
  obtain ⟨high, rest, hoctet, hhigh, hrest⟩ := List.map_eq_cons_iff.1 hvalues
  obtain ⟨low, rest, rfl, hlow, hnil⟩ := List.map_eq_cons_iff.1 hrest
  obtain rfl := List.map_eq_nil_iff.1 hnil
  rw [hoctet] at hname ⊢
  refine .codePoint (by decide) rfl rfl (by simp) (List.all_eq_true.1 hname) ?_
  simp [hexValue?, hhigh, hlow, Nat.div_add_mod]

theorem escaped (c : Char) : Escaped c (escape c) := by
  unfold escape
  split
  case h_15 =>
    have hescape : "\\uFEFF".toList = '\\' :: 'u' :: ['F', 'E', 'F', 'F'] := by decide
    rw [hescape]
    exact .codePoint (by decide) rfl rfl (by decide) (List.all_eq_true.1 (by decide)) (by decide)
  case h_16 =>
    split
    · next hcontrol => exact escaped_octet hcontrol
    · next hcontrol =>
      have hseparator : isSeparator c = false := by
        rw [isSeparator, Bool.or_eq_false_iff, beq_eq_false_iff_ne, beq_eq_false_iff_ne]
        exact ⟨by assumption, by assumption⟩
      exact .self ⟨by simpa using hcontrol, hseparator⟩ (by assumption) (by assumption)
  all_goals exact .letter (by decide) rfl

namespace Escaped

variable {c : Char} {written : List Char}

theorem mem (h : Escaped c written) {d : Char} (hd : d ∈ written) :
    IsInline d ∧ (IsPrintable d ∨ d = c) := by
  have hprintable (hd : IsPrintable d) : IsInline d ∧ (IsPrintable d ∨ d = c) :=
    ⟨hd.isInline, .inl hd⟩
  cases h with
  | letter hl =>
    simp only [List.mem_cons, List.not_mem_nil, or_false] at hd
    rcases hd with rfl | rfl
    · exact hprintable (by decide)
    · exact hprintable hl
  | codePoint hl hletter hwidth hdigits hname =>
    simp only [List.mem_cons] at hd
    rcases hd with rfl | rfl | hd
    · exact hprintable (by decide)
    · exact hprintable hl
    · exact hprintable (isPrintable_of_isName (hname d hd))
  | self hc =>
    obtain rfl := List.mem_singleton.1 hd
    exact ⟨hc, .inr rfl⟩

/-- What a character other than a space becomes does not begin with a space. -/
theorem exists_cons (h : Escaped c written) (hspace : c ≠ ' ') :
    ∃ d ds, written = d :: ds ∧ IsInline d ∧ d ≠ ' ' := by
  have hbackslash : IsInline '\\' := ⟨by decide, by decide⟩
  cases h with
  | letter | codePoint => exact ⟨_, _, rfl, hbackslash, by decide⟩
  | self hc => exact ⟨_, _, rfl, hc, hspace⟩

end Escaped

end Write

namespace QuotedScalar

open Write (Escaped hexValue?)

variable {quote : Quote} {start m : Mark} {text tail : List Char} {c : Char}

@[simp] theorem ofCodePoint?_toNat (c : Char) : ofCodePoint? c.toNat = some c := by
  have hvalid : c.toNat.isValidChar := c.valid
  rw [ofCodePoint?, dif_pos hvalid]
  rfl

/-- The digits of a code point. -/
theorem scan_codePoint {digits : List Char} (hdigits : digits ≠ []) (hname : ∀ d ∈ digits, isName d)
    {value : Nat} (hvalue : hexValue? value digits = some c.toNat) {first : Mark} :
    scan quote start (.codePoint digits.length value first) text (Source.place m (digits ++ tail)) =
      scan quote start .word (c :: text) (Source.place (m.after digits) tail) := by
  induction digits generalizing m value with
  | nil => contradiction
  | cons d digits ih =>
    obtain ⟨hd, hname⟩ := List.forall_mem_cons.1 hname
    rw [hexValue?, List.foldlM_cons] at hvalue
    obtain ⟨value', hvalue', hrest⟩ := Option.bind_eq_some_iff.1 hvalue
    obtain ⟨n, hn, rfl⟩ := Option.map_eq_some_iff.1 hvalue'
    rw [List.cons_append, Source.place_inline (isPrintable_of_isName hd).isInline]
    cases digits with
    | nil =>
      obtain hlast : 16 * value + n = c.toNat := Option.some.inj hrest
      simp [scan, hn, hlast, Mark.after]
    | cons d' digits =>
      have hstep := ih (m := m.next d) (by simp) hname hrest
      simp only [List.length_cons] at hstep ⊢
      simp only [scan, hn, Nat.lt_add_left_iff_pos, Nat.zero_lt_succ, if_true, Nat.add_sub_cancel,
        hstep]
      rfl

/-- What a character becomes is read as the character. -/
theorem scan_escape {written : List Char} (h : Escaped c written) (hspace : c ≠ ' ') :
    scan .double start .word text (Source.place m (written ++ tail)) =
      scan .double start .word (c :: text) (Source.place (m.after written) tail) := by
  have hbackslash : IsInline '\\' := ⟨by decide, by decide⟩
  have hword : isFinish '\\' = false ∧ wordStage .double ⟨'\\', m⟩ = some (.escape m) :=
    ⟨rfl, rfl⟩
  cases h with
  | letter hl hletter =>
    rw [List.cons_append, Source.place_inline hbackslash, List.cons_append,
      Source.place_inline hl.isInline]
    simp only [scan, hword, hl.isInline.isBreak, hletter, Bool.false_eq_true, if_false]
    rfl
  | codePoint hl hletter hwidth hdigits hname hvalue =>
    rw [List.cons_append, Source.place_inline hbackslash, List.cons_append,
      Source.place_inline hl.isInline]
    simp only [scan, hword, hl.isInline.isBreak, hletter, hwidth, Bool.false_eq_true, if_false]
    exact scan_codePoint hdigits hname hvalue
  | self hc hquote hne =>
    have hnone : wordStage .double ⟨c, m⟩ = none := by
      simp [wordStage, Quote.char, hquote, hne, hc, hspace]
    rw [List.singleton_append, Source.place_inline hc]
    simp [scan, hc, hnone, Mark.after]

/-- The stage behind blanks on one line, which may be none. The last one comes first. -/
def pending : List Char → Stage
  | [] => .word
  | run => .gap (.blanks run)

/-- Behind blanks the scalar goes on, with the blanks as they are. -/
theorem scan_pending (run : List Char) (hc : IsInline c) (hspace : c ≠ ' ') (hcolumn : 0 < m.column)
    (rest : Source) : scan quote start (pending run) text (⟨c, m⟩ :: rest) =
      scan quote start .word (run ++ text) (⟨c, m⟩ :: rest) := by
  cases run with
  | nil => rfl
  | cons b run =>
    have hmark := Source.isDocumentMark_of_column hcolumn c rest
    simp [scan, pending, hc, hspace, hmark, Gap.text]

@[simp] theorem scan_space (run : List Char) (rest : Source) :
    scan quote start (pending run) text (⟨' ', m⟩ :: rest) =
      scan quote start (pending (' ' :: run)) text rest := by
  cases run with
  | nil => cases quote <;> rfl
  | cons b run => rfl

/-- A text that stands between quotes is read as the text. -/
theorem scan_escaped (cs : List Char) (hcolumn : 0 < m.column) (run : List Char) :
    scan .double start (pending run) text
        (Source.place m (cs.flatMap Write.escape ++ '\x22' :: tail)) =
      .ok (text.reverse ++ (run.reverse ++ cs),
        Source.place ((m.after (cs.flatMap Write.escape)).next '\x22') tail) := by
  induction cs generalizing m run text with
  | nil =>
    rw [List.flatMap_nil, List.nil_append, Source.place_inline isInline_quote,
      scan_pending run isInline_quote (by decide) hcolumn]
    simp [scan, isFinish, finish, wordStage, Quote.char, Mark.after]
  | cons c cs ih =>
    by_cases hspace : c = ' '
    · subst hspace
      change scan .double start (pending run) text
        (Source.place m (' ' :: (cs.flatMap Write.escape ++ '\x22' :: tail))) = _
      rw [Source.place_inline isInline_space, scan_space, ih (Nat.succ_pos _)]
      simp [Write.escape, Write.isControl]
    · obtain ⟨d, ds, hescape, hd, hdspace⟩ := (Write.escaped c).exists_cons hspace
      have hstep : scan .double start (pending run) text
          (Source.place m (Write.escape c ++ (cs.flatMap Write.escape ++ '\x22' :: tail))) =
          scan .double start (pending []) (c :: (run ++ text)) (Source.place
            (m.after (Write.escape c)) (cs.flatMap Write.escape ++ '\x22' :: tail)) := by
        rw [pending, ← scan_escape (Write.escaped c) hspace, hescape, List.cons_append,
          Source.place_inline hd, scan_pending run hd hdspace hcolumn]
      rw [List.flatMap_cons, List.append_assoc, hstep, ih (by simp; omega), Mark.after_append]
      simp

/-- A text between quotes is read as the text. -/
theorem read_quote (m : Mark) (cs tail : List Char) :
    read .double (Source.place m (Write.quote cs ++ tail)) =
      .ok (cs, Source.place (m.after (Write.quote cs)) tail) := by
  have hcolumn : 0 < (m.next '\x22').column := Nat.succ_pos _
  rw [read, Source.mark_place, Write.quote, List.append_assoc, List.cons_append,
    Source.place_inline isInline_quote]
  change scan .double m (pending []) [] (Source.place (m.next '\x22')
    (cs.flatMap Write.escape ++ '\x22' :: tail)) = _
  rw [scan_escaped cs hcolumn, List.cons_append, Mark.after_cons, Mark.after_append]
  rfl

/-- The texts that stand between single quotes. -/
theorem read_isLoneMark (m : Mark) {cs : List Char} (hcs : Write.isLoneMark cs) (tail : List Char) :
    read .single (Source.place m ('\x27' :: cs ++ ['\x27', '\n'] ++ tail)) =
      .ok (cs, Source.place (m.after ('\x27' :: cs ++ ['\x27'])) ('\n' :: tail)) := by
  simp only [Write.isLoneMark, Bool.or_eq_true, beq_iff_eq] at hcs
  rcases hcs with (rfl | rfl) | rfl <;> rfl

end QuotedScalar

end Planimeter.Yaml
