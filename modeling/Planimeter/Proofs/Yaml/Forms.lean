import Planimeter.Proofs.Yaml.Kept
/-!
# The forms of written texts

Which form a text is written in, what characters it is written with, and what is read from it: the
text itself exactly if it is a kept one.
-/
namespace Planimeter.Yaml

/-- The value of a scalar without a tag. -/
def untagged (text : List Char) (style : Style) : Value :=
  if style = .plain then Schema.value (String.ofList text) else .text (String.ofList text)

theorem untagged_cases (text : List Char) (style : Style) :
    untagged text style = .text (String.ofList text) ∨ (∀ u, untagged text style ≠ .text u) ∧
      (∀ c, untagged text style ≠ .char c) ∧ ∀ entries, untagged text style ≠ .table entries := by
  unfold untagged
  split
  · exact Schema.value_cases (String.ofList text)
  · exact .inl rfl

/-- The form that a text is written in. -/
inductive Write.Form (cs : List Char) : List Char → Prop
  | literal (h : cs.contains '\n') (hplain : isPlain (flat cs)) : Form cs (literal cs)
  | loneMark (h : isLoneMark cs) : Form cs ('\x27' :: cs ++ ['\x27', '\n'])
  | quoted (h : isPlain cs = false) : Form cs (quote cs ++ ['\n'])
  | folded (h : isPlain cs) (hlong : foldLength < (String.ofList cs).utf8ByteSize) :
    Form cs (folded cs)
  | plain (h : isPlain cs) (hshort : (String.ofList cs).utf8ByteSize ≤ foldLength) :
    Form cs (cs ++ ['\n'])

namespace Write

variable {cs written : List Char}

theorem isPlain_of_contains (h : cs.contains '\n') : isPlain cs = false := by
  cases hplain : isPlain cs with
  | false => rfl
  | true => exact absurd (by simpa using h) ((plain_of_isPlain hplain).not_mem (by decide))

theorem isBare_of_isPlain (h : isPlain cs) : isBare cs := by
  rw [isBare, if_neg]
  · exact h
  · intro hfeed
    rw [isPlain_of_contains hfeed] at h
    contradiction

theorem form (cs : List Char) : Form cs (scalar cs) := by
  unfold scalar
  split
  · next hfeed =>
    dsimp only
    split
    · next hflat => exact .literal hfeed hflat
    · exact .quoted (isPlain_of_contains hfeed)
  · split
    · next hlone => exact .loneMark hlone
    · split
      · next hplain => exact .quoted (by simpa using hplain)
      · next hplain =>
        have hplain : isPlain cs := by simpa using hplain
        split
        · next hlong => exact .folded hplain hlong
        · next hshort => exact .plain hplain (Nat.le_of_not_lt hshort)

theorem mem_block (layout : BlockScalar.Layout) (chomping : BlockScalar.Chomping)
    {v : List Char} {c : Char}
    (h : c ∈ layout.indicator :: (chomping.sign ++ '\n' :: (margin ++ (body v ++ ['\n'])))) :
    c ∈ blockMarks ∨ c ∈ v := by
  have hindicator : layout.indicator ∈ blockMarks := by cases layout <;> decide
  have hsign : ∀ d ∈ chomping.sign, d ∈ blockMarks := by
    cases chomping <;> simp [BlockScalar.Chomping.sign, blockMarks]
  have hmargin : ∀ d ∈ margin, d ∈ blockMarks := by simp [margin, blockMarks]
  have hfeed : '\n' ∈ blockMarks := by decide
  simp only [List.mem_cons, List.mem_append, List.not_mem_nil, or_false] at h
  rcases h with rfl | hc | rfl | hc | hc | rfl
  · exact .inl hindicator
  · exact .inl (hsign c hc)
  · exact .inl hfeed
  · exact .inl (hmargin c hc)
  · rcases mem_body hc with rfl | hc
    · exact .inl (by decide)
    · exact .inr hc
  · exact .inl hfeed

/-- A written text has no characters but its own ones, printable ones and line feeds. -/
theorem Form.mem (h : Form cs written) {c : Char} (hc : c ∈ written) :
    IsLaid c ∧ (c = '\n' ∨ IsPrintable c ∨ c ∈ cs) := by
  have hfeed : IsLaid '\n' ∧ ('\n' = '\n' ∨ IsPrintable '\n' ∨ '\n' ∈ cs) :=
    ⟨.inl rfl, .inl rfl⟩
  have hprintable {d : Char} (hd : IsPrintable d) :
      IsLaid d ∧ (d = '\n' ∨ IsPrintable d ∨ d ∈ cs) :=
    ⟨.of_isInline hd.isInline, .inr (.inl hd)⟩
  have hquote : IsPrintable '\x22' := by decide
  have hmark (hc : c ∈ blockMarks) : IsLaid c ∧ (c = '\n' ∨ IsPrintable c ∨ c ∈ cs) := by
    have hmarks : ∀ d ∈ blockMarks, d = '\n' ∨ IsPrintable d := by
      simpa using List.all_eq_true.1
        (show blockMarks.all fun d => d == '\n' || decide (IsPrintable d) by decide)
    rcases hmarks c hc with rfl | hc
    · exact hfeed
    · exact hprintable hc
  cases h with
  | literal hcontains hplain =>
    rw [BlockScalar.literal_eq] at hc
    rcases mem_block _ _ hc with hc | hc
    · exact hmark hc
    · exact ⟨(plain_of_isPlain hplain).isLaid c (mem_unended hc), .inr (.inr (mem_unended hc))⟩
  | loneMark hlone =>
    have hmarks : ∀ d ∈ '\x27' :: cs ++ ['\x27'], IsPrintable d := by
      simp only [isLoneMark, Bool.or_eq_true, beq_iff_eq] at hlone
      rcases hlone with (rfl | rfl) | rfl <;> exact isPrintable_of_all (by decide)
    rcases List.mem_append.1 (show c ∈ '\x27' :: cs ++ ['\x27'] ++ ['\n'] by simpa using hc)
      with hc | hc
    · exact hprintable (hmarks c hc)
    · obtain rfl := List.mem_singleton.1 hc
      exact hfeed
  | quoted hplain =>
    simp only [quote, List.mem_append, List.mem_cons, List.mem_flatMap, List.not_mem_nil,
      or_false] at hc
    rcases hc with ((rfl | ⟨d, hd, hc⟩) | rfl) | rfl
    · exact hprintable hquote
    · obtain ⟨hinline, hc | rfl⟩ := (escaped d).mem hc
      · exact hprintable hc
      · exact ⟨.of_isInline hinline, .inr (.inr hd)⟩
    · exact hprintable hquote
    · exact hfeed
  | folded hplain hlong =>
    have hplain := plain_of_isPlain hplain
    rw [folded_eq (hplain.not_mem (by decide))] at hc
    rcases mem_block _ _ hc with hc | hc
    · exact hmark hc
    · rcases mem_intercalate hc with rfl | hc
      · exact hfeed
      · exact ⟨.inr (hplain.control hc), .inr (.inr hc)⟩
  | plain hplain hshort =>
    rcases List.mem_append.1 hc with hc | hc
    · exact ⟨.inr ((plain_of_isPlain hplain).control hc), .inr (.inr hc)⟩
    · obtain rfl := List.mem_singleton.1 hc
      exact hfeed

/-- The two last places of the basic plane, which no form hides and no document may contain. -/
def isNoncharacter (c : Char) : Bool := c == '\ufffe' || c == '\uffff'

theorem isNoncharacter_eq_false {c : Char} (h : IsPrintable c) : isNoncharacter c = false := by
  rw [Bool.eq_false_iff]
  intro hlast
  simp only [isNoncharacter, Bool.or_eq_true, beq_iff_eq] at hlast
  rcases hlast with rfl | rfl <;> exact absurd h (by decide)

theorem escape_of_isNoncharacter {c : Char} (h : isNoncharacter c) : escape c = [c] := by
  simp only [isNoncharacter, Bool.or_eq_true, beq_iff_eq] at h
  rcases h with rfl | rfl <;> decide

theorem Broken.mem_line {text : List Char} {lines : List (List Char)} (h : Broken text lines)
    {c : Char} (hc : c ∈ text) (hblank : Text.isBlank c = false) : ∃ l ∈ lines, c ∈ l := by
  induction h with
  | last l => exact ⟨l, List.mem_singleton_self l, hc⟩
  | cons l hb hrest hbroken ih =>
    rcases List.mem_append.1 hc with hc | hc
    · exact ⟨l, List.mem_cons_self, hc⟩
    · rcases List.mem_cons.1 hc with rfl | hc
      · rw [hb] at hblank
        contradiction
      · obtain ⟨l', hl', hmem⟩ := ih hc
        exact ⟨l', List.mem_cons_of_mem l hl', hmem⟩

theorem Form.mem_of_isNoncharacter (h : Form cs written) {c : Char} (hc : c ∈ cs)
    (hlast : isNoncharacter c) : c ∈ written := by
  have hne {d : Char} (hd : isNoncharacter d = false) : c ≠ d := by
    rintro rfl
    rw [hd] at hlast
    contradiction
  cases h with
  | literal hfeed hplain =>
    have hbody := mem_body_of_mem (mem_unended_of_mem hc (hne (by decide)))
    simp [BlockScalar.literal_eq, hbody]
  | loneMark hlone =>
    simp [hc]
  | quoted hplain =>
    have hmem : c ∈ cs.flatMap escape :=
      List.mem_flatMap.2 ⟨c, hc, by simp [escape_of_isNoncharacter hlast]⟩
    simp [quote, hmem]
  | folded hplain hlong =>
    have hblank : Text.isBlank c = false := by
      simp only [isNoncharacter, Bool.or_eq_true, beq_iff_eq] at hlast
      rcases hlast with rfl | rfl <;> decide
    obtain ⟨l, hl, hmem⟩ := (broken_fold cs).mem_line hc hblank
    have hline : c ∈ (fold [] 0 none cs).flatMap line :=
      List.mem_flatMap.2 ⟨l, hl, by simp [line, hmem]⟩
    exact List.mem_cons_of_mem _ (List.mem_cons_of_mem _ (List.mem_cons_of_mem _ hline))
  | plain hplain hshort => exact List.mem_append_left _ hc

end Write

/-- A text is read in one step from the form that it is written in, and it is read back if it is a
kept one. -/
theorem exists_readsAs {cs written : List Char} (h : Write.Form cs written)
    (hheld : Write.isBare cs → Write.Held cs) :
    ∃ text style, ReadsAs written text style ∧ (text = cs ↔ Write.Kept cs) ∧
      (style = .plain → Write.isPlain cs) ∧ (text = cs ∨ ∀ c ∈ text, isSeparator c = false) := by
  cases h with
  | literal hfeed hplain =>
    have hbare : Write.isBare cs := by rwa [Write.isBare, if_pos hfeed]
    have hkept := Write.kept_of_not_isPlain (Write.isPlain_of_contains hfeed) hheld
    exact ⟨cs, .block, readsAs_literal (Write.plain_of_isPlain hplain) (hheld hbare),
      by simp [hkept], by simp, .inl rfl⟩
  | loneMark hlone =>
    have hkept : Write.Kept cs := by
      simp only [Write.isLoneMark, Bool.or_eq_true, beq_iff_eq] at hlone
      rcases hlone with (rfl | rfl) | rfl <;>
        exact ⟨fun _ _ => by decide, fun _ hlong => absurd hlong (by decide), hheld⟩
    exact ⟨cs, .quoted, readsAs_isLoneMark hlone, by simp [hkept], by simp, .inl rfl⟩
  | quoted hplain =>
    have hkept := Write.kept_of_not_isPlain hplain hheld
    exact ⟨cs, .quoted, readsAs_quote cs, by simp [hkept], by simp, .inl rfl⟩
  | folded hplain hlong =>
    have hbare := Write.isBare_of_isPlain hplain
    have hplains := Write.plain_of_isPlain hplain
    obtain ⟨text, hread, htext, hseparator⟩ :=
      readsAs_folded hplains ((hheld hbare).separator hplains)
    have hkept : ([' '].intercalate (Write.fold [] 0 none cs) = cs ∧
        [] ∉ Write.fold [] 0 none cs) ↔ Write.Kept cs :=
      ⟨fun hbreaks =>
        ⟨fun _ hshort => absurd hlong (Nat.not_lt_of_le hshort), fun _ _ => hbreaks, hheld⟩,
        fun hkept => hkept.long hplain hlong⟩
    exact ⟨text, .block, hread, htext.trans hkept, by simp, .inr hseparator⟩
  | plain hplain hshort =>
    have hbare := Write.isBare_of_isPlain hplain
    have hplains := Write.plain_of_isPlain hplain
    have hseparator := (hheld hbare).separator hplains
    have hread := readsAs_isPlain hplains hseparator
    have hkept : cs.getLast? ≠ some ' ' ↔ Write.Kept cs :=
      ⟨fun hlast =>
        ⟨fun _ _ => hlast, fun _ hlong => absurd hlong (Nat.not_lt_of_le hshort), hheld⟩,
        fun hkept => hkept.short hplain hshort⟩
    refine ⟨_, .plain, hread, trimEnd_eq_iff.trans hkept, fun _ => hplain, .inr fun c hc => ?_⟩
    refine hseparator c ?_
    rw [← trimEnd_append ' ' cs]
    exact List.mem_append_left _ hc

/-- The scalar that a text is written as stands for the text exactly if it is a kept one. -/
theorem readsAs_scalar (cs : List Char) (hheld : Write.isBare cs → Write.Held cs) :
    ∃ text style, ReadsAs (Write.scalar cs) text style ∧
      (untagged text style = .text (String.ofList cs) ↔ Write.Kept cs) := by
  obtain ⟨text, style, hread, htext, hstyle, -⟩ := exists_readsAs (Write.form cs) hheld
  refine ⟨text, style, hread, fun h => ?_, fun hkept => ?_⟩
  · rcases untagged_cases text style with hv | ⟨hv, -⟩
    · exact htext.1 (String.ofList_injective (Value.text.inj (hv.symm.trans h)))
    · exact absurd h (hv _)
  · obtain rfl := htext.2 hkept
    unfold untagged
    split
    · next hplain => exact Schema.value_of_isPlain (hstyle hplain)
    · rfl

end Planimeter.Yaml
