import Planimeter.Proofs.Yaml.Walls
import Planimeter.Proofs.Yaml.Weights
/-!
# What plain scalars lose

A separator of lines in a plain scalar ends its line, and no indentation is written behind it, so
that the scalar ends there unless spaces follow, and those it loses.
-/
namespace Planimeter.Yaml

namespace PlainScalar

variable {ctx : PlainContext} {gap : Option Gap} {m : Mark} {cs text : List Char}

theorem foldBreaks_eq {breaks : List Char} (h : '\n' ∉ breaks) : foldBreaks breaks = breaks := by
  unfold foldBreaks
  split
  · simp at h
  · simp at h
  · rfl

/-- Without line feeds a gap stands for no more than it is made of. -/
theorem size_gap_le (h : '\n' ∉ gapChars gap) :
    total charSize ((gap.map Gap.text).getD []) ≤ total charSize (gapChars gap) := by
  cases gap with
  | none => exact Nat.le_refl _
  | some gap =>
    cases gap with
    | blanks run => simp [gapChars, Gap.text, Gap.chars]
    | folded breaks =>
      have h : '\n' ∉ breaks.reverse := by simpa [gapChars, Gap.chars] using h
      simp [gapChars, Gap.text, Gap.chars, foldBreaks_eq h]
    | joined breaks => simp [gapChars, Gap.text, Gap.chars]

theorem mem_addBlank {c d : Char}
    (h : d ∈ gapChars (some ((gap.getD (.blanks [])).addBlank c))) : d = c ∨ d ∈ gapChars gap := by
  cases gap with
  | none => exact List.mem_cons.1 h
  | some gap =>
    cases gap with
    | blanks run => exact List.mem_cons.1 h
    | folded breaks => exact .inr h
    | joined breaks => exact .inr h

theorem mem_addBreak {c d : Char}
    (h : d ∈ gapChars (some ((gap.getD (.blanks [])).addBreak c))) : d = c ∨ d ∈ gapChars gap := by
  cases gap with
  | none => exact .inl (List.mem_singleton.1 h)
  | some gap =>
    cases gap with
    | blanks run => exact .inl (List.mem_singleton.1 h)
    | folded breaks => exact List.mem_cons.1 h
    | joined breaks => exact List.mem_cons.1 h

theorem lineFeed_addBlank (h : '\n' ∉ gapChars gap) :
    '\n' ∉ gapChars (some ((gap.getD (.blanks [])).addBlank ' ')) :=
  fun hmem => (mem_addBlank hmem).elim (by decide) h

theorem lineFeed_addBreak {c : Char} (hc : c ≠ '\n') (h : '\n' ∉ gapChars gap) :
    '\n' ∉ gapChars (some ((gap.getD (.blanks [])).addBreak c)) :=
  fun hmem => (mem_addBreak hmem).elim hc.symm h

/-- What is read next stands behind a separator. -/
structure Crossed (ctx : PlainContext) (gap : Option Gap) (m : Mark) : Prop where
  column : m.column < ctx.indent
  crossesLine : ∃ g ∈ gap, g.crossesLine
  gapChars : gapChars gap ≠ []

namespace Crossed

/-- Spaces behind a separator get lost. -/
theorem gapChars_addBlank (h : Crossed ctx gap m) (c : Char) :
    PlainScalar.gapChars (some ((gap.getD (.blanks [])).addBlank c)) =
      PlainScalar.gapChars gap := by
  obtain ⟨g, hg, hcross⟩ := h.crossesLine
  obtain rfl := hg
  cases g with
  | blanks run => contradiction
  | folded breaks => rfl
  | joined breaks => rfl

theorem addBreak {c : Char} (hc : isBreak c) (hindent : 0 < ctx.indent) (gap : Option Gap)
    (m : Mark) : Crossed ctx (some ((gap.getD (.blanks [])).addBreak c)) (m.past c) := by
  refine ⟨by rwa [Mark.past_break hc], ⟨_, rfl, ?_⟩, ?_⟩
  · cases gap.getD (.blanks []) <;> rfl
  · cases gap.getD (.blanks []) <;> simp [PlainScalar.gapChars, Gap.addBreak, Gap.chars]

end Crossed

/-- The text that is read is smaller than a bound by what is lost. -/
abbrev Sizes (lost bound : Nat) (r : Except SyntaxError (PlainScalar × Source)) : Prop :=
  Yields (fun x => total charSize x.1.text + lost ≤ bound) r

theorem Sizes.of_le {lost lost' bound bound' : Nat}
    {r : Except SyntaxError (PlainScalar × Source)} (h : Sizes lost bound r)
    (hle : bound + lost' ≤ bound' + lost) : Sizes lost' bound' r :=
  Yields.mono h fun _ hx => by omega

section

variable {indent : Nat} {rest : List Char} (hctx : ctx.inFlow = false) (hrest : GoesOn rest)

include hctx hrest

/-- A scalar ends before a line that is indented less. -/
theorem scan_below {g : Gap} (hg : g.crossesLine) (n : Nat) (hcolumn : m.column + n < ctx.indent) :
    scan ctx (some g) text (Source.place m (List.replicate n ' ' ++ rest)) =
      .ok (⟨text.reverse, true⟩, Source.place (m.after (List.replicate n ' ')) rest) := by
  induction n generalizing m with
  | zero =>
    obtain ⟨c, source, hplace, hc⟩ := hrest.exists_glyph m
    have hlow : m.column < ctx.indent := hcolumn
    change scan ctx (some g) text (Source.place m rest) = .ok (_, Source.place m rest)
    rw [hplace]
    simp [scan, hc, hctx, hlow, ofReversed, hg]
  | succ n ih =>
    have hblank : g.addBlank ' ' = g := by
      cases g with
      | blanks run => contradiction
      | folded breaks => rfl
      | joined breaks => rfl
    rw [List.replicate_succ, List.cons_append, Source.place_inline isInline_space, scan_space]
    change scan ctx (some (g.addBlank ' ')) _ _ = _
    rw [hblank, ih (by simp; omega)]
    rfl

/-- The line feed at the end. -/
theorem size_scan_end (hindent : indent < ctx.indent) {lost : Nat}
    (hlost : lost = 0 ∨ lost = 1 ∧ Crossed ctx gap m) :
    Sizes lost (total charSize text + total charSize (gapChars gap))
      (scan ctx gap text (Source.place m ('\n' :: (List.replicate indent ' ' ++ rest)))) := by
  have hcross : ((gap.getD (.blanks [])).addBreak '\n').crossesLine := by
    cases gap.getD (.blanks []) <;> rfl
  rw [Source.place_lineFeed, scan_lineFeed,
    scan_below hctx hrest hcross indent (by simpa [Mark.nextLine] using hindent)]
  refine Yields.ok ?_
  rcases hlost with rfl | ⟨rfl, hcrossed⟩
  · simp
  · have hpos := total_charSize_pos hcrossed.gapChars
    simp
    omega

/-- Behind each character the size of what is read so far is bounded by that of what was passed. By
induction on the text. -/
theorem size_scan (hindent : indent < ctx.indent) (hcs : ∀ c ∈ cs, Write.isControl c = false)
    (hgap : '\n' ∉ gapChars gap) {lost : Nat}
    (hlost : lost = 0 ∨ lost = 1 ∧ ((∃ c ∈ cs, isSeparator c) ∨ Crossed ctx gap m)) :
    Sizes lost (total charSize text + total charSize (gapChars gap) + total charSize cs)
      (scan ctx gap text (Source.place m (cs ++ '\n' :: (List.replicate indent ' ' ++ rest)))) := by
  induction cs generalizing gap text m lost with
  | nil => exact size_scan_end hctx hrest hindent (by simpa using hlost)
  | cons c cs ih =>
    obtain ⟨hc, hcontrols⟩ := List.forall_mem_cons.1 hcs
    have hlaid : IsLaid c := .inr hc
    have hfeed : c ≠ '\n' := by
      rintro rfl
      contradiction
    have hsize := charSize_of_ne hfeed
    have hone : lost ≤ 1 := by omega
    have hcharge : total charSize (c :: cs) = 2 + total charSize cs := by rw [total_cons, hsize]
    have hlater (hc : isSeparator c = false) : (∃ d ∈ c :: cs, isSeparator d) →
        ∃ d ∈ cs, isSeparator d := by
      simp [hc]
    rw [List.cons_append, Source.place_laid hlaid]
    by_cases hspace : c = ' '
    · subst hspace
      have hblank := total_addBlank (w := charSize) gap ' '
      have hnext {lost : Nat} := @ih (some ((gap.getD (.blanks [])).addBlank ' ')) (m.past ' ') text
        hcontrols (lineFeed_addBlank hgap) lost
      rw [scan_space]
      rcases hlost with rfl | ⟨rfl, hseparators | hcrossed⟩
      · refine (hnext (.inl rfl)).of_le ?_
        simp at hblank
        omega
      · refine (hnext (.inr ⟨rfl, .inl (hlater rfl hseparators)⟩)).of_le ?_
        simp at hblank
        omega
      · refine (hnext (.inl rfl)).of_le ?_
        rw [hcrossed.gapChars_addBlank]
        omega
    · have hblank : isBlank c = false := by
        have htab : c ≠ '\t' := hlaid.ne_control (by decide) (by decide)
        simp [isBlank, hspace, htab]
      rw [scan]
      simp only [hblank, Bool.false_eq_true, if_false]
      by_cases hbreak : isBreak c
      · have hcrossed := Crossed.addBreak hbreak (Nat.zero_lt_of_lt hindent) gap m
        have hadd := total_addBreak (w := charSize) gap c
        simp only [hbreak, if_true]
        refine (ih hcontrols (lineFeed_addBreak hfeed hgap)
          (hlost.imp_right (And.imp_right fun _ => .inr hcrossed))).of_le ?_
        omega
      · have hend (crossedLine : Bool) (rest : Source) : Sizes lost
            (total charSize text + total charSize (gapChars gap) + total charSize (c :: cs))
            (.ok (⟨text.reverse, crossedLine⟩, rest)) := Yields.ok (by simp; omega)
        simp only [hbreak, Bool.false_eq_true, if_false]
        refine Yields.ite (fun _ => hend _ _) fun hon => Yields.ite (fun _ => yields_failAt)
          fun _ => Yields.ite (fun _ => hend _ _) fun _ => ?_
        have hnext : lost = 0 ∨ lost = 1 ∧ ∃ d ∈ cs, isSeparator d := by
          refine hlost.imp_right (And.imp_right ?_)
          rintro (hseparators | ⟨hcolumn, ⟨g, hg, -⟩, -⟩)
          · refine hlater ?_ hseparators
            rw [hlaid.isSeparator_iff hfeed]
            simpa using hbreak
          · obtain rfl := hg
            simp [hctx, hcolumn] at hon
        have htext := size_gap_le hgap
        have hnone : total charSize (gapChars none) = 0 := rfl
        refine (ih hcontrols (by simp [gapChars])
          (hnext.imp_right (And.imp_right .inl))).of_le ?_
        rw [hnone, total_cons, total_append, total_reverse, hsize]
        omega

omit hctx in
/-- A separator in a plain scalar makes what is read smaller than what was written. -/
theorem size_read {margin : Nat} (hindent : indent < margin)
    (hcs : ∀ c ∈ cs, Write.isControl c = false) (hseparators : ∃ c ∈ cs, isSeparator c) (m : Mark) :
    Sizes 1 (total charSize cs)
      (read false margin
        (Source.place m (cs ++ '\n' :: (List.replicate indent ' ' ++ rest)))) := by
  have hnone : '\n' ∉ gapChars none := List.not_mem_nil
  have hscan : Sizes 1 (total charSize [] + total charSize (gapChars none) + total charSize cs)
      (read false margin
        (Source.place m (cs ++ '\n' :: (List.replicate indent ' ' ++ rest)))) :=
    size_scan rfl hrest hindent hcs hnone (.inr ⟨rfl, .inl hseparators⟩)
  exact hscan.of_le (by simp [gapChars])

end

/-- What a plain scalar leaves is a later part of the text. -/
theorem leaves_scan (ctx : PlainContext) (gap : Option Gap) (text : List Char) (s : Source) :
    Yields (fun x : PlainScalar × Source => x.2 <:+ s) (scan ctx gap text s) := by
  induction s generalizing gap text with
  | nil => exact Yields.ok (List.suffix_refl _)
  | cons g rest ih =>
    have hmore (gap : Option Gap) (text : List Char) :
        Yields (fun x : PlainScalar × Source => x.2 <:+ g :: rest) (scan ctx gap text rest) :=
      Yields.mono (ih gap text) fun _ hx => hx.trans (List.suffix_cons g rest)
    have hend (scalar : PlainScalar) : Yields (fun x : PlainScalar × Source => x.2 <:+ g :: rest)
        (.ok (scalar, g :: rest) : Except SyntaxError (PlainScalar × Source)) :=
      Yields.ok (List.suffix_refl _)
    rw [scan]
    dsimp only
    exact Yields.ite (fun _ => Yields.ite (fun _ => yields_failAt) fun _ => hmore _ _) fun _ =>
      Yields.ite (fun _ => hmore _ _) fun _ => Yields.ite (fun _ => hend _) fun _ =>
        Yields.ite (fun _ => yields_failAt) fun _ => Yields.ite (fun _ => hend _) fun _ => hmore _ _

/-- A colon that cannot be that of a key stands in front. -/
def StrayColon (s : Source) : Prop :=
  ∃ (m : Mark) (rest : Source), s = ⟨':', m⟩ :: rest ∧ isGap rest.front

/-- The first separator is read unless a colon ends the scalar before it. -/
abbrev Passes (tail : List Char) (r : Except SyntaxError (PlainScalar × Source)) : Prop :=
  Yields (fun x => x.1.crossedLine = false ∧ StrayColon x.2 ∨ ∃ m', x.2 <:+ Source.place m' tail) r

theorem passes_scan (hctx : ctx.inFlow = false) {front tail : List Char} {d : Char}
    (hfront : ∀ c ∈ front, IsInline c) (hcomment : '#' ∉ front) (hd : IsLaid d)
    (hseparator : isSeparator d) (hcolumn : ctx.indent ≤ m.column ∧ 0 < m.column)
    (run text : List Char) :
    Passes tail (scan ctx (pending run) text (Source.place m (front ++ d :: tail))) := by
  have hfeed : d ≠ '\n' := by
    rintro rfl
    contradiction
  have hbreak : isBreak d := by rwa [← hd.isSeparator_iff hfeed]
  induction front generalizing run text m with
  | nil =>
    have hblank : isBlank d = false := by
      have htab : d ≠ '\t' := hd.ne_control (by decide) (by decide)
      have hspace : d ≠ ' ' := by
        rintro rfl
        contradiction
      simp [isBlank, hspace, htab]
    rw [List.nil_append, Source.place_laid hd, scan]
    simp only [hblank, hbreak, Bool.false_eq_true, if_false, if_true]
    exact Yields.mono (leaves_scan _ _ _ _) fun _ hx => .inr ⟨_, hx⟩
  | cons c front ih =>
    obtain ⟨hc, hinline⟩ := List.forall_mem_cons.1 hfront
    rw [List.mem_cons, not_or] at hcomment
    have hnext : ctx.indent ≤ (m.next c).column ∧ 0 < (m.next c).column := by
      simp only [Mark.next_column]
      omega
    rw [List.cons_append, Source.place_inline hc]
    by_cases hspace : c = ' '
    · subst hspace
      rw [scan_space, addBlank_pending]
      exact ih hinline hcomment.2 hnext _ _
    · have hmark := Source.isDocumentMark_of_column hcolumn.2 c
        (Source.place (m.next c) (front ++ d :: tail))
      have hindent : (decide (m.column < ctx.indent)) = false := by simpa using hcolumn.1
      have hcomment' : (c == '#') = false := by simpa using Ne.symm hcomment.1
      rw [scan]
      simp only [hc.isBlank hspace, hc.isBreak, hc.isFinish, hctx, hindent, hmark, hcomment',
        Bool.false_eq_true, if_false, Bool.and_false, Bool.or_self, Bool.false_and]
      refine Yields.ite (fun hends => Yields.ok (.inl ⟨?_, ?_⟩)) fun _ =>
        ih hinline hcomment.2 hnext [] _
      · cases run <;> rfl
      · have hcolon : c = ':' ∧
            isGap (Source.front (Source.place (m.next c) (front ++ d :: tail))) := by
          simpa [endsWord] using hends
        obtain ⟨rfl, hgap⟩ := hcolon
        exact ⟨m, _, rfl, hgap⟩

theorem passes_read {margin : Nat} {front tail : List Char} {d : Char}
    (hfront : ∀ c ∈ front, IsInline c) (hcomment : '#' ∉ front) (hd : IsLaid d)
    (hseparator : isSeparator d) (hcolumn : margin ≤ m.column ∧ 0 < m.column) :
    Passes tail (read false margin (Source.place m (front ++ d :: tail))) :=
  passes_scan rfl hfront hcomment hd hseparator hcolumn [] []

/-- A plain scalar ends above the next line, or behind its indentation. -/
theorem stops_read {margin indent : Nat} {p : Source} {rest : List Char} (hindent : indent < margin)
    (hrest : GoesOn rest) (hcolumn : m.column = 0) (hp : p.Lined) (hne : p ≠ []) :
    BlockScalar.Stops p m indent rest
      (read false margin (p ++ Source.place m (List.replicate indent ' ' ++ rest))) := by
  refine scan_leftOf (fun gap text hcross => ?_) hp none [] fun h => absurd h hne
  rw [scan_below rfl hrest hcross indent (by rwa [hcolumn, Nat.zero_add])]
  exact Yields.ok rfl

end PlainScalar

end Planimeter.Yaml
