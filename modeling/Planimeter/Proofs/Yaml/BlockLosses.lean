import Planimeter.Proofs.Yaml.BlockScalars
import Planimeter.Proofs.Yaml.Weights
/-!
# What unquoted scalars lose

A separator of lines in an unquoted scalar ends its line, and no indentation is written behind it.
Unless an empty line follows, what stands there is either not read at all or loses the spaces in
front of it. The size of what is read is compared with that of the text as it was written, and what
has been read but is not in the text yet is counted in advance.
-/
namespace Planimeter.Yaml

namespace BlockScalar

/-- The size that a character of a block scalar may have in the text: the line feeds of a folded one
may become spaces. -/
def Layout.charSize (layout : Layout) (c : Char) : Nat :=
  if layout = .folded then 2 else Yaml.charSize c

theorem Layout.charSize_of_ne {c : Char} (h : c ≠ '\n') (layout : Layout) :
    layout.charSize c = 2 := by
  unfold charSize
  split
  · rfl
  · exact Yaml.charSize_of_ne h

theorem Layout.charSize_le (layout : Layout) (c : Char) :
    Yaml.charSize c ≤ layout.charSize c := by
  unfold charSize Yaml.charSize
  split <;> split <;> omega

theorem Layout.charSize_lineFeed (layout : Layout) :
    layout.charSize '\n' = 1 + if layout = .folded then 1 else 0 := by
  unfold charSize
  split <;> rfl

/-- The size that a pause may have in the text. -/
def Pause.size (layout : Layout) (p : Pause) : Nat :=
  total charSize (p.ending ++ p.empty) + if layout = .folded ∧ p.ending = ['\n'] then 1 else 0

def Stage.size (layout : Layout) : Stage → Nat
  | line _ => 0
  | pause p => p.size layout

/-- The size that the line feed at the end may have in the text. -/
def Chomping.size : Chomping → Nat
  | strip => 0
  | _ => 1

namespace Pause

variable {layout : Layout} {p : Pause}

theorem size_text_le (layout : Layout) (first : Char) (p : Pause) :
    total charSize (p.text layout first) ≤ p.size layout := by
  unfold text size
  dsimp only
  by_cases h : layout = .folded ∧ p.ending = ['\n'] ∧ !p.afterBlank ∧ !isBlank first
  · have hfolded : layout = .folded ∧ p.ending = ['\n'] := ⟨h.1, h.2.1⟩
    rw [if_pos h, if_pos hfolded, h.2.1]
    split <;> simp
    omega
  · rw [if_neg h]
    simp

theorem size_chomp_le (layout : Layout) (chomping : Chomping) (p : Pause) :
    total charSize (p.chomp chomping) ≤ p.size layout := by
  unfold size
  cases chomping <;> simp [chomp]
  omega

/-- One more empty line. -/
theorem size_addEmpty (layout : Layout) (c : Char) :
    size layout { p with empty := c :: p.empty } = p.size layout + charSize c := by
  simp [size]
  omega

/-- The break that ends a line. -/
theorem size_ending (c : Char) (blank : Bool) :
    size layout ⟨[c], [], blank⟩ = layout.charSize c := by
  by_cases hc : c = '\n'
  · simp [size, hc, layout.charSize_lineFeed]
  · simp [size, hc, layout.charSize_of_ne, charSize_of_ne hc]

end Pause

/-- What stands behind a separator is not held: it begins with no break, or with one that is folded,
or there is nothing and the line feed at the end is not kept. -/
def Loosens (layout : Layout) (chomping : Chomping) : List Char → Prop
  | [] => chomping ≠ .keep
  | c :: _ => layout = .folded ∨ isBreak c = false

/-- A separator of the text is not held. -/
inductive Loses (layout : Layout) (chomping : Chomping) : List Char → Prop
  | here {c : Char} {cs : List Char} (hc : isSeparator c) (h : Loosens layout chomping cs) :
    Loses layout chomping (c :: cs)
  | later {c : Char} {cs : List Char} (h : Loses layout chomping cs) :
    Loses layout chomping (c :: cs)

/-- What is read next stands behind a separator that is not held. -/
structure Loose (r : Rules) (stage : Stage) (m : Mark) (cs : List Char) : Prop where
  column : m.column = 0
  pause : ∃ p, stage = .pause p ∧ p.ending ++ p.empty ≠ []
  loosens : Loosens r.layout r.chomping cs

variable {r : Rules} {stage : Stage} {text cs : List Char} {m : Mark}

theorem Loses.tail {layout : Layout} {chomping : Chomping} {c : Char} {cs : List Char}
    (h : Loses layout chomping (c :: cs)) (hc : isSeparator c = false) :
    Loses layout chomping cs := by
  cases h with
  | here h _ => simp [hc] at h
  | later h => exact h

/-- A character adds no more to the size than it may have. -/
theorem size_add_le (layout : Layout) (s : Stage × List Char) (c : Char) :
    total charSize (add layout s c).2 + (add layout s c).1.size layout ≤
      total charSize s.2 + s.1.size layout + layout.charSize c := by
  have hc := layout.charSize_le c
  obtain ⟨stage, text⟩ := s
  by_cases hbreak : isBreak c
  · cases stage with
    | line blank => simp [add_end _ _ _ hbreak, Stage.size, Pause.size_ending]
    | pause p =>
      have hempty := p.size_addEmpty layout c
      simp [add_empty _ _ _ hbreak, Stage.size, hempty]
      omega
  · have hbreak : isBreak c = false := by simpa using hbreak
    cases stage with
    | line blank =>
      simp [add_next _ _ _ hbreak, Stage.size]
      omega
    | pause p =>
      have htext := p.size_text_le layout c
      simp [add_first _ _ _ hbreak, Stage.size]
      omega

/-- A line feed that ends an empty line of a folded scalar stays one. -/
theorem size_add_folded (p : Pause) (text : List Char) :
    total charSize (add .folded (.pause p, text) '\n').2 +
        (add .folded (.pause p, text) '\n').1.size .folded + 1 ≤
      total charSize text + p.size .folded + Layout.folded.charSize '\n' := by
  have hempty := p.size_addEmpty .folded '\n'
  simp [add_empty _ _ _ (show isBreak '\n' from rfl), Stage.size, hempty, Layout.charSize]
  omega

/-- What is read behind a character that stands in its place. -/
theorem loose_add (hfolded : r.layout = .folded → r.chomping = .strip) {c : Char} (hc : IsLaid c)
    (hfeed : c ≠ '\n') (hplace : isBreak c ∨ stage.IsAt r.indent m) (hmargin : 4 ≤ r.indent)
    (h : Loses r.layout r.chomping (c :: cs) ∨ Loose r stage m (c :: cs)) (text : List Char) :
    Loses r.layout r.chomping cs ∨ Loose r (add r.layout (stage, text) c).1 (m.past c) cs := by
  have hseparator := hc.isSeparator_iff hfeed
  have hnext (hbreak : isBreak c) (hloosens : Loosens r.layout r.chomping cs) :
      Loose r (add r.layout (stage, text) c).1 (m.past c) cs := by
    refine ⟨Mark.past_break hbreak m, ?_, hloosens⟩
    cases stage <;> simp [hbreak]
  rcases h with (⟨hc, hloosens⟩ | hloses) | ⟨hcolumn, ⟨p, rfl, -⟩, hloosens⟩
  · exact .inr (hnext (hseparator ▸ hc) hloosens)
  · exact .inl hloses
  · have hbreak : isBreak c := by
      refine hplace.resolve_right fun hplace => ?_
      have hindent : m.column = r.indent := hplace
      omega
    have hlayout : r.layout = .folded := hloosens.resolve_right (by simp [hbreak])
    refine .inr (hnext hbreak ?_)
    cases cs with
    | nil => simp [Loosens, hfolded hlayout]
    | cons d cs => exact .inl hlayout

/-- Spaces in front of the content are passed over; before anything else that is not in its place
the scalar ends. -/
theorem scan_misplaced (p : Pause) (text : List Char) {c : Char} (rest : Source) (hc : IsInline c)
    (hcolumn : m.column ≠ r.indent) :
    c = ' ' ∧ scan r (.pause p) text (⟨c, m⟩ :: rest) = scan r (.pause p) text rest ∨
      scan r (.pause p) text (⟨c, m⟩ :: rest) =
        .ok (text.reverse ++ p.chomp r.chomping, ⟨c, m⟩ :: rest) := by
  have htab : c ≠ '\t' := hc.ne_control (by decide)
  by_cases hspace : m.column < r.indent ∧ c = ' '
  · refine .inl ⟨hspace.2, ?_⟩
    rw [scan]
    simp [hspace]
  · refine .inr ?_
    rw [scan]
    simp [hspace, htab, hc, hcolumn]

/-- The text that is read is smaller than a bound by what is lost. -/
abbrev Sizes (lost bound : Nat) (r : Except SyntaxError (List Char × Source)) : Prop :=
  Yields (fun x => total charSize x.1 + lost ≤ bound) r

theorem Sizes.of_le {lost lost' bound bound' : Nat}
    {r : Except SyntaxError (List Char × Source)} (h : Sizes lost bound r)
    (hle : bound + lost' ≤ bound' + lost) : Sizes lost' bound' r :=
  Yields.mono h fun _ hx => by omega

section

variable {indent : Nat} {rest : List Char} (hindent : indent < r.indent) (hrest : GoesOn rest)

include hindent hrest

/-- The line feed at the end. -/
theorem size_scan_end {lost : Nat} (hlost : lost = 0 ∨ lost = 1 ∧ Loose r stage m []) :
    Sizes lost (total charSize text + stage.size r.layout + r.chomping.size)
      (scan r stage text (Source.place m ('\n' :: (List.replicate indent ' ' ++ rest)))) := by
  rw [Source.place_lineFeed, scan_add rfl (.inl rfl)]
  cases stage with
  | line blank =>
    have hlost : lost = 0 := by
      rcases hlost with rfl | ⟨-, -, ⟨p, hp, -⟩, -⟩
      · rfl
      · nomatch hp
    rw [add_end _ _ _ rfl, scan_end hindent hrest _ _ rfl]
    refine Yields.ok ?_
    cases hchomping : r.chomping <;> simp [Pause.chomp, Chomping.size, hlost]
  | pause p =>
    have hsize : total charSize p.ending + total charSize p.empty ≤ p.size r.layout := by
      simp [Pause.size]
    have hlost : lost = 0 ∨ lost = 1 ∧ r.chomping ≠ .keep ∧
        0 < total charSize p.ending + total charSize p.empty := by
      refine hlost.imp_right (And.imp_right ?_)
      rintro ⟨-, ⟨p', hp, hne⟩, hloosens⟩
      obtain rfl := Stage.pause.inj hp
      exact ⟨hloosens, by simpa using total_charSize_pos hne⟩
    rw [add_empty _ _ _ rfl, scan_end hindent hrest _ _ rfl]
    refine Yields.ok ?_
    cases hchomping : r.chomping <;>
      simp [Pause.chomp, Chomping.size, Stage.size, hchomping] at hlost ⊢ <;> omega

/-- A separator that is not held makes what is read smaller than what was written. By induction on
the text; behind each of its characters the size of what is read so far is bounded by that of what
was passed. -/
theorem size_scan (text : List Char) (hmargin : 4 ≤ r.indent)
    (hfolded : r.layout = .folded → r.chomping = .strip) (hcs : ∀ c ∈ cs, IsLaid c) {lost : Nat}
    (hlost : lost = 0 ∨ lost = 1 ∧ (Loses r.layout r.chomping cs ∨ Loose r stage m cs)) :
    Sizes lost
      (total charSize text + stage.size r.layout + total r.layout.charSize cs + r.chomping.size)
      (scan r stage text
        (Source.place m (Write.body cs ++ '\n' :: (List.replicate indent ' ' ++ rest)))) := by
  induction cs generalizing stage text m lost with
  | nil =>
    refine size_scan_end hindent hrest (hlost.imp_right (And.imp_right ?_))
    rintro (hloses | hloose)
    · nomatch hloses
    · exact hloose
  | cons c cs ih =>
    obtain ⟨hc, hlaid⟩ := List.forall_mem_cons.1 hcs
    have hsize := size_add_le r.layout (stage, text) c
    by_cases hfeed : c = '\n'
    · subst hfeed
      obtain ⟨p, hpause⟩ : ∃ p, (add r.layout (stage, text) '\n').1 = .pause p := by
        cases stage <;> exact ⟨_, rfl⟩
      rw [Write.body_lineFeed, List.cons_append, List.append_assoc, Source.place_lineFeed,
        scan_add rfl (.inl rfl), hpause, scan_margin rfl hmargin]
      rw [hpause] at hsize
      rcases hlost with rfl | ⟨rfl, hloses | ⟨-, ⟨p', rfl, -⟩, hloosens⟩⟩
      · refine (ih _ hlaid (.inl rfl)).of_le ?_
        simp at hsize ⊢
        omega
      · refine (ih _ hlaid (.inr ⟨rfl, .inl (hloses.tail rfl)⟩)).of_le ?_
        simp at hsize ⊢
        omega
      · have hlayout : r.layout = .folded := hloosens.resolve_right (by decide)
        have hstrict := size_add_folded p' text
        rw [hlayout] at hpause
        rw [hpause] at hstrict
        refine (ih _ hlaid (.inl rfl)).of_le ?_
        simp [hlayout, Stage.size] at hstrict ⊢
        omega
    · rw [Write.body_cons hfeed, List.cons_append, Source.place_laid hc]
      by_cases hplace : isBreak c ∨ stage.IsAt r.indent m
      · rw [scan_add hc.isFinish hplace]
        have hnext := hlost.imp_right (And.imp_right fun h =>
          loose_add hfolded hc hfeed hplace hmargin h text)
        refine (ih _ hlaid hnext).of_le ?_
        simp at hsize ⊢
        omega
      · have hone : lost ≤ 1 := by omega
        have hcharSize := r.layout.charSize_of_ne hfeed
        obtain ⟨hbreak, hplace⟩ := not_or.1 hplace
        cases stage with
        | line blank => exact absurd trivial hplace
        | pause p =>
          rcases scan_misplaced p text (Source.place (m.past c) _)
            (hc.isInline (by simpa using hbreak)) hplace with ⟨rfl, hscan⟩ | hscan
          · rw [hscan]
            refine (ih _ hlaid (.inl rfl)).of_le ?_
            simp
            omega
          · have hchomp := p.size_chomp_le r.layout r.chomping
            rw [hscan]
            refine Yields.ok ?_
            simp [Stage.size]
            omega

end

section

variable {layout : Layout} {chomping : Chomping} {start : Mark} {indent : Nat} {rest : List Char}

/-- What is read next stands behind a separator that is not held, in front of the content. -/
structure LeadsLoose (layout : Layout) (chomping : Chomping) (breaks : List Char) (m : Mark)
    (cs : List Char) : Prop where
  column : m.column = 0
  breaks : breaks ≠ []
  loosens : Loosens layout chomping cs

/-- Behind a separator in front of the content. -/
theorem leadsLoose_break (hfolded : layout = .folded → chomping = .strip) {c : Char}
    (hc : isBreak c) {breaks : List Char}
    (h : Loses layout chomping (c :: cs) ∨ ((c :: cs).dropWhile isBreak).head? = some ' ' ∨
      LeadsLoose layout chomping breaks m (c :: cs)) :
    Loses layout chomping cs ∨ (cs.dropWhile isBreak).head? = some ' ' ∨
      LeadsLoose layout chomping (c :: breaks) (m.past c) cs := by
  have hloose (h : Loosens layout chomping cs) :
      LeadsLoose layout chomping (c :: breaks) (m.past c) cs :=
    ⟨Mark.past_break hc m, List.cons_ne_nil c breaks, h⟩
  rcases h with (⟨-, hloosens⟩ | hloses) | hopens | ⟨-, -, hloosens⟩
  · exact .inr (.inr (hloose hloosens))
  · exact .inl hloses
  · exact .inr (.inl (by simpa [hc] using hopens))
  · have hlayout : layout = .folded := hloosens.resolve_right (by simp [hc])
    refine .inr (.inr (hloose ?_))
    cases cs with
    | nil => simp [Loosens, hfolded hlayout]
    | cons d cs => exact .inl hlayout

/-- There is no content, only breaks. -/
theorem size_leadingBreaks_end (hindent : indent < 4) (hrest : GoesOn rest) (breaks : List Char)
    (longest : Nat) (hmargin : 4 ≤ max longest m.column) {lost : Nat}
    (hlost : lost = 0 ∨ lost = 1 ∧ LeadsLoose layout chomping breaks m []) :
    Sizes lost (total charSize breaks + chomping.size)
      ((leadingBreaks start breaks longest (Source.place m
        ('\n' :: (List.replicate indent ' ' ++ rest)))).bind (readOn layout chomping start)) := by
  obtain ⟨c, source, hplace, hc⟩ := hrest.exists_glyph (m.below indent)
  have hcolumn : (m.below indent).column = indent := by simp
  have hlost : lost = 0 ∨ lost = 1 ∧ chomping ≠ .keep ∧ 0 < total charSize breaks :=
    hlost.imp_right (And.imp_right fun h => ⟨h.loosens, total_charSize_pos h.breaks⟩)
  rw [Source.place_lineFeed, leadingBreaks_break rfl, leadingBreaks_spaces, ← Mark.below, hplace,
    leadingBreaks]
  simp only [hc.ne_space, hc.ne_tab, hc.isBreak, Bool.false_eq_true, if_false]
  change Sizes _ _ (readOn _ _ _ _)
  rw [readOn, ← hplace, scan_goesOn (by dsimp only; omega) hrest]
  refine Yields.ok ?_
  cases chomping <;> simp [Pause.chomp, Chomping.size] at hlost ⊢ <;> omega

/-- The content begins. -/
theorem size_leadingBreaks_first (hindent : indent < 4) (hrest : GoesOn rest)
    (hfolded : layout = .folded → chomping = .strip) {c : Char} (hcs : ∀ d ∈ c :: cs, IsLaid d)
    (hspace : c ≠ ' ') (hbreak : isBreak c = false) (breaks : List Char) (longest : Nat)
    (hmargin : 4 ≤ max longest m.column) {lost : Nat}
    (hlost : lost = 0 ∨ lost = 1 ∧
      (Loses layout chomping (c :: cs) ∨ LeadsLoose layout chomping breaks m (c :: cs))) :
    Sizes lost (total charSize breaks + total layout.charSize (c :: cs) + chomping.size)
      ((leadingBreaks start breaks longest (Source.place m
        (Write.body (c :: cs) ++ '\n' :: (List.replicate indent ' ' ++ rest)))).bind
          (readOn layout chomping start)) := by
  have hc : IsLaid c := hcs c List.mem_cons_self
  have hfeed : c ≠ '\n' := by
    rintro rfl
    contradiction
  have htab : c ≠ '\t' := (hc.isInline hbreak).ne_control (by decide)
  have hnext : lost = 0 ∨ lost = 1 ∧ (Loses layout chomping (c :: cs) ∨
      Loose ⟨layout, chomping, max (max (max longest m.column) 3) 1, start⟩
        (.pause ⟨[], breaks, false⟩) m (c :: cs)) :=
    hlost.imp_right (And.imp_right (Or.imp_right fun h =>
      ⟨h.column, ⟨_, rfl, by simpa using h.breaks⟩, h.loosens⟩))
  have hlow : indent < max (max (max longest m.column) 3) 1 := by omega
  have hscan := size_scan (r := ⟨layout, chomping, max (max (max longest m.column) 3) 1,
    start⟩) hlow hrest [] (by dsimp only; omega) hfolded hcs hnext
  rw [Write.body_cons hfeed, List.cons_append, Source.place_laid hc] at hscan ⊢
  rw [leadingBreaks]
  simp only [hspace, htab, hbreak, Bool.false_eq_true, if_false]
  change Sizes _ _ (readOn _ _ _ _)
  simpa [readOn, Stage.size, Pause.size] using hscan

/-- Separators in front of the content get lost like others, and so do spaces. By induction on the
text, up to its first character that is neither a break nor a space. -/
theorem size_leadingBreaks (hindent : indent < 4) (hrest : GoesOn rest)
    (hfolded : layout = .folded → chomping = .strip) (hcs : ∀ c ∈ cs, IsLaid c)
    (breaks : List Char) (longest : Nat) (hmargin : 4 ≤ max longest m.column) {lost : Nat}
    (hlost : lost = 0 ∨ lost = 1 ∧ (Loses layout chomping cs ∨
      (cs.dropWhile isBreak).head? = some ' ' ∨ LeadsLoose layout chomping breaks m cs)) :
    Sizes lost (total charSize breaks + total layout.charSize cs + chomping.size)
      ((leadingBreaks start breaks longest (Source.place m
        (Write.body cs ++ '\n' :: (List.replicate indent ' ' ++ rest)))).bind
          (readOn layout chomping start)) := by
  induction cs generalizing breaks longest m lost with
  | nil =>
    refine size_leadingBreaks_end hindent hrest breaks longest hmargin ?_
    refine hlost.imp_right (And.imp_right ?_)
    rintro (hloses | hopens | hloose)
    · nomatch hloses
    · simp at hopens
    · exact hloose
  | cons c cs ih =>
    obtain ⟨hc, hlaid⟩ := List.forall_mem_cons.1 hcs
    have hone : lost ≤ 1 := by omega
    by_cases hfeed : c = '\n'
    · subst hfeed
      have hsize := layout.charSize_le '\n'
      rw [Write.body_lineFeed, List.cons_append, List.append_assoc, Source.place_lineFeed,
        leadingBreaks_break rfl, leadingBreaks_margin]
      have hnext {lost : Nat} := @ih ((m.nextLine 1).after Write.margin) hlaid ('\n' :: breaks)
        (max longest m.column) (by omega) lost
      rcases hlost with rfl | ⟨rfl, hloses | hopens | ⟨-, -, hloosens⟩⟩
      · refine (hnext (.inl rfl)).of_le ?_
        simp at hsize ⊢
        omega
      · refine (hnext (.inr ⟨rfl, .inl (hloses.tail rfl)⟩)).of_le ?_
        simp at hsize ⊢
        omega
      · refine (hnext (.inr ⟨rfl, .inr (.inl hopens)⟩)).of_le ?_
        simp at hsize ⊢
        omega
      · have hlayout : layout = .folded := hloosens.resolve_right (by decide)
        refine (hnext (.inl rfl)).of_le ?_
        simp [hlayout, Layout.charSize]
        omega
    · have hcharSize := layout.charSize_of_ne hfeed
      have hsize := charSize_of_ne hfeed
      by_cases hbreak : isBreak c
      · rw [Write.body_cons hfeed, List.cons_append, Source.place_laid hc,
          leadingBreaks_break hbreak]
        refine (ih hlaid _ _ (by omega)
          (hlost.imp_right (And.imp_right (leadsLoose_break hfolded hbreak)))).of_le ?_
        simp
        omega
      · have hbreak : isBreak c = false := by simpa using hbreak
        by_cases hspace : c = ' '
        · subst hspace
          rw [Write.body_cons hfeed, List.cons_append, Source.place_laid hc]
          refine (ih (m := m.next ' ') hlaid breaks longest (by simp; omega) (.inl rfl)).of_le ?_
          simp
          omega
        · refine size_leadingBreaks_first hindent hrest hfolded hcs hspace hbreak breaks longest
            hmargin (hlost.imp_right (And.imp_right (Or.imp_right fun h => h.resolve_left ?_)))
          simp [hbreak, hspace]

theorem size_read (layout : Layout) (chomping : Chomping) (hindent : indent < 4)
    (hrest : GoesOn rest) (hfolded : layout = .folded → chomping = .strip)
    (hcs : ∀ c ∈ cs, IsLaid c) {lost : Nat} (hlost : lost = 0 ∨ lost = 1 ∧
      (Loses layout chomping cs ∨ (cs.dropWhile isBreak).head? = some ' ')) (m : Mark) :
    Sizes lost (total layout.charSize cs + chomping.size)
      (read layout (some 2) (Source.place m (layout.indicator :: (chomping.sign ++ '\n' ::
        (Write.margin ++ (Write.body cs ++ '\n' :: (List.replicate indent ' ' ++ rest))))))) := by
  obtain ⟨m', hm', hheader⟩ := header_sign m (m.next layout.indicator) chomping
    (Write.margin ++ (Write.body cs ++ '\n' :: (List.replicate indent ' ' ++ rest)))
  have hleading := @size_leadingBreaks cs (m'.after Write.margin) layout chomping m indent rest
    hindent hrest hfolded hcs [] 0 (by simp [Write.margin]) lost
      (hlost.imp_right (And.imp_right (Or.imp_right .inl)))
  rw [Source.place_inline layout.isInline_indicator, read_eq_readOn hheader, leadingBreaks_margin]
  simpa using hleading

end

/-- What a block scalar leaves is a later part of the text. -/
abbrev Leaves {α : Type} (s : Source) (r : Except SyntaxError (α × Source)) : Prop :=
  Yields (·.2 <:+ s) r

theorem leaves_scan (r : Rules) (stage : Stage) (text : List Char) (s : Source) :
    Leaves s (scan r stage text s) := by
  induction s generalizing stage text with
  | nil => cases stage <;> exact Yields.ok (List.suffix_refl _)
  | cons g rest ih =>
    have hmore (stage : Stage) (text : List Char) : Leaves (g :: rest) (scan r stage text rest) :=
      Yields.mono (ih stage text) fun _ hx => hx.trans (List.suffix_cons g rest)
    have hend (text : List Char) : Leaves (g :: rest) (.ok (text, g :: rest)) :=
      Yields.ok (List.suffix_refl _)
    cases stage with
    | line blank =>
      rw [scan]
      exact Yields.ite (fun _ => hend _) fun _ => Yields.ite (fun _ => hmore _ _) fun _ => hmore _ _
    | pause p =>
      rw [scan]
      exact Yields.ite (fun _ => hmore _ _) fun _ => Yields.ite (fun _ => yields_failAt) fun _ =>
        Yields.ite (fun _ => hmore _ _) fun _ => Yields.ite (fun _ => hmore _ _) fun _ => hend _

theorem leaves_leadingBreaks (start : Mark) (breaks : List Char) (longest : Nat) (s : Source) :
    Leaves s (leadingBreaks start breaks longest s) := by
  induction s generalizing breaks longest with
  | nil => exact Yields.ok (List.suffix_refl _)
  | cons g rest ih =>
    have hmore (breaks : List Char) (longest : Nat) :
        Leaves (g :: rest) (leadingBreaks start breaks longest rest) :=
      Yields.mono (ih breaks longest) fun _ hx => hx.trans (List.suffix_cons g rest)
    rw [leadingBreaks]
    exact Yields.ite (fun _ => hmore _ _) fun _ => Yields.ite (fun _ => yields_failAt) fun _ =>
      Yields.ite (fun _ => hmore _ _) fun _ => Yields.ok (List.suffix_refl _)

theorem leaves_readOn (layout : Layout) (chomping : Chomping) (start : Mark) (breaks : List Char)
    (longest : Nat) (s : Source) : Leaves s
      ((leadingBreaks start breaks longest s).bind (readOn layout chomping start)) :=
  Yields.bind (leaves_leadingBreaks start breaks longest s) fun _ hr =>
    Yields.mono (leaves_scan _ _ _ _) fun _ hx => hx.trans hr

section

variable {layout : Layout} {chomping : Chomping} {start : Mark} {front later tail : List Char}
  {d : Char}

/-- The first separator is read. By induction on the empty lines in front of it. -/
theorem passes_leadingBreaks (hfront : ∀ c ∈ front, IsLaid c ∧ isSeparator c = false)
    (hopens : (front.dropWhile (· == '\n')).head? ≠ some ' ') (hd : IsLaid d)
    (hseparator : isSeparator d) (breaks : List Char) {longest : Nat} (hlongest : longest ≤ 4)
    (hcolumn : m.column = 4) :
    Yields (fun x => ∃ m', x.2 <:+ Source.place m' (Write.body later ++ tail))
      ((leadingBreaks start breaks longest (Source.place m
        (Write.body (front ++ d :: later) ++ tail))).bind (readOn layout chomping start)) := by
  have hfeed : d ≠ '\n' := by
    rintro rfl
    contradiction
  have hbreak : isBreak d := by rwa [← hd.isSeparator_iff hfeed]
  induction front generalizing breaks longest m with
  | nil =>
    rw [List.nil_append, Write.body_cons hfeed, List.cons_append, Source.place_laid hd,
      leadingBreaks_break hbreak]
    exact Yields.mono (leaves_readOn layout chomping start _ _ _) fun _ hx => ⟨_, hx⟩
  | cons c front ih =>
    obtain ⟨hc, hrest⟩ := List.forall_mem_cons.1 hfront
    by_cases hc' : c = '\n'
    · subst hc'
      rw [List.cons_append, Write.body_lineFeed, List.cons_append, List.append_assoc,
        Source.place_lineFeed, leadingBreaks_break rfl, leadingBreaks_margin]
      exact ih hrest (by simpa using hopens) _ (by omega) rfl
    · have hinline : IsInline c := hc.1.isInline (by rw [← hc.1.isSeparator_iff hc', hc.2])
      have hspace : c ≠ ' ' := by simpa [hc'] using hopens
      have htab : c ≠ '\t' := hinline.ne_control (by decide)
      have hfollowed := Write.followed_lineFeed
        (Write.followed_of_separator fun c hc => (hfront c hc).2)
      obtain ⟨m', -, hscan⟩ := scan_body (r := ⟨layout, chomping, 4, start⟩)
        (.pause ⟨[], breaks, false⟩) [] (Write.body later ++ tail) rfl (fun c hc => (hfront c hc).1)
        hd hbreak hfollowed (.inr hcolumn)
      have hsource : Write.body (c :: front ++ d :: later) ++ tail =
          Write.body (c :: front) ++ d :: (Write.body later ++ tail) := by
        rw [Write.body_append, Write.body_cons hfeed, List.append_assoc, List.cons_append]
      have hlow : max longest m.column = 4 := by omega
      have hleading : leadingBreaks start breaks longest
          (Source.place m (Write.body (c :: front ++ d :: later) ++ tail)) =
            .ok ((breaks.reverse, 4),
              Source.place m (Write.body (c :: front ++ d :: later) ++ tail)) := by
        rw [List.cons_append, Write.body_cons hc', List.cons_append, Source.place_inline hinline,
          leadingBreaks, hlow]
        simp [hspace, htab, hinline]
      rw [hleading, hsource]
      change Yields (m := Except SyntaxError) _ (scan ⟨layout, chomping, 4, start⟩
        (.pause ⟨[], breaks.reverse.reverse, false⟩) [] _)
      rw [List.reverse_reverse, hscan]
      exact Yields.mono (leaves_scan _ _ _ _) fun _ hx => ⟨m', hx⟩

theorem passes_read (layout : Layout) (chomping : Chomping) (later tail : List Char)
    (hfront : ∀ c ∈ front, IsLaid c ∧ isSeparator c = false)
    (hopens : (front.dropWhile (· == '\n')).head? ≠ some ' ') (hd : IsLaid d)
    (hseparator : isSeparator d) (m : Mark) :
    Yields (fun x : List Char × Source => ∃ m', x.2 <:+ Source.place m' (Write.body later ++ tail))
      (read layout (some 2) (Source.place m (layout.indicator :: (chomping.sign ++ '\n' ::
        (Write.margin ++ (Write.body (front ++ d :: later) ++ tail)))))) := by
  obtain ⟨m', hm', hheader⟩ := header_sign m (m.next layout.indicator) chomping
    (Write.margin ++ (Write.body (front ++ d :: later) ++ tail))
  rw [Source.place_inline layout.isInline_indicator, read_eq_readOn hheader, leadingBreaks_margin]
  exact passes_leadingBreaks hfront hopens hd hseparator [] (Nat.zero_le 4)
    (by simp [hm', Write.margin])

end

end BlockScalar

end Planimeter.Yaml
