import Planimeter.Proofs.Yaml.BlockScalars
import Planimeter.Proofs.Yaml.FlowScalars
import Planimeter.Proofs.Yaml.Passing
/-!
# Where readers stop

A text is in two parts, the first of which ends its last line. A reader that begins in the first
part leaves some of it, or it comes to the second part in the state that it is in at the start of a
line.
-/
namespace Planimeter.Yaml

namespace Source

/-- The part of a text ends its last line. -/
def Lined (p : Source) : Prop := ∀ g ∈ p.getLast?, isBreak g.char

variable {p p' wall rest s : Source} {g : Glyph}

theorem Lined.of_suffix (h : p.Lined) (hp : p' <:+ p) : p'.Lined := by
  obtain ⟨front, rfl⟩ := hp
  intro g hg
  refine h g ?_
  obtain ⟨start, rfl⟩ := List.getLast?_eq_some_iff.1 hg
  rw [← List.append_assoc, List.getLast?_concat]
  rfl

theorem Lined.tail (h : Lined (g :: p)) : p.Lined := h.of_suffix (List.suffix_cons g p)

theorem Lined.last (h : Lined [g]) : isBreak g.char := h g rfl

/-- What a reader leaves of a text whose first part it begins in: some of the first part, and all of
the second. -/
def LeftOf (p wall rest : Source) : Prop := ∃ p' : Source, p' <:+ p ∧ rest = p' ++ wall

theorem leftOf_self (p wall : Source) : LeftOf p wall (p ++ wall) := ⟨p, List.suffix_refl p, rfl⟩

theorem leftOf_nil (p wall : Source) : LeftOf p wall wall := ⟨[], List.nil_suffix, rfl⟩

theorem LeftOf.cons (h : LeftOf p wall rest) (g : Glyph) : LeftOf (g :: p) wall rest := by
  obtain ⟨p', hp', rfl⟩ := h
  exact ⟨p', hp'.trans (List.suffix_cons g p), rfl⟩

theorem LeftOf.of_suffix (h : LeftOf p wall rest) (hp : p <:+ p') : LeftOf p' wall rest := by
  obtain ⟨q, hq, rfl⟩ := h
  exact ⟨q, hq.trans hp, rfl⟩

/-- On a line of the first part its end is still ahead. -/
theorem OnLine.leftOf (h : rest.OnLine (p ++ wall)) (hp : p.Lined) (hne : p ≠ []) :
    ∃ p' : Source, p' ≠ [] ∧ p' <:+ p ∧ rest = p' ++ wall := by
  obtain ⟨passed, happend, hpassed⟩ := h
  have hlast : ∀ more, passed ≠ p ++ more := by
    rintro more rfl
    have hmem := List.getLast_mem hne
    have hbreak := hp _ (List.getLast?_eq_some_getLast hne)
    rw [hpassed _ (List.mem_append_left _ hmem)] at hbreak
    contradiction
  rcases List.append_eq_append_iff.1 happend with ⟨p', rfl, rfl⟩ | ⟨more, hmore, -⟩
  · refine ⟨p', ?_, List.suffix_append passed p', rfl⟩
    rintro rfl
    exact hlast [] (by simp)
  · exact absurd hmore (hlast more)

theorem ToNextLine.leftOf (h : rest.ToNextLine (p ++ wall)) (hp : p.Lined) (hne : p ≠ []) :
    LeftOf p wall rest := by
  rcases h with h | ⟨end', hend, -, rfl⟩
  · obtain ⟨p', -, hp', rfl⟩ := h.leftOf hp hne
    exact ⟨p', hp', rfl⟩
  · obtain ⟨p', hne', hp', rfl⟩ := hend.leftOf hp hne
    obtain ⟨g, p', rfl⟩ := List.exists_cons_of_ne_nil hne'
    exact ⟨p', (List.suffix_cons g p').trans hp', rfl⟩

end Source

open Yaml.Source

variable {p wall : Source}

namespace Scan

/-- Either something of the first part is next, or the second, which is the start of a line. -/
theorem skip_leftOf (hwall : ∀ keyAllowed, skip false false keyAllowed wall = (keyAllowed, wall))
    (hp : p.Lined) (inComment keyAllowed : Bool) (hcomment : p = [] → inComment = false) :
    ∃ p', p' <:+ p ∧ (skip false inComment keyAllowed (p ++ wall)).2 = p' ++ wall := by
  induction p generalizing inComment keyAllowed with
  | nil =>
    obtain rfl := hcomment rfl
    rw [List.nil_append, hwall]
    exact ⟨[], List.nil_suffix, rfl⟩
  | cons g p ih =>
    have hmore (inComment keyAllowed : Bool) (hcomment : p = [] → inComment = false) :
        ∃ p', p' <:+ g :: p ∧
          (skip false inComment keyAllowed (p ++ wall)).2 = p' ++ wall := by
      obtain ⟨p', hp', hrest⟩ := ih hp.tail inComment keyAllowed hcomment
      exact ⟨p', hp'.trans (List.suffix_cons g p), hrest⟩
    have hinside (hbreak : ¬isBreak g.char) : p = [] → False := by
      rintro rfl
      exact hbreak hp.last
    rw [List.cons_append, skip]
    split
    · exact hmore _ _ fun _ => rfl
    · next hbreak =>
      split
      · exact ⟨g :: p, List.suffix_refl _, rfl⟩
      · split
        · exact hmore _ _ fun h => (hinside hbreak h).elim
        · split
          · exact hmore _ _ fun h => (hinside hbreak h).elim
          · exact ⟨g :: p, List.suffix_refl _, rfl⟩

end Scan

namespace PlainScalar

/-- A plain scalar ends in the first part, or it goes on at the start of the second. -/
theorem scan_leftOf {ctx : PlainContext} {R : PlainScalar × Source → Prop}
    (hwall : ∀ (g : Gap) (text : List Char), g.crossesLine →
      Yields R (scan ctx (some g) text wall))
    (hp : p.Lined) (gap : Option Gap) (text : List Char)
    (hgap : p = [] → ∃ g ∈ gap, g.crossesLine) :
    Yields (fun x => LeftOf p wall x.2 ∨ R x) (scan ctx gap text (p ++ wall)) := by
  induction p generalizing gap text with
  | nil =>
    obtain ⟨g, hg, hcross⟩ := hgap rfl
    obtain rfl := hg
    exact Yields.mono (hwall g text hcross) fun _ => .inr
  | cons g p ih =>
    have hmore (gap : Option Gap) (text : List Char) (hgap : p = [] → ∃ g ∈ gap, g.crossesLine) :
        Yields (fun x => LeftOf (g :: p) wall x.2 ∨ R x) (scan ctx gap text (p ++ wall)) :=
      Yields.mono (ih hp.tail gap text hgap) fun _ hx => hx.imp_left fun h => h.cons g
    have hend (scalar : PlainScalar) : Yields (fun x => LeftOf (g :: p) wall x.2 ∨ R x)
        (.ok (scalar, g :: (p ++ wall)) : Except SyntaxError (PlainScalar × Source)) :=
      Yields.ok (.inl (leftOf_self (g :: p) wall))
    have hinside {gap : Option Gap} (hbreak : ¬isBreak g.char) :
        p = [] → ∃ g ∈ gap, g.crossesLine := by
      rintro rfl
      exact absurd hp.last hbreak
    rw [List.cons_append, scan]
    dsimp only
    refine Yields.ite (fun hblank => Yields.ite (fun _ => yields_failAt) fun _ => hmore _ _ ?_)
      fun _ => Yields.ite (fun _ => hmore _ _ fun _ => ⟨_, rfl, ?_⟩) fun hbreak =>
        Yields.ite (fun _ => hend _) fun _ => Yields.ite (fun _ => yields_failAt) fun _ =>
          Yields.ite (fun _ => hend _) fun _ => hmore _ _ (hinside hbreak)
    · exact hinside (by simp [isBreak_of_isBlank hblank])
    · cases gap.getD (.blanks []) <;> rfl

end PlainScalar

namespace BlockScalar

/-- A block scalar ends in the first part, or at the name that a line of the second begins with. -/
abbrev Stops (p : Source) (m : Mark) (indent : Nat) (tail : List Char) {α : Type}
    (r : Except SyntaxError (α × Source)) : Prop :=
  Yields (fun x => LeftOf p (place m (List.replicate indent ' ' ++ tail)) x.2 ∨
    x.2 = place (m.after (List.replicate indent ' ')) tail) r

variable {m : Mark} {indent : Nat} {tail : List Char} {p' : Source} {g : Glyph} {α : Type}

theorem Stops.of_suffix {r : Except SyntaxError (α × Source)} (h : Stops p m indent tail r)
    (hp : p <:+ p') : Stops p' m indent tail r :=
  Yields.mono h fun _ hx => hx.imp_left fun h => h.of_suffix hp

theorem stops_here (a : α) : Stops p m indent tail
    (.ok (a, p ++ place m (List.replicate indent ' ' ++ tail))) :=
  Yields.ok (.inl (leftOf_self p _))

theorem stops_scan {r : Rules} (hindent : indent < r.indent) (htail : GoesOn tail)
    (hcolumn : m.column = 0) (hp : p.Lined) (stage : Stage) (text : List Char)
    (hstage : p = [] → ∃ pause, stage = .pause pause) : Stops p m indent tail
      (scan r stage text (p ++ place m (List.replicate indent ' ' ++ tail))) := by
  induction p generalizing stage text with
  | nil =>
    obtain ⟨pause, rfl⟩ := hstage rfl
    rw [List.nil_append, scan_end hindent htail _ _ hcolumn]
    exact Yields.ok (.inr rfl)
  | cons g p ih =>
    have hmore (stage : Stage) (text : List Char)
        (hstage : p = [] → ∃ pause, stage = .pause pause) :
        Stops (g :: p) m indent tail
          (scan r stage text (p ++ place m (List.replicate indent ' ' ++ tail))) :=
      (ih hp.tail stage text hstage).of_suffix (List.suffix_cons g p)
    have hinside {stage : Stage} (hbreak : ¬isBreak g.char) :
        p = [] → ∃ pause, stage = .pause pause := by
      rintro rfl
      exact absurd hp.last hbreak
    rw [List.cons_append]
    cases stage with
    | line blank =>
      rw [scan]
      exact Yields.ite (fun _ => stops_here _) fun _ =>
        Yields.ite (fun _ => hmore _ _ fun _ => ⟨_, rfl⟩) fun hbreak => hmore _ _ (hinside hbreak)
    | pause pause =>
      rw [scan]
      exact Yields.ite (fun _ => hmore _ _ fun _ => ⟨_, rfl⟩) fun _ =>
        Yields.ite (fun _ => yields_failAt) fun _ =>
          Yields.ite (fun _ => hmore _ _ fun _ => ⟨_, rfl⟩) fun hbreak =>
            Yields.ite (fun _ => hmore _ _ (hinside hbreak)) fun _ => stops_here _

theorem stops_leadingBreaks (htail : GoesOn tail) (start : Mark) (breaks : List Char)
    (longest : Nat) : Stops p m indent tail
      (leadingBreaks start breaks longest (p ++ place m (List.replicate indent ' ' ++ tail))) := by
  induction p generalizing breaks longest with
  | nil =>
    obtain ⟨c, rest, hplace, hc⟩ := htail.exists_glyph (m.after (List.replicate indent ' '))
    rw [List.nil_append, leadingBreaks_spaces, hplace, leadingBreaks]
    simp only [hc.ne_space, hc.ne_tab, hc.isBreak, Bool.false_eq_true, if_false]
    exact Yields.ok (.inr hplace.symm)
  | cons g p ih =>
    have hmore (breaks : List Char) (longest : Nat) : Stops (g :: p) m indent tail
        (leadingBreaks start breaks longest (p ++ place m (List.replicate indent ' ' ++ tail))) :=
      (ih breaks longest).of_suffix (List.suffix_cons g p)
    rw [List.cons_append, leadingBreaks]
    exact Yields.ite (fun _ => hmore _ _) fun _ => Yields.ite (fun _ => yields_failAt) fun _ =>
      Yields.ite (fun _ => hmore _ _) fun _ => stops_here _

/-- An indentation that a header tells is not zero. -/
theorem pos_increment (start : Mark) (s : Source) :
    Yields (fun r : Option Nat × Source => ∀ n ∈ r.1, 0 < n) (increment start s) := by
  unfold increment
  refine Yields.ite (fun _ => yields_failAt) fun hzero => Yields.ite (fun hdigit => ?_) fun _ =>
    Yields.ok (by simp)
  refine Yields.ok fun n hn => ?_
  obtain rfl := Option.some.inj hn
  have hne : s.front.toNat ≠ '0'.toNat := fun heq => hzero (Char.toNat_inj.1 heq)
  have hlow : '0'.toNat ≤ s.front.toNat := by
    simp only [Char.isDigit, Bool.and_eq_true, decide_eq_true_eq] at hdigit
    exact hdigit.1
  omega

theorem pos_header (start : Mark) (s : Source) :
    Yields (fun r => ∀ n ∈ r.1.increment, 0 < n) (header start s) := by
  have hindicators : Yields (fun r => ∀ n ∈ r.1.increment, 0 < n) (indicators start s) := by
    unfold indicators
    split
    · exact Yields.bind (pos_increment start _) fun _ hr => Yields.ok hr
    · refine Yields.bind (pos_increment start _) fun (increment, rest) hr => ?_
      dsimp only at hr ⊢
      split
      · exact Yields.ok hr
      · exact Yields.ok hr
  refine Yields.bind hindicators fun (header, rest) hr => ?_
  dsimp only
  exact Yields.ite (fun _ => Yields.ok hr) fun _ => Yields.ite (fun _ => Yields.ok hr) fun _ =>
    yields_failAt

theorem stops_read (layout : Layout) {parent : Option Nat} (hindent : indent ≤ parent.getD 0)
    (htail : GoesOn tail) (hcolumn : m.column = 0) (hp : Lined (g :: p))
    (hg : isBreak g.char = false) : Stops (g :: p) m indent tail
      (read layout parent (g :: (p ++ place m (List.replicate indent ' ' ++ tail)))) := by
  have hne : p ≠ [] := by
    rintro rfl
    rw [hp.last] at hg
    contradiction
  refine Yields.bind ((endsLine_header g.mark _).and (pos_header g.mark _))
    fun (header, s) ⟨hs, hpos⟩ => ?_
  dsimp only [behind_cons] at hs hpos ⊢
  obtain ⟨p₁, hp₁, rfl⟩ := hs.leftOf hp.tail hne
  have hp₁' := hp.tail.of_suffix hp₁
  split
  · next n hn =>
    have hn := hpos n hn
    exact (stops_scan (by dsimp only; omega) htail hcolumn hp₁' _ _ fun _ => ⟨_, rfl⟩).of_suffix
      (hp₁.trans (List.suffix_cons g p))
  · refine Yields.bind (stops_leadingBreaks htail g.mark [] 0) fun ((empty, longest), s) hs => ?_
    dsimp only at hs ⊢
    have hlow : indent < max (max longest ((parent.map (· + 1)).getD 0)) 1 := by
      cases parent with
      | none => simp at hindent ⊢; omega
      | some n => simp at hindent ⊢; omega
    rcases hs with ⟨p₂, hp₂, rfl⟩ | rfl
    · exact (stops_scan hlow htail hcolumn (hp₁'.of_suffix hp₂) _ _ fun _ => ⟨_, rfl⟩).of_suffix
        (hp₂.trans (hp₁.trans (List.suffix_cons g p)))
    · rw [scan_goesOn (by simpa [hcolumn] using hlow) htail]
      exact Yields.ok (.inr rfl)

end BlockScalar

namespace QuotedScalar

theorem isBreak_quote (quote : Quote) : isBreak quote.char = false := by
  cases quote <;> rfl

theorem wordStage_break {quote : Quote} {g : Glyph} (h : isBreak g.char) :
    wordStage quote g = some (.gap (.folded [g.char])) := by
  have hquote : g.char ≠ quote.char := fun heq => by
    rw [heq, isBreak_quote] at h
    contradiction
  have hbackslash : g.char ≠ '\\' := fun heq => by
    rw [heq] at h
    contradiction
  have hblank : isBlank g.char = false := by
    rw [Bool.eq_false_iff]
    intro hblank
    rw [isBreak_of_isBlank hblank] at h
    contradiction
  simp [wordStage, hquote, hbackslash, hblank, h]

/-- A quoted scalar ends in the first part, or it goes on at the start of the second. -/
theorem scan_leftOf {quote : Quote} {start : Mark} {R : List Char × Source → Prop}
    (hwall : ∀ (gap : Gap) (text : List Char), Yields R (scan quote start (.gap gap) text wall))
    (hp : p.Lined) (stage : Stage) (text : List Char) (hstage : p = [] → ∃ gap, stage = .gap gap) :
    Yields (fun x => LeftOf p wall x.2 ∨ R x) (scan quote start stage text (p ++ wall)) := by
  induction p generalizing stage text with
  | nil =>
    obtain ⟨gap, rfl⟩ := hstage rfl
    exact Yields.mono (hwall gap text) fun _ => .inr
  | cons g p ih =>
    have hmore (stage : Stage) (text : List Char) (hstage : p = [] → ∃ gap, stage = .gap gap) :
        Yields (fun x => LeftOf (g :: p) wall x.2 ∨ R x)
          (scan quote start stage text (p ++ wall)) :=
      Yields.mono (ih hp.tail stage text hstage) fun _ hx => hx.imp_left fun h => h.cons g
    have hinside {stage : Stage} (hbreak : isBreak g.char = false) :
        p = [] → ∃ gap, stage = .gap gap := by
      rintro rfl
      rw [hp.last] at hbreak
      contradiction
    have hquote (hchar : g.char = quote.char) : isBreak g.char = false := by
      rw [hchar, isBreak_quote]
    have hword (text : List Char) :
        Yields (fun x => LeftOf (g :: p) wall x.2 ∨ R x)
          (scanWord quote start text g (p ++ wall)) := by
      refine Yields.ite (fun _ => yields_failAt) fun _ => ?_
      split
      · next hstage =>
        have hchar := hquote (wordStage_quote hstage)
        refine Yields.ite (fun _ => Yields.ok (.inl ?_)) fun _ => hmore _ _ (hinside hchar)
        exact (leftOf_self p wall).of_suffix (List.suffix_cons g p)
      · next stage _ hnext =>
        refine hmore _ _ ?_
        rintro rfl
        rw [wordStage_break hp.last] at hnext
        exact ⟨_, (Option.some.inj hnext).symm⟩
      · next hnext =>
        refine hmore _ _ ?_
        rintro rfl
        rw [wordStage_break hp.last] at hnext
        contradiction
    rw [List.cons_append]
    cases stage with
    | word => exact hword text
    | gap gap =>
      rw [scan]
      exact Yields.ite (fun _ => hmore _ _ fun _ => ⟨_, rfl⟩) fun _ =>
        Yields.ite (fun _ => hmore _ _ fun _ => ⟨_, rfl⟩) fun _ =>
          Yields.ite (fun _ => yields_failAt) fun _ => hword _
    | quote =>
      rw [scan]
      exact Yields.ite (fun hchar => hmore _ _ (hinside (hquote hchar))) fun _ =>
        Yields.ok (.inl (leftOf_self (g :: p) wall))
    | escape backslash =>
      rw [scan]
      refine Yields.ite (fun _ => hmore _ _ fun _ => ⟨_, rfl⟩) fun hbreak => ?_
      have hbreak : isBreak g.char = false := by simpa using hbreak
      split
      · exact hmore _ _ (hinside hbreak)
      · exact hmore _ _ (hinside hbreak)
      · exact yields_failAt
    | codePoint left value first =>
      rw [scan]
      dsimp only
      split
      · exact yields_failAt
      · next digit hdigit =>
        have hbreak := isBreak_of_hexDigit? hdigit
        refine Yields.ite (fun _ => hmore _ _ (hinside hbreak)) fun _ => ?_
        split
        · exact hmore _ _ (hinside hbreak)
        · exact yields_failAt

end QuotedScalar

end Planimeter.Yaml
