import Planimeter.Proofs.Yaml.Folding
import Planimeter.Proofs.Yaml.Tokens
import Planimeter.Proofs.Yaml.Untyped
/-!
# Written scalars

A text is written in one of four forms, each of which is read in one step as the value of a key two
levels down. All forms give the text back but two: a plain scalar loses the spaces at its end, and a
folded one the blanks that it was broken at unless they were spaces.
-/
namespace Planimeter.Yaml

open Scan (between Reaches)

/-- Behind the colon of a key two levels down a step reads a scalar off the text, and the next token
is the next key. -/
def ReadsAs (written text : List Char) (style : Style) : Prop :=
  ∀ (m : Mark) (tokens : List Lexeme) (columns : List Nat) (indent : Nat) (rest : List Char),
    2 < m.column → indent ≤ 2 → GoesOn rest → ∃ (m' v : Mark) (source : Source) (keyAllowed : Bool),
      m'.column = indent ∧
        (between (Source.place m (' ' :: (written ++ (List.replicate indent ' ' ++ rest)))) tokens
          (2 :: columns) false).step =
            .ok (between source (⟨.scalar text style, v⟩ :: tokens) (2 :: columns) keyAllowed) ∧
        Scan.skip false false keyAllowed source = (true, Source.place m' rest)

namespace Scan

variable {m m' : Mark} {c : Char} {rest tail : List Char} {tokens : List Lexeme} {l : Lexeme}
  {columns : List Nat} {source : Source} {keyAllowed : Bool}

/-- Between tokens nothing is given up. -/
theorem bind_expire {r : Except SyntaxError Scan}
    (h : r = .ok (between source tokens columns keyAllowed)) :
    r.bind expire = .ok (between source tokens columns keyAllowed) := by
  rw [h]
  rfl

/-- What a step does at the first character of a value. -/
theorem step_value (hc : IsInline c) (hspace : c ≠ ' ') (hcomment : c ≠ '#')
    (hcolumn : 2 < m.column) :
    (between (Source.place m (' ' :: c :: tail)) tokens (2 :: columns) false).step =
      (between (Source.place (m.next ' ') (c :: tail)) tokens (2 :: columns) false).dispatch.bind
        expire := by
  have htab : c ≠ '\t' := hc.ne_control (by decide)
  have hblank : isBreak ' ' = false ∧ isFinish ' ' = false := ⟨rfl, rfl⟩
  have hfirst : skip false false false (Source.place m (' ' :: c :: tail)) =
      (false, Source.place (m.next ' ') (c :: tail)) := by
    rw [Source.place_inline isInline_space, Source.place_inline hc]
    simp [skip, hblank, hc, hspace, hcomment, htab]
  have hclose : (between (Source.place (m.next ' ') (c :: tail)) tokens (2 :: columns)
      false).closeBlocks ((Source.place (m.next ' ') (c :: tail)).column < ·) =
        between (Source.place (m.next ' ') (c :: tail)) tokens (2 :: columns) false :=
    closeBlocks_append (List.forall_mem_nil _) (by simp [Source.column]; omega)
  rw [step_between hfirst, hclose]

/-- A step that reads a scalar goes on to the next key. -/
theorem reaches_value
    (hstep : (between source' tokens columns keyAllowed').step =
      .ok (between source (l :: tokens) columns keyAllowed))
    (hskip : skip false false keyAllowed source = (true, Source.place m' rest))
    (hrest : GoesOn rest) :
    Reaches 1 (between source' tokens columns keyAllowed')
      (between (Source.place m' rest) (l :: tokens) columns true) := by
  have hsource : source ≠ [] := by
    rintro rfl
    exact Source.place_ne_nil m' rest (congrArg Prod.snd hskip).symm
  exact (reaches_of_step hstep hsource).trans (reaches_skip hskip (skip_goesOn hrest))

section

variable {text : List Char} {rest rest' : Source} (tokens : List Lexeme) (columns : List Nat)

theorem dispatch_quoted {quote : Quote} (hcolumn : 0 < m.column)
    (hread : QuotedScalar.read quote (⟨quote.char, m⟩ :: rest) = .ok (text, rest')) :
    (between (⟨quote.char, m⟩ :: rest) tokens columns false).dispatch =
      .ok (between rest' (⟨.scalar text .quoted, m⟩ :: tokens) columns false) := by
  have hmark (c : Char) := Source.isDocumentMark_of_column hcolumn c rest
  have hnode : (between (⟨quote.char, m⟩ :: rest) tokens columns false).dispatch =
      (between (⟨quote.char, m⟩ :: rest) tokens columns false).atNode (readQuoted quote) := by
    cases quote <;> simp [dispatch, Quote.char, hmark, isFinish, finish]
  rw [hnode]
  change ((readQuoted quote (⟨quote.char, m⟩ :: rest)).bind _) = _
  rw [readQuoted, hread]
  rfl

/-- The indicator of a layout begins a block scalar. -/
theorem dispatch_layout (layout : BlockScalar.Layout) (hcolumn : 0 < m.column) :
    (between (⟨layout.indicator, m⟩ :: rest) tokens columns keyAllowed).dispatch =
      (between (⟨layout.indicator, m⟩ :: rest) tokens columns keyAllowed).atBlockScalar layout := by
  have hmark (c : Char) := Source.isDocumentMark_of_column hcolumn c rest
  cases layout <;>
    simp [dispatch, BlockScalar.Layout.indicator, hmark, inFlow, isGap, isBlank, isBreak,
      isLineEnd, isSeparator, isFinish, finish]

theorem dispatch_block {layout : BlockScalar.Layout} (hcolumn : 0 < m.column)
    (hread : BlockScalar.read layout columns.head? (⟨layout.indicator, m⟩ :: rest) =
      .ok (text, rest')) :
    (between (⟨layout.indicator, m⟩ :: rest) tokens columns false).dispatch =
      .ok (between rest' (⟨.scalar text .block, m⟩ :: tokens) columns true) := by
  rw [dispatch_layout tokens columns layout hcolumn]
  change ((BlockScalar.read layout columns.head? (⟨layout.indicator, m⟩ :: rest)).bind _) = _
  rw [hread]
  rfl

theorem dispatch_plain_value {scalar : PlainScalar}
    (hmark : Source.isDocumentMark (⟨c, m⟩ :: rest) = false) (hgap : isGap c = false)
    (hindicator : isIndicator c = false)
    (hread : PlainScalar.read false ((columns.head?.map (· + 1)).getD 0) (⟨c, m⟩ :: rest) =
      .ok (scalar, rest')) :
    (between (⟨c, m⟩ :: rest) tokens columns false).dispatch =
      .ok (between rest' (⟨.scalar scalar.text .plain, m⟩ :: tokens) columns
        scalar.crossedLine) := by
  rw [dispatch_plain hgap hindicator hmark]
  change ((PlainScalar.read false ((columns.head?.map (· + 1)).getD 0) (⟨c, m⟩ :: rest)).bind _) = _
  rw [hread]
  rfl

end

end Scan

variable {cs : List Char}

theorem readsAs_quote (cs : List Char) : ReadsAs (Write.quote cs ++ ['\n']) cs .quoted := by
  intro m tokens columns indent rest hcolumn hindent hrest
  have hread := QuotedScalar.read_quote (m.next ' ') cs
    ('\n' :: (List.replicate indent ' ' ++ rest))
  obtain ⟨body, hbody⟩ : ∃ body, Write.quote cs = '\x22' :: body := ⟨_, rfl⟩
  rw [hbody, List.cons_append, Source.place_inline isInline_quote] at hread
  have hdispatch := Scan.dispatch_quoted tokens (2 :: columns) (Nat.succ_pos _) hread
  rw [Quote.char, ← Source.place_inline isInline_quote] at hdispatch
  have hstep := (Scan.step_value isInline_quote (by decide) (by decide) hcolumn).trans
    (Scan.bind_expire hdispatch)
  rw [hbody, List.append_assoc]
  exact ⟨_, _, _, _, Mark.below_column _ indent, hstep, Scan.skip_line hrest indent⟩

theorem readsAs_isLoneMark (hcs : Write.isLoneMark cs) :
    ReadsAs ('\x27' :: cs ++ ['\x27', '\n']) cs .quoted := by
  intro m tokens columns indent rest hcolumn hindent hrest
  have hquote : IsInline '\x27' := ⟨by decide, by decide⟩
  have hread := QuotedScalar.read_isLoneMark (m.next ' ') hcs (List.replicate indent ' ' ++ rest)
  rw [List.cons_append, List.cons_append, Source.place_inline hquote] at hread
  have hdispatch := Scan.dispatch_quoted tokens (2 :: columns) (Nat.succ_pos _) hread
  rw [Quote.char, ← Source.place_inline hquote] at hdispatch
  have hstep := (Scan.step_value hquote (by decide) (by decide) hcolumn).trans
    (Scan.bind_expire hdispatch)
  exact ⟨_, _, _, _, Mark.below_column _ indent, hstep, Scan.skip_line hrest indent⟩

/-- The lines of a block scalar with those that follow. -/
theorem Write.block_append (layout : BlockScalar.Layout) (chomping : BlockScalar.Chomping)
    (cs tail : List Char) :
    layout.indicator :: (chomping.sign ++ '\n' :: (margin ++ (body cs ++ ['\n']))) ++ tail =
      layout.indicator :: (chomping.sign ++ '\n' :: (margin ++ (body cs ++ '\n' :: tail))) := by
  simp

theorem readsAs_block (layout : BlockScalar.Layout) (chomping : BlockScalar.Chomping)
    (hcs : ∀ c ∈ cs, IsLaid c) (hopens : (cs.dropWhile isBreak).head? ≠ some ' ')
    (hfollowed : Write.followed (cs ++ ['\n'])) :
    ReadsAs (layout.indicator :: (chomping.sign ++ '\n' ::
        (Write.margin ++ (Write.body cs ++ ['\n']))))
      (BlockScalar.content layout chomping cs) .block := by
  intro m tokens columns indent rest hcolumn hindent hrest
  have hlayout := layout.isInline_indicator
  obtain ⟨m', hm', hread⟩ := BlockScalar.read_body layout chomping hcs hopens hfollowed
    (Nat.lt_of_le_of_lt hindent (by decide)) hrest (m.next ' ')
  rw [Source.place_inline hlayout] at hread
  have hdispatch := Scan.dispatch_block tokens (2 :: columns) (Nat.succ_pos _) hread
  rw [← Source.place_inline hlayout] at hdispatch
  have hstep := (Scan.step_value hlayout (by cases layout <;> decide)
    (by cases layout <;> decide) hcolumn).trans (Scan.bind_expire hdispatch)
  rw [Write.block_append]
  exact ⟨m', _, _, _, hm', hstep, Scan.skip_goesOn hrest⟩

/-- A plain scalar loses the spaces at its end. -/
theorem readsAs_plain (hfits : PlainScalar.Fits cs)
    (hfirst : ∃ c ∈ cs.head?, c ≠ ' ' ∧ Scan.isIndicator c = false) (blanks : Nat) :
    ReadsAs (cs ++ List.replicate blanks ' ' ++ ['\n']) cs .plain := by
  intro m tokens columns indent rest hcolumn hindent hrest
  obtain ⟨c, hc, hspace, hindicator⟩ := hfirst
  obtain ⟨cs, rfl⟩ := List.head?_eq_some_iff.1 hc
  have hinline : IsInline c := hfits.inline c List.mem_cons_self
  have hcomment : c ≠ '#' := fun heq => hfits.comment (heq ▸ List.mem_cons_self)
  have hmargin : 3 ≤ (m.next ' ').column ∧ 0 < (m.next ' ').column := by
    simp
    omega
  obtain ⟨m', hm', hread⟩ := PlainScalar.read_line hmargin hfits (List.cons_ne_nil c cs) blanks
    (Nat.lt_succ_of_le hindent) hrest
  rw [List.cons_append, Source.place_inline hinline] at hread
  have hdispatch := Scan.dispatch_plain_value tokens (2 :: columns)
    (Source.isDocumentMark_of_column (Nat.succ_pos _) _ _) (hinline.isGap hspace) hindicator hread
  rw [← Source.place_inline hinline] at hdispatch
  have hstep := (Scan.step_value hinline hspace hcomment hcolumn).trans (Scan.bind_expire hdispatch)
  rw [List.append_assoc, List.append_assoc]
  exact ⟨m', _, _, _, hm', hstep, Scan.skip_goesOn hrest⟩

end Planimeter.Yaml
