import Planimeter.Proofs.Yaml.Entries
import Planimeter.Proofs.Yaml.PlainLosses
import Planimeter.Proofs.Yaml.Steps
import Planimeter.Proofs.Yaml.Walls
import Planimeter.Proofs.Yaml.Written
/-!
# What is read ahead of a section

Of a scalar without quotes that was not read to its end some lines are left in front of the next
section. They may hold any tokens, but reading comes to the name of the section all the same: at the
start of its line, or in a scalar that goes on there. A text that is heavier than the lines is then
not read of them.
-/
namespace Planimeter.Yaml

/-- The line of a section, and what stands below it. -/
def Name.heading (n : Name) (tail : List Char) : List Char :=
  n.chars ++ ':' :: '\n' :: (List.replicate 2 ' ' ++ tail)

namespace Name

variable (n : Name) {tail : List Char}

theorem goesOn_heading (tail : List Char) : GoesOn (n.heading tail) := n.goesOn_append _

/-- The first letter of a name. -/
theorem exists_cons (tail : List Char) (m : Mark) : ∃ k rest, n.chars = k :: rest ∧ k.isAlpha ∧
    Source.place m (n.heading tail) = ⟨k, m⟩ ::
      Source.place (m.next k) (rest ++ ':' :: '\n' :: (List.replicate 2 ' ' ++ tail)) := by
  obtain ⟨k, rest, hchars⟩ := List.exists_cons_of_ne_nil n.ne_nil
  have hk : k.isAlpha := n.goesOn k (by rw [hchars]; rfl)
  have hinline := (isPrintable_of_isName (isName_of_isAlpha hk)).isInline
  refine ⟨k, rest, hchars, hk, ?_⟩
  rw [heading, hchars, List.cons_append, Source.place_inline hinline]

end Name

namespace Scan

variable {s t u : Scan} {xs : List (List Char)} {P : Scan → Prop}

/-- What is read from two states in which the same step is next. -/
theorem avoids_of_step_eq (hu : Avoids xs u) (h : s.step = u.step) (htokens : s.tokens = u.tokens) :
    Avoids xs s := by
  have hlacks : Lacks xs s.tokens := htokens ▸ hu.tokens
  refine ⟨hlacks, fun n => ?_⟩
  cases n with
  | zero => exact hlacks.settled
  | succ n =>
    have hrun := hu.run (n + 1)
    rw [Scan.run, ← h] at hrun
    rw [Scan.run]
    split
    · exact hlacks.settled
    · next t ht => simpa only [ht] using hrun

@[simp] theorem candidate_closeBlocks (closes : Nat → Bool) (s : Scan) :
    (s.closeBlocks closes).candidate = s.candidate := by
  unfold closeBlocks
  split <;> rfl

theorem isExpired_of_line {front : Mark} {c : Candidate} (h : c.mark.line < front.line) :
    c.isExpired front := by
  simp [Candidate.isExpired, h]

/-- A colon without a node before it is an error where no key may begin. -/
theorem yields_strayColon (hsource : PlainScalar.StrayColon s.source) (houter : s.outer = [])
    (hallowed : s.keyAllowed = false) (hcandidate : ∀ c ∈ s.candidate, c.isExpired s.mark) :
    Yields P s.step := by
  obtain ⟨m, rest, hsource, hgap⟩ := hsource
  have hflow : s.inFlow = false := by rw [inFlow, houter]; rfl
  have hskip : skip s.inFlow false s.keyAllowed s.source = (false, s.source) := by
    rw [hflow, hallowed, hsource]
    exact skip_token ⟨rfl, rfl, by decide, by decide⟩
  rw [step, hskip]
  refine Yields.bind (expires_expire _) fun u hu => ?_
  have hnone : u.candidate = none := by
    refine Option.eq_none_iff_forall_ne_some.2 fun c hc => ?_
    obtain ⟨hmem, hlate⟩ := hu.candidate c hc
    exact absurd (hcandidate c hmem) (by simpa [Scan.mark] using hlate)
  have hkeeps := keeps_closeBlocks (u.source.column < ·) u
  have hcandidate := candidate_closeBlocks (u.source.column < ·) u
  generalize u.closeBlocks (u.source.column < ·) = v at hkeeps hcandidate
  have hvflow : v.inFlow = false := by rw [inFlow, hkeeps.outer, hu.outer houter]; rfl
  have hvsource : v.source = ⟨':', m⟩ :: rest := by rw [hkeeps.source, hu.source, hsource]
  have hvallowed : v.keyAllowed = false := hkeeps.keyAllowed.trans hu.keyAllowed
  have hmark : Source.isDocumentMark (⟨':', m⟩ :: rest) = false := by
    unfold Source.isDocumentMark
    split
    · next heq =>
      obtain ⟨rfl, -⟩ := List.cons.inj heq
      simp
    · rfl
  have hdispatch : v.dispatch = v.atValue := by
    simp [dispatch, hvsource, hvflow, hmark, hgap, isFinish, finish]
  have hvalue : ∃ e, v.atValue = .error e := by
    rw [atValue, hcandidate, hnone]
    simp only [hvflow, hvallowed, Bool.not_false, Bool.and_self, if_true]
    exact ⟨_, rfl⟩
  obtain ⟨e, he⟩ := hvalue
  rw [hdispatch, he]
  exact Yields.error

/-- Candidates that are too late do not count, nor does what stands in front of the next token. -/
theorem avoids_of_skip {source : Source} {keyAllowed : Bool} (houter : s.outer = [])
    (hskip : skip false false s.keyAllowed s.source = (keyAllowed, source))
    (hskip' : skip false false keyAllowed source = (keyAllowed, source))
    (hcandidate : ∀ c ∈ s.candidate, c.isExpired source.mark)
    (h : Avoids xs (between source s.tokens s.columns keyAllowed)) : Avoids xs s := by
  obtain ⟨source', tokens, columns, candidate, outer, keyAllowed'⟩ := s
  obtain rfl : outer = [] := houter
  have hbetween : (between source' tokens columns keyAllowed').step =
      (between source tokens columns keyAllowed).step := by
    rw [step_between hskip, step_between hskip']
  cases candidate with
  | none => exact avoids_of_step_eq h hbetween rfl
  | some c =>
    have hlate := hcandidate c rfl
    by_cases hrequired : c.required
    · refine avoids_of_step h.tokens ?_
      have hexpire : ∃ e,
          Scan.expire ⟨source, tokens, columns, some c, [], keyAllowed⟩ = .error e := by
        simp only [expire, Scan.mark, hlate, Candidate.giveUp, hrequired]
        exact ⟨_, rfl⟩
      obtain ⟨e, he⟩ := hexpire
      have hflow : Scan.inFlow ⟨source', tokens, columns, some c, [], keyAllowed'⟩ = false := rfl
      rw [step, hflow, hskip]
      exact Yields.bind (P := fun _ => False) (he ▸ Yields.error) fun _ h => h.elim
    · have hexpire : Scan.expire ⟨source, tokens, columns, some c, [], keyAllowed⟩ =
          .ok (between source tokens columns keyAllowed) := by
        simp only [expire, Scan.mark, hlate, Candidate.giveUp, hrequired]
        rfl
      refine avoids_of_step_eq h (Eq.trans ?_ hbetween) rfl
      rw [step_eq rfl hskip hexpire rfl, step_between hskip]

theorem exists_closeBlocks (closes : Nat → Bool) (source : Source) (tokens : List Lexeme)
    (columns : List Nat) (keyAllowed : Bool) : ∃ ends columns', texts ends = [] ∧
      (between source tokens columns keyAllowed).closeBlocks closes =
        between source (ends ++ tokens) columns' keyAllowed :=
  ⟨_, _, texts_replicate_blockEnd _ _, rfl⟩

end Scan

namespace Name

variable (n : Name) {m : Mark} {tail : List Char}

theorem isInline {c : Char} (hc : c ∈ n.chars) : IsInline c :=
  (isPrintable_of_isName (n.isName c hc)).isInline

theorem strayColon (m : Mark) (tail : List Char) :
    PlainScalar.StrayColon (Source.place m (':' :: '\n' :: tail)) :=
  ⟨m, _, Source.place_inline isInline_colon m _, rfl⟩

theorem total_heading (w : Char → Nat) (m : Mark) (tail : List Char) :
    (Source.place m (n.heading tail)).total w = total w n.chars +
      (Source.place (m.after n.chars) (':' :: '\n' :: (List.replicate 2 ' ' ++ tail))).total w := by
  rw [heading, Source.place_append fun c hc => .of_isInline (n.isInline hc),
    Mark.through_inline fun c hc => (n.isInline hc).isBreak, Source.total_append,
    Source.total_laid]

/-- A plain scalar ended at a name, or at its colon. -/
def Ends (m : Mark) (tail : List Char) (x : PlainScalar × Source) : Prop :=
  x.2 = Source.place m (n.heading tail) ∨ x.1.crossedLine = false ∧
    x.2 = Source.place (m.after n.chars) (':' :: '\n' :: (List.replicate 2 ' ' ++ tail))

theorem ends_scan {ctx : PlainContext} (hctx : ctx.inFlow = false) (gap : Gap) (m : Mark)
    (text tail : List Char) : Yields (n.Ends m tail)
      (PlainScalar.scan ctx (some gap) text (Source.place m (n.heading tail))) := by
  obtain ⟨k, rest, hchars, hk, hplace⟩ := n.exists_cons tail m
  have hinline : IsInline k := n.isInline (hchars ▸ List.mem_cons_self)
  have hspace : k ≠ ' ' := ne_of_isAlpha hk rfl
  have hcolon : k ≠ ':' := ne_of_isAlpha hk rfl
  have hcomment : k ≠ '#' := ne_of_isAlpha hk rfl
  have hafter : m.after n.chars = (m.next k).after rest := by rw [hchars]; rfl
  have hname : ∀ c ∈ rest, Yaml.isName c := fun c hc =>
    n.isName c (hchars ▸ List.mem_cons_of_mem k hc)
  rw [hplace, PlainScalar.scan]
  simp only [hinline.isBlank hspace, hinline.isBreak, hinline.isFinish, hctx,
    Scan.isDocumentMark_of_isAlpha hk, PlainScalar.endsWord, beq_eq_false_iff_ne.2 hcolon,
    beq_eq_false_iff_ne.2 hcomment, Bool.false_eq_true, if_false, Bool.false_and, Bool.or_false,
    Bool.false_or]
  refine Yields.ite (fun _ => Yields.ok (.inl hplace.symm)) fun _ => ?_
  rw [PlainScalar.scan_name hctx hname (.inr rfl)]
  exact Yields.ok (.inr ⟨rfl, by rw [hafter]⟩)

end Name

namespace QuotedScalar

variable {quote : Quote} {start m : Mark} {text cs tail : List Char}

/-- A character that stands for itself between quotes of either kind. -/
theorem scan_word {c : Char} (hc : IsInline c) (hspace : c ≠ ' ') (hquote : ∀ q : Quote, c ≠ q.char)
    (hbackslash : c ≠ '\\') (rest : Source) :
    scan quote start .word text (⟨c, m⟩ :: rest) = scan quote start .word (c :: text) rest := by
  have hstage : wordStage quote ⟨c, m⟩ = none := by
    simp [wordStage, hquote quote, hbackslash, hc, hspace]
  rw [scan]
  simp only [hc.isFinish, Bool.false_eq_true, if_false, hstage]

theorem ne_of_isName {c : Char} (h : isName c) :
    c ≠ ' ' ∧ (∀ q : Quote, c ≠ q.char) ∧ c ≠ '\\' := by
  have hne {d : Char} (hd : isName d = false) : c ≠ d := by
    rintro rfl
    rw [hd] at h
    contradiction
  exact ⟨hne rfl, fun q => hne (by cases q <;> rfl), hne rfl⟩

theorem scan_name (hcs : ∀ c ∈ cs, isName c) (text : List Char) (m : Mark) (tail : List Char) :
    scan quote start .word text (Source.place m (cs ++ tail)) =
      scan quote start .word (cs.reverse ++ text) (Source.place (m.after cs) tail) := by
  induction cs generalizing m text with
  | nil => rfl
  | cons c cs ih =>
    obtain ⟨hc, hcs⟩ := List.forall_mem_cons.1 hcs
    have hinline := (isPrintable_of_isName hc).isInline
    obtain ⟨hspace, hquote, hbackslash⟩ := ne_of_isName hc
    rw [List.cons_append, Source.place_inline hinline,
      scan_word hinline hspace hquote hbackslash, ih hcs]
    simp

/-- A word begins behind a gap. -/
theorem scan_gap {gap : Gap} {c : Char} (hc : c.isAlpha) (rest : Source) :
    scan quote start (.gap gap) text (⟨c, m⟩ :: rest) =
      scan quote start .word (gap.text.reverse ++ text) (⟨c, m⟩ :: rest) := by
  have hinline := (isPrintable_of_isName (isName_of_isAlpha hc)).isInline
  have hspace : c ≠ ' ' := ne_of_isAlpha hc rfl
  rw [scan, scan]
  simp only [hinline.isBlank hspace, hinline.isBreak, Scan.isDocumentMark_of_isAlpha hc,
    Bool.false_eq_true, if_false]

theorem scan_indentation (breaks : List Char) (k : Nat) :
    scan quote start (.gap (.folded breaks)) text
        (Source.place m (List.replicate k ' ' ++ tail)) =
      scan quote start (.gap (.folded breaks)) text
        (Source.place (m.after (List.replicate k ' ')) tail) := by
  induction k generalizing m with
  | zero => rfl
  | succ k ih =>
    rw [List.replicate_succ, List.cons_append, Source.place_inline isInline_space, scan]
    exact ih

end QuotedScalar

namespace Name

variable (n : Name) {m : Mark} {tail : List Char}

/-- A quoted scalar that goes on over the line of a name has its colon and a space in it, and ends
behind a quote below. -/
def Crosses (quote : Quote) (m : Mark) (tail : List Char) (x : List Char × Source) : Prop :=
  Write.hasColonGap x.1 = true ∧
    ∃ g : Glyph, g.char = quote.char ∧ g :: x.2 <:+ Source.place m (n.heading tail)

theorem crosses_scan (htail : GoesOn tail) (hne : tail ≠ []) (quote : Quote) (start : Mark)
    (gap : Gap) (text : List Char) (m : Mark) : Yields (n.Crosses quote m tail)
      (QuotedScalar.scan quote start (.gap gap) text (Source.place m (n.heading tail))) := by
  obtain ⟨k, rest, hchars, hk, hplace⟩ := n.exists_cons tail m
  have hcolon : Yields (fun x : List Char × Source => Write.hasColonGap x.1 = true)
      (QuotedScalar.scan quote start (.gap gap) text (Source.place m (n.heading tail))) := by
    obtain ⟨d, tail, rfl⟩ := List.exists_cons_of_ne_nil hne
    have hd : d.isAlpha := htail d rfl
    have hinline := (isPrintable_of_isName (isName_of_isAlpha hd)).isInline
    have hfeed (m : Mark) : QuotedScalar.wordStage quote ⟨'\n', m⟩ =
        some (.gap (.folded ['\n'])) := QuotedScalar.wordStage_break rfl
    have hfinish : isFinish '\n' = false := rfl
    have hspace : (Gap.folded ['\n']).text = [' '] := rfl
    rw [hplace, QuotedScalar.scan_gap hk, ← hplace, heading, QuotedScalar.scan_name n.isName,
      Source.place_inline isInline_colon, QuotedScalar.scan_word isInline_colon (by decide)
        (by rintro (_ | _) <;> decide) (by decide), Source.place_lineFeed, QuotedScalar.scan]
    simp only [hfinish, Bool.false_eq_true, if_false, hfeed]
    rw [QuotedScalar.scan_indentation, Source.place_inline hinline, QuotedScalar.scan_gap hd]
    refine Yields.mono (QuotedScalar.closes_scan quote start .word _ _) fun x hx => ?_
    obtain ⟨⟨more, hmore⟩, -⟩ := hx
    rw [← hmore]
    simpa [hspace] using Write.hasColonGap_iff.2
      (List.infix_append' (text.reverse ++ gap.text ++ n.chars) [':', ' '] more)
  refine Yields.mono ((QuotedScalar.closes_scan quote start (.gap gap) text _).and hcolon) ?_
  exact fun x hx => ⟨hx.2, hx.1.2.resolve_left (by simp)⟩

end Name

open Yaml.Source

/-- Ended lines above a place, in which no flow collection and no document can end. -/
structure Above (p : Source) (m : Mark) : Prop where
  lined : p.Lined
  isFlowIndicator : ∀ g ∈ p, isFlowIndicator g.char = false
  isFinish : ∀ g ∈ p, isFinish g.char = false
  line : ∀ g ∈ p, g.mark.line < m.line

theorem Above.of_suffix {p p' : Source} {m : Mark} (h : Above p m) (hp : p' <:+ p) :
    Above p' m where
  lined := h.lined.of_suffix hp
  isFlowIndicator g hg := h.isFlowIndicator g (hp.mem hg)
  isFinish g hg := h.isFinish g (hp.mem hg)
  line g hg := h.line g (hp.mem hg)

namespace Scan

theorem isBreak_skip (inFlow inComment keyAllowed : Bool) (source : Source) :
    isBreak (skip inFlow inComment keyAllowed source).2.front = false := by
  induction source generalizing inComment keyAllowed with
  | nil => rfl
  | cons g rest ih =>
    rw [skip]
    split
    · exact ih _ _
    · next hbreak =>
      have hfront : isBreak (Source.front (g :: rest)) = false := by simpa using hbreak
      split
      · exact hfront
      · split
        · exact ih _ _
        · split
          · exact ih _ _
          · exact hfront

variable {x : List Char} {n : Name} {m : Mark} {tail : List Char} {p : Source} {g : Glyph}
  {s t u v : Scan}

/-- A token that begins above a section ends there, or it is a plain scalar that ends at the colon
of the name, or a quoted one that goes on below. -/
theorem Reads.leftOf (h : Reads u v) (hflow : u.inFlow = false) (htail : GoesOn tail)
    (hne : tail ≠ []) (hcolumn : m.column = 0) (hp : Above (g :: p) m) (hg : isBreak g.char = false)
    (hsource : u.source = g :: (p ++ place m (n.heading tail))) :
    LeftOf (g :: p) (place m (n.heading tail)) v.source ∨
      v.keyAllowed = false ∧
        v.source = place (m.after n.chars) (':' :: '\n' :: (List.replicate 2 ' ' ++ tail)) ∨
      ∃ (quote : Quote) (text : List Char), texts v.tokens = text :: texts u.tokens ∧
        n.Crosses quote m tail (text, v.source) := by
  cases h with
  | finish hfinish =>
    rw [hsource] at hfinish
    rw [Source.front_cons, hp.isFinish g List.mem_cons_self] at hfinish
    contradiction
  | sign _ hrest =>
    rw [hsource] at hrest
    exact .inl (hrest.leftOf (p := g :: p) hp.lined (List.cons_ne_nil g p))
  | @plain indent scalar hread _ hallowed =>
    rw [hsource, hflow] at hread
    have hctx : (⟨false, indent, g.mark⟩ : PlainContext).inFlow = false := rfl
    have hends := PlainScalar.scan_leftOf (fun gap text _ => n.ends_scan hctx gap m text tail)
      hp.lined none [] (fun h => absurd h (List.cons_ne_nil g p))
    rcases hends.of_eq hread with hleft | hwall | ⟨hcrossed, hcolon⟩
    · exact .inl hleft
    · exact .inl (hwall ▸ leftOf_nil _ _)
    · exact .inr (.inl ⟨hallowed.trans hcrossed, hcolon⟩)
  | @block layout parent text hread =>
    rw [hsource] at hread
    have hstops := BlockScalar.stops_read layout (Nat.zero_le (parent.getD 0))
      (n.goesOn_heading tail) hcolumn hp.lined hg
    rcases hstops.of_eq hread with hleft | hwall
    · exact .inl hleft
    · exact .inl (hwall ▸ leftOf_nil _ _)
  | @quoted quote text hfront hread htexts =>
    rw [hsource] at hread
    have hinner : p = [] → ∃ gap, QuotedScalar.Stage.word = .gap gap := by
      rintro rfl
      have hbreak := hp.lined.last
      rw [hg] at hbreak
      contradiction
    have hends := QuotedScalar.scan_leftOf
      (fun gap text => n.crosses_scan htail hne quote g.mark gap text m) hp.lined.tail .word []
      hinner
    rcases hends.of_eq hread with hleft | hcrosses
    · exact .inl (hleft.cons g)
    · exact .inr (.inr ⟨quote, text, htexts, hcrosses⟩)

/-- Reading stands above a section or at its name, and has not read a text. -/
structure Ahead (x : List Char) (p wall : Source) (m : Mark) (s : Scan) : Prop where
  source : LeftOf p wall s.source
  outer : s.outer = []
  candidate : ∀ c ∈ s.candidate, c.mark.line < m.line
  texts : x ∉ texts s.tokens

/-- Where no key may begin, the colon of a name is an error. -/
theorem avoids_unkeyed (hname : x ≠ n.chars) {tokens : List Lexeme} (hx : x ∉ texts tokens)
    (columns : List Nat) :
    Avoids [x] (between (place m (n.heading tail)) tokens columns false) := by
  obtain ⟨k, rest, hchars, hk, hplace⟩ := n.exists_cons tail m
  obtain ⟨ends, columns', hends, hclose⟩ := exists_closeBlocks
    ((place m (n.heading tail)).column < ·) (place m (n.heading tail)) tokens columns false
  have hinline : IsInline k := n.isInline (hchars ▸ List.mem_cons_self)
  have hread : PlainScalar.read false ((columns'.head?.map (· + 1)).getD 0)
      (place m (n.heading tail)) = .ok (⟨n.chars, false⟩,
        place (m.after n.chars) (':' :: '\n' :: (List.replicate 2 ' ' ++ tail))) :=
    PlainScalar.scan_name rfl n.isName (.inr rfl) _
  rw [hplace] at hread
  have hdispatch := dispatch_plain_value (ends ++ tokens) columns' (isDocumentMark_of_isAlpha hk)
    (hinline.isGap (ne_of_isAlpha hk rfl)) (isIndicator_of_isAlpha hk) hread
  rw [← hplace, ← hclose] at hdispatch
  refine avoids_of_step (by simpa using hx) ?_
  rw [step_between (skip_goesOn (n.goesOn_heading tail)), bind_expire hdispatch]
  refine Yields.ok (avoids_of_step (by simpa [hends] using ⟨hname, hx⟩) ?_)
  exact yields_strayColon (Name.strayColon _ _) rfl rfl (fun c hc => absurd hc (by simp))

variable (htail : GoesOn tail) (hne : tail ≠ []) (hcolumn : m.column = 0)
  (hname : total charWeight n.chars = 0) (hp : Above p m) (hcolon : Write.hasColonGap x = false)
  (hweight : p.total charWeight < total charWeight x)
  (hbehind : ∀ (t : Scan) (g : Glyph) (quote : Quote), g.char = quote.char →
    g :: t.source <:+ place m (n.heading tail) → x ∉ texts t.tokens → Avoids [x] t)

include htail hne hcolumn hname hp hcolon hweight hbehind

/-- A token that begins above a section does not have the text. -/
theorem ahead_of_lexes {g : Glyph} {p' : Source} (hp' : g :: p' <:+ p)
    (hsource : u.source = g :: (p' ++ place m (n.heading tail)))
    (hbreak : isBreak u.source.front = false) (houter : u.outer = [])
    (hcandidate : ∀ c ∈ u.candidate, c.mark.line < m.line) (hx : x ∉ texts u.tokens)
    (hlexes : Lexes u v) (hexpires : Expires v t) :
    Ahead x p (place m (n.heading tail)) m t ∨ Avoids [x] t := by
  have habove : Above (g :: p') m := hp.of_suffix hp'
  have hfront : u.source.front = g.char := by rw [hsource]; rfl
  rw [hfront] at hbreak
  have hindicator : isFlowIndicator u.source.front = false := by
    rw [hfront]
    exact habove.isFlowIndicator g List.mem_cons_self
  have hflow : u.inFlow = false := by rw [inFlow, houter]; rfl
  have houter : t.outer = [] := hexpires.outer (hlexes.outer hindicator houter)
  have hcandidate : ∀ c ∈ t.candidate, c.mark.line < m.line := by
    intro c hc
    rcases hlexes.candidate hindicator c (hexpires.candidate c hc).1 with hc | hc
    · exact hcandidate c hc
    · rw [hc, Scan.mark, hsource]
      exact habove.line g List.mem_cons_self
  -- what is not read of the section weighs as much as all of it
  have htexts (hrest : (place m (n.heading tail)).total charWeight ≤ v.source.total charWeight) :
      x ∉ texts t.tokens := by
    obtain ⟨new, hnew, haccounts⟩ := accounts_of_reads hlexes.reads
    rw [hexpires.tokens, hnew, List.mem_append, not_or]
    refine ⟨fun hmem => ?_, hx⟩
    have hle := haccounts.total_le (show [x].Nodup by simp) (by simpa using hmem)
    have hpart := Source.total_of_suffix (w := charWeight) hp'
    simp only [total_cons, total_nil, hsource, Source.total_cons, Source.total_append] at hle hpart
    omega
  rcases hlexes.reads.leftOf hflow htail hne hcolumn habove hbreak hsource with
    hleft | ⟨hallowed, hstray⟩ | ⟨quote, text, hnew, hgap, g', hg', hrest⟩
  · obtain ⟨q, hq, hrest⟩ := hleft
    refine .inl ⟨⟨q, hq.trans hp', hexpires.source.trans hrest⟩, houter, hcandidate, htexts ?_⟩
    rw [hrest, Source.total_append]
    exact Nat.le_add_left _ _
  · refine .inr (avoids_of_step (lacks_singleton.2 (htexts ?_)) ?_)
    · rw [hstray, n.total_heading, hname, Nat.zero_add]
    · have hrest := hexpires.source.trans hstray
      refine yields_strayColon (hrest ▸ Name.strayColon _ _) houter
        (hexpires.keyAllowed.trans hallowed) fun c hc => ?_
      exact isExpired_of_line (by simpa [Scan.mark, hrest] using hcandidate c hc)
  · refine .inr (hbehind t g' quote hg' (hexpires.source ▸ hrest) ?_)
    rw [hexpires.tokens, hnew, List.mem_cons, not_or]
    refine ⟨?_, hx⟩
    rintro rfl
    rw [hcolon] at hgap
    contradiction

/-- A text that is heavier than the lines above a section is not read of them, if it is not read
from the section on. By induction on the steps, each of which leaves less of the lines. -/
theorem avoids_of_ahead (hwall : ∀ tokens columns, x ∉ texts tokens →
      Avoids [x] (between (place m (n.heading tail)) tokens columns true))
    (hs : Ahead x p (place m (n.heading tail)) m s) : Avoids [x] s := by
  have hkey : x ≠ n.chars := by
    rintro rfl
    omega
  have hskip (keyAllowed : Bool) : skip false false keyAllowed (place m (n.heading tail)) =
      (keyAllowed, place m (n.heading tail)) := skip_goesOn (n.goesOn_heading tail)
  refine avoids_of_invariant (fun s hs => lacks_singleton.2 hs.texts) (fun s hs => ?_) hs
  obtain ⟨⟨q, hq, hsource⟩, houter, hcandidate, hx⟩ := hs
  have hflow : s.inFlow = false := by rw [inFlow, houter]; rfl
  obtain ⟨p', hp', hrest⟩ := skip_leftOf hskip (hp.lined.of_suffix hq) false s.keyAllowed
    fun _ => rfl
  rw [← hsource] at hrest
  cases p' with
  | nil =>
    obtain ⟨keyAllowed, hstart⟩ : ∃ keyAllowed, skip false false s.keyAllowed s.source =
        (keyAllowed, place m (n.heading tail)) := ⟨_, Prod.ext rfl hrest⟩
    refine .inl (avoids_of_skip houter hstart (hskip keyAllowed) (fun c hc => ?_) ?_)
    · exact isExpired_of_line (by simpa using hcandidate c hc)
    · cases keyAllowed with
      | true => exact hwall _ _ hx
      | false => exact avoids_unkeyed hkey hx _
  | cons g p' =>
    refine .inr (Yields.mono (advances_step s) fun t ht => ?_)
    obtain ⟨u, v, hstart, htexts, hou, hcu, hlexes, hexpires⟩ := ht.lexes
    have hbreak := isBreak_skip s.inFlow false s.keyAllowed s.source
    rw [hstart] at hbreak
    rw [hflow] at hstart
    rw [hstart] at hrest
    exact ahead_of_lexes htail hne hcolumn hname hp hcolon hweight hbehind (hp'.trans hq) hrest
      hbreak (hou houter) (fun c hc => hcandidate c (hcu c hc)) (htexts ▸ hx) hlexes hexpires

end Scan

end Planimeter.Yaml
