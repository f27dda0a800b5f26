import Planimeter.Proofs.Yaml.Unheld
/-!
# Texts that are missed

A document of two sections is followed from key to key. If the value in one of them is not held, it
is not among the texts that are read, or a heavier value in the other is not.
-/
namespace Planimeter.Yaml

open Yaml.Source
open Scan (between Avoids)

namespace Scan

variable {xs : List (List Char)} {m : Mark} {tokens : List Lexeme} {columns : List Nat}
  {tail rest : List Char}

/-- A key is read wherever one may begin. -/
theorem avoids_key (n : Name) {c : Char} (hc : c = ' ' ∨ c = '\n')
    (h : ∀ tokens' columns', texts tokens' = n.chars :: texts tokens →
      Avoids xs (between (place ((m.after n.chars).next ':') (c :: tail)) tokens'
        (m.column :: columns') false)) :
    Avoids xs (between (place m (n.chars ++ ':' :: c :: tail)) tokens columns true) := by
  obtain ⟨closed, open', rfl, hclosed, hopen⟩ : ∃ closed open', columns = closed ++ open' ∧
      (∀ k ∈ closed, m.column < k) ∧ ∀ k ∈ open'.head?, k ≤ m.column := by
    refine ⟨columns.takeWhile (m.column < ·), columns.dropWhile (m.column < ·),
      List.takeWhile_append_dropWhile.symm, fun k hk => ?_, fun k hk => ?_⟩
    · simpa using List.all_eq_true.1 List.all_takeWhile k hk
    · have hhead := List.head?_dropWhile_not (fun k => decide (m.column < k)) columns
      rw [hk] at hhead
      simpa using hhead
  obtain ⟨s, -, hs, hfirst, hsecond⟩ := exists_step_key n.goesOn n.ne_nil n.isName n.length_le
    hclosed hopen hc tokens tail
  obtain ⟨columns', hcolumns'⟩ : ∃ columns', (if open'.head? ≠ some m.column then
      m.column :: open' else open') = m.column :: columns' := by
    split
    · exact ⟨open', rfl⟩
    · next hhead =>
      obtain ⟨columns', hcolumns'⟩ := List.head?_eq_some_iff.1 (not_not.1 hhead)
      exact ⟨columns', hcolumns'⟩
  have hends : texts (List.replicate closed.length ⟨.blockEnd, m⟩ ++ tokens) = texts tokens := by
    simp
  have hstart : texts (if open'.head? ≠ some m.column then [⟨.blockMappingStart, m⟩] else []) =
      [] := by
    split <;> rfl
  have hlast := h (⟨.value, m.after n.chars⟩ :: ⟨.scalar n.chars .plain, m⟩ :: ⟨.key, m⟩ ::
    ((if open'.head? ≠ some m.column then [⟨.blockMappingStart, m⟩] else []) ++
      (List.replicate closed.length ⟨.blockEnd, m⟩ ++ tokens))) columns' (by
        change n.chars :: texts (_ ++ _) = _
        rw [texts_append, hstart, hends, List.nil_append])
  rw [← hcolumns'] at hlast
  have hkey : Avoids xs s := by
    refine avoids_of_step ?_ (hsecond ▸ Yields.ok hlast)
    obtain ⟨x, hx, hlacks⟩ := hlast.tokens
    refine ⟨x, hx, fun hmem => hlacks ?_⟩
    rw [hs, texts_scalar, hends] at hmem
    change x ∈ n.chars :: texts (_ ++ _)
    rwa [texts_append, hstart, hends, List.nil_append]
  refine avoids_of_step ?_ (hfirst ▸ Yields.ok hkey)
  obtain ⟨x, hx, hlacks⟩ := hkey.tokens
  refine ⟨x, hx, fun hmem => hlacks ?_⟩
  rw [hs, texts_scalar, hends]
  exact List.mem_cons_of_mem _ hmem

/-- The heading of a section, and the name of its first field. -/
theorem avoids_section (n field : Name)
    (h : ∀ m' tokens' columns', 2 < m'.column →
      texts tokens' = field.chars :: n.chars :: texts tokens →
        Avoids xs (between (place m' (' ' :: tail)) tokens' (2 :: columns') false)) :
    Avoids xs (between (place m (n.heading (field.chars ++ ':' :: ' ' :: tail))) tokens columns
      true) := by
  refine avoids_key n (.inr rfl) fun tokens' columns' htokens' => ?_
  have hgoes : GoesOn (field.chars ++ ':' :: ' ' :: tail) := field.goesOn_append _
  refine avoids_of_skip rfl (skip_line hgoes 2) (skip_goesOn hgoes)
    (fun c hc => absurd hc (by simp)) ?_
  refine avoids_key field (.inl rfl) fun tokens'' columns'' htokens'' => ?_
  have hlonger : 0 < field.chars.length := List.length_pos_iff.2 field.ne_nil
  rw [Mark.below_column]
  refine h _ _ _ ?_ (by rw [htokens'', htokens'])
  simp only [Mark.next_column, Mark.after_column, Mark.below_column]
  omega

/-- A value that is held is read up to the next key. -/
theorem avoids_readsAs {written text : List Char} {style : Style}
    (hread : ReadsAs written text style) (hcolumn : 2 < m.column) {indent : Nat}
    (hindent : indent ≤ 2) (hrest : GoesOn rest)
    (h : ∀ m' tokens', m'.column = indent → texts tokens' = text :: texts tokens →
      Avoids xs (between (place m' rest) tokens' (2 :: columns) true)) :
    Avoids xs (between (place m (' ' :: (written ++ (List.replicate indent ' ' ++ rest)))) tokens
      (2 :: columns) false) := by
  obtain ⟨m', v, source, keyAllowed, hm', hstep, hskip⟩ :=
    hread m tokens columns indent rest hcolumn hindent hrest
  have hnext := h m' (⟨.scalar text style, v⟩ :: tokens) hm' rfl
  have hstart : Avoids xs (between source (⟨.scalar text style, v⟩ :: tokens) (2 :: columns)
      keyAllowed) :=
    avoids_of_skip rfl hskip (skip_goesOn hrest) (fun c hc => absurd hc (by simp)) hnext
  refine avoids_of_step ?_ (hstep ▸ Yields.ok hstart)
  obtain ⟨x, hx, hlacks⟩ := hnext.tokens
  exact ⟨x, hx, fun hmem => hlacks (List.mem_cons_of_mem _ hmem)⟩

end Scan

namespace Write

theorem total_octet : ∀ n < 256, total charWeight (octet n) = 0 := by
  decide +kernel

/-- What a character is written as between quotes weighs no more than the character. -/
theorem total_escape_le (c : Char) : total charWeight (escape c) ≤ charWeight c := by
  by_cases hself : escape c = [c]
  · simp [hself]
  · have hweight : charWeight c = if (escape c).any isSpelling then 3 else
        if c == '\x22' || c == '\x27' then 1 else 0 := rfl
    rw [hweight]
    generalize hescape : escape c = written at hself
    unfold escape at hescape
    split at hescape
    case h_16 =>
      split at hescape
      · next hcontrol =>
        subst hescape
        have hletter : charWeight '\\' = 0 ∧ charWeight 'x' = 3 ∧ isSpelling 'x' := ⟨rfl, rfl, rfl⟩
        simp [hletter, total_octet _ (lt_of_isControl hcontrol)]
      · exact absurd hescape.symm hself
    all_goals
      subst hescape
      decide

theorem total_quote_le (cs : List Char) :
    total charWeight (quote cs) ≤ total charWeight cs + 2 := by
  have hquote : charWeight '\x22' = 1 := rfl
  have hescape : total charWeight (cs.flatMap escape) ≤ total charWeight cs := by
    induction cs with
    | nil => exact Nat.le_refl _
    | cons c cs ih =>
      have hc := total_escape_le c
      simp
      omega
  simp [quote, hquote]
  omega

theorem separator_quote (cs : List Char) : ∀ c ∈ quote cs, isSeparator c = false := by
  intro c hc
  simp only [quote, List.mem_append, List.mem_cons, List.mem_flatMap, List.not_mem_nil,
    or_false] at hc
  rcases hc with (rfl | ⟨d, -, hc⟩) | rfl
  · rfl
  · exact ((escaped d).mem hc).1.separator
  · rfl

/-- A text weighs no less than what it is written as, but for its quotes. -/
theorem weight_scalar (cs : List Char) : total charWeight (scalar cs) ≤ total charWeight cs ∨
    total charWeight (scalar cs) ≤ total charWeight cs + 2 ∧
      ∀ c ∈ scalar cs, isSeparator c = false := by
  have hform := form cs
  generalize scalar cs = written at hform
  cases hform with
  | literal hfeed hplain =>
    rw [BlockScalar.literal_eq, total_block (by decide)]
    exact .inl (total_unended_le cs)
  | loneMark hlone =>
    simp only [isLoneMark, Bool.or_eq_true, beq_iff_eq] at hlone
    rcases hlone with (rfl | rfl) | rfl <;> exact .inr ⟨by decide, by simp [isSeparator]⟩
  | quoted hplain =>
    have hweight := total_quote_le cs
    refine .inr ⟨by simpa using hweight, ?_⟩
    simpa only [List.forall_mem_append, List.forall_mem_singleton] using ⟨separator_quote cs, rfl⟩
  | folded hplain hlong =>
    rw [folded_eq ((plain_of_isPlain hplain).not_mem (by decide)), total_block (by decide)]
    exact .inl ((broken_fold cs).total_add_le rfl).1
  | plain hplain hshort => exact .inl (by simp)

/-- A text without quotes has no marks of flow collections, nor has what it is written as. -/
theorem isFlowIndicator_scalar {cs : List Char} (hbare : isBare cs)
    (hseparators : ∃ c ∈ cs, isSeparator c) : ∀ c ∈ scalar cs, isFlowIndicator c = false := by
  have hexcluded {c : Char} (hc : isExcluded c = false) : isFlowIndicator c = false := by
    rw [Bool.eq_false_iff]
    intro hflow
    simp only [isFlowIndicator, Bool.or_eq_true, beq_iff_eq] at hflow
    rcases hflow with (((rfl | rfl) | rfl) | rfl) | rfl <;> contradiction
  have hmem : ∀ c ∈ blockMarks ++ cs, isFlowIndicator c = false := by
    refine List.forall_mem_append.2 ⟨by simp [blockMarks, isFlowIndicator], fun c hc => ?_⟩
    rcases excluded_of_isBare hbare c hc with rfl | hc
    · rfl
    · exact hexcluded hc
  refine fun c hc => hmem c (List.mem_append.2 ?_)
  rcases scalar_of_isBare hbare hseparators with ⟨hplain, hscalar⟩ | ⟨hplain, hscalar | hscalar⟩
  · rw [hscalar, BlockScalar.literal_eq] at hc
    exact (mem_block _ _ hc).imp_right mem_unended
  · rw [hscalar, folded_eq (hplain.not_mem (by decide))] at hc
    rcases mem_block _ _ hc with hc | hc
    · exact .inl hc
    · rcases mem_intercalate hc with rfl | hc
      · exact .inl (by decide)
      · exact .inr hc
  · rw [hscalar, List.mem_append, List.mem_singleton] at hc
    rcases hc with hc | rfl
    · exact .inr hc
    · exact .inl (by decide)

/-- The text is written without quotes, and a separator of lines in it gets lost. -/
structure Unheld (cs : List Char) : Prop where
  isBare : isBare cs
  not_held : ¬Held cs

namespace Unheld

variable {cs : List Char}

theorem exists_separator (h : Unheld cs) : ∃ c ∈ cs, isSeparator c := by
  by_contra hnone
  simp only [not_exists, not_and, Bool.not_eq_true] at hnone
  exact h.not_held (held_of_separator h.isBare hnone)

theorem weight (h : Unheld cs) : 3 ≤ total charWeight cs := by
  obtain ⟨c, hc, hseparator⟩ := h.exists_separator
  rw [← charWeight_of_isSeparator hseparator]
  exact le_total hc

/-- The lines that the text is written on. -/
theorem above (h : Unheld cs) (m : Mark) : Above (laid m (scalar cs)) (m.through (scalar cs)) where
  lined := Scan.lined_scalar cs m
  isFlowIndicator _ hg :=
    isFlowIndicator_scalar h.isBare h.exists_separator _ (char_of_mem_laid hg)
  isFinish _ hg := (Scan.isLaid_scalar cs _ (char_of_mem_laid hg)).isFinish
  line _ hg := by
    refine line_of_mem_laid (fun c hc => ?_) hg
    obtain ⟨front, hfront⟩ := (form cs).exists_lineFeed
    rw [hfront, List.getLast?_concat] at hc
    obtain rfl := Option.some.inj hc
    rfl

end Unheld

theorem held_of_not_unheld {cs : List Char} (h : ¬Unheld cs) (hbare : isBare cs) : Held cs := by
  by_contra hheld
  exact h ⟨hbare, hheld⟩

end Write

/-- The name of a section and that of its first field, which weigh nothing. -/
structure Opening where
  name : Name
  field : Name
  weight_name : total charWeight name.chars = 0
  weight_field : total charWeight field.chars = 0

namespace Opening

variable (o : Opening) {o' : Opening} {xs : List (List Char)} {m : Mark} {tokens : List Lexeme}
  {columns : List Nat} {x y rest : List Char}

/-- A section whose first field has a text as its value. -/
def lines (cs rest : List Char) : List Char :=
  o.name.heading (o.field.chars ++ ':' :: ' ' :: (Write.scalar cs ++ rest))

theorem goesOn_lines (cs rest : List Char) : GoesOn (o.lines cs rest) := o.name.goesOn_heading _

@[simp] theorem weight_lines (cs rest : List Char) : total charWeight (o.lines cs rest) =
    total charWeight (Write.scalar cs) + total charWeight rest := by
  have hcolon : charWeight ':' = 0 := rfl
  simp [lines, Name.heading, o.weight_name, o.weight_field, hcolon]

theorem separator_lines {cs : List Char} (hcs : ∀ c ∈ Write.scalar cs, isSeparator c = false)
    (hrest : ∀ c ∈ rest, isSeparator c = false) : ∀ c ∈ o.lines cs rest, isSeparator c = false := by
  have hname (n : Name) : ∀ c ∈ n.chars, isSeparator c = false :=
    fun c hc => (n.isInline hc).separator
  intro c hc
  simp only [lines, Name.heading, List.mem_append, List.mem_cons, List.mem_replicate] at hc
  rcases hc with hc | rfl | rfl | ⟨-, rfl⟩ | hc | rfl | rfl | hc | hc
  · exact hname o.name c hc
  · rfl
  · rfl
  · rfl
  · exact hname o.field c hc
  · rfl
  · rfl
  · exact hcs c hc
  · exact hrest c hc

theorem not_mem_texts (hx : 0 < total charWeight x) {tokens' : List Lexeme}
    (htokens : x ∉ texts tokens)
    (htokens' : texts tokens' = o.field.chars :: o.name.chars :: texts tokens) :
    x ∉ texts tokens' := by
  rw [htokens', List.mem_cons, List.mem_cons, not_or, not_or]
  refine ⟨?_, ?_, htokens⟩
  · rintro rfl
    rw [o.weight_field] at hx
    contradiction
  · rintro rfl
    rw [o.weight_name] at hx
    contradiction

open Scan (Remains)

theorem not_mem_of_remains {cs : List Char} {indent : Nat} {s : Scan}
    (hs : Remains cs m indent rest tokens s) (hx : ¬Lighter x cs) (htokens : x ∉ texts tokens) :
    x ∉ texts s.tokens := by
  rcases hs.texts with htexts | ⟨y, hy, htexts⟩
  · rwa [htexts]
  · rw [htexts, List.mem_cons, not_or]
    exact ⟨fun heq => hx (heq ▸ hy), htokens⟩

/-- A value that is held leaves a text that is not to the next section. -/
theorem avoids_held (hx : Write.Unheld x) (hy : ¬Write.Unheld y) {indent : Nat}
    (hindent : indent ≤ 2) (hrest : GoesOn rest) (htokens : x ∉ texts tokens)
    (h : ∀ m' tokens', m'.column = indent → x ∉ texts tokens' →
      Avoids [x] (between (place m' rest) tokens' (2 :: columns) true)) (hm : 2 < m.column) :
    Avoids [x] (between (place m (' ' :: (Write.scalar y ++ (List.replicate indent ' ' ++ rest))))
      tokens (2 :: columns) false) := by
  obtain ⟨text, style, hread, -, -, htext⟩ :=
    exists_readsAs (Write.form y) (Write.held_of_not_unheld hy)
  refine Scan.avoids_readsAs hread hm hindent hrest fun m' tokens' hm' htexts => h m' tokens' hm' ?_
  rw [htexts, List.mem_cons, not_or]
  refine ⟨?_, htokens⟩
  rintro rfl
  rcases htext with rfl | hnone
  · exact hy hx
  · obtain ⟨c, hc, hseparator⟩ := hx.exists_separator
    rw [hnone c hc] at hseparator
    contradiction

variable (hlight : total charWeight rest = 0)

include hlight

/-- A text that is not held is not read in the last section, unless its value is heavier. -/
theorem avoids_last (hrest : GoesOn rest) (hx : Write.Unheld x) (hxy : ¬Lighter x y)
    (htokens : x ∉ texts tokens) :
    Avoids [x] (between (place m (o.lines y (List.replicate 2 ' ' ++ rest))) tokens columns
      true) := by
  have hweight := hx.weight
  refine Scan.avoids_section o.name o.field fun m' tokens' columns' hm' htexts => ?_
  have htokens' : x ∉ texts tokens' := o.not_mem_texts (by omega) htokens htexts
  by_cases hy : Write.Unheld y
  · refine Scan.avoids_unheld (Nat.le_refl 2) hrest hm'
      ⟨x, List.mem_singleton_self x, htokens', hxy⟩ (fun s hs => ?_) hy.isBare hy.not_held
    have hleft := hs.weight
    have hmem := not_mem_of_remains hs hxy htokens'
    refine Scan.avoids_of_weight (by simp) (by simp) (by simpa using hmem) ?_
    simp only [Lighter, not_or] at hxy
    simp
    omega
  · refine avoids_held hx hy (Nat.le_refl 2) hrest htokens' (fun m'' tokens'' _ htokens'' => ?_) hm'
    refine Scan.avoids_of_weight (by simp) (by simp) (by simpa using htokens'') ?_
    simp [hlight]
    omega

/-- A text that is not held is not read together with a heavier one in the next section. -/
theorem avoids_both (hx : Write.Unheld x) (hxy : Lighter x y) (htokens : ∀ z, z ∉ texts tokens) :
    Avoids [x, y] (between (place m (o'.lines x (o.lines y (List.replicate 2 ' ' ++ rest)))) tokens
      columns true) := by
  have hweight := hx.weight
  have hle := hxy.weight_le
  refine Scan.avoids_section o'.name o'.field fun m' tokens' columns' hm' htexts => ?_
  have htokens' {z : List Char} (hz : 0 < total charWeight z) : z ∉ texts tokens' :=
    o'.not_mem_texts hz (htokens z) htexts
  refine Scan.avoids_unheld (Nat.zero_le 2) (o.goesOn_lines y _) hm'
    ⟨x, List.mem_cons_self, htokens' (by omega), Lighter.irrefl x⟩ (fun s hs => ?_)
    hx.isBare hx.not_held
  have hyx : ¬Lighter y x := fun hyx => Lighter.irrefl x (hxy.trans hyx)
  have hne : x ≠ y := by
    rintro rfl
    exact Lighter.irrefl x hxy
  have hmem : ∀ z ∈ [x, y], z ∉ texts s.tokens := by
    simp only [List.forall_mem_cons]
    exact ⟨not_mem_of_remains hs (Lighter.irrefl x) (htokens' (by omega)),
      not_mem_of_remains hs hyx (htokens' (by omega)), by simp⟩
  refine Scan.avoids_of_weight (by simpa using hne) (by simp) hmem ?_
  have hleft := hs.weight
  have hscalar := Write.weight_scalar y
  simp [hlight] at hleft ⊢
  omega

variable (hseparators : ∀ c ∈ rest, isSeparator c = false)

include hseparators

/-- Behind a quote in the last section there is no weight for a text that is not lighter. -/
theorem avoids_behind {t : Scan} {g : Glyph} {quote : Quote} (hg : g.char = quote.char)
    (hsuffix : g :: t.source <:+ place m (o.lines y (List.replicate 2 ' ' ++ rest)))
    (hx : ∃ c ∈ x, isSeparator c) (hxy : ¬Lighter x y) (htokens : x ∉ texts t.tokens) :
    Avoids [x] t := by
  have hpart := Source.total_of_suffix (w := charWeight) hsuffix
  have hquote := QuotedScalar.charWeight_quote quote
  simp only [Lighter, not_or] at hxy
  simp [hg, hquote, hlight] at hpart
  rcases Write.weight_scalar y with hscalar | ⟨hscalar, hnone⟩
  · refine Scan.avoids_of_weight (by simp) (by simp) (by simpa using htokens) ?_
    simp
    omega
  · obtain ⟨c, hc, hseparator⟩ := hx
    have hlines : ∀ c ∈ o.lines y (List.replicate 2 ' ' ++ rest), isSeparator c = false := by
      refine o.separator_lines hnone (List.forall_mem_append.2 ⟨fun c hc => ?_, hseparators⟩)
      rw [List.eq_of_mem_replicate hc]
      rfl
    exact Scan.avoids_of_separators htokens (fun g' hg' => Source.separator_place hlines m g'
      (hsuffix.mem (List.mem_cons_of_mem g hg'))) hc hseparator (by omega)

/-- Nor is it read in the section before. -/
theorem avoids_first (hrest : GoesOn rest) (hx : Write.Unheld x) (hxy : ¬Lighter x y)
    (htokens : x ∉ texts tokens) :
    Avoids [x] (between (place m (o'.lines x (o.lines y (List.replicate 2 ' ' ++ rest)))) tokens
      columns true) := by
  have hweight := hx.weight
  refine Scan.avoids_section o'.name o'.field fun m' tokens' columns' hm' htexts => ?_
  have htokens' : x ∉ texts tokens' := o'.not_mem_texts (by omega) htokens htexts
  refine Scan.avoids_unheld (Nat.zero_le 2) (o.goesOn_lines y _) hm'
    ⟨x, List.mem_singleton_self x, htokens', Lighter.irrefl x⟩ (fun s hs => ?_)
    hx.isBare hx.not_held
  have hcolumn := Scan.column_scalar x (m'.next ' ')
  have hleft : LeftOf (laid (m'.next ' ') (Write.scalar x))
      (place ((m'.next ' ').through (Write.scalar x))
        (o.lines y (List.replicate 2 ' ' ++ rest))) s.source :=
    hs.source.elim id fun hsource => hsource ▸ leftOf_nil _ _
  have habove : Above (laid (m'.next ' ') (Write.scalar x))
      ((m'.next ' ').through (Write.scalar x)) := hx.above _
  obtain ⟨q, hq, hsource⟩ := hleft
  have hlost := hs.weight
  refine Scan.avoids_of_ahead (o.field.goesOn_append _)
    (List.append_ne_nil_of_left_ne_nil o.field.ne_nil _) hcolumn o.weight_name
    (habove.of_suffix hq) (Write.colonGap_of_isBare hx.isBare) ?_
    (fun t g quote hg hsuffix hx' =>
      o.avoids_behind hlight hseparators hg hsuffix hx.exists_separator hxy hx')
    (fun tokens columns hx' => o.avoids_last hlight hrest hx hxy hx')
    ⟨⟨q, List.suffix_refl q, hsource⟩, hs.outer, fun c hc => ?_,
      not_mem_of_remains hs (Lighter.irrefl x) htokens'⟩
  · simp [hsource] at hlost
    omega
  · rw [hs.candidate] at hc
    contradiction

end Opening

/-- A text that is not held is not read, or a heavier one in the other section is not. -/
theorem exists_missing (o o' : Opening) {x y rest : List Char} (hrest : GoesOn rest)
    (hlight : total charWeight rest = 0) (hseparators : ∀ c ∈ rest, isSeparator c = false)
    (h : Write.Unheld x ∨ Write.Unheld y) : ∃ z ∈ [x, y], 0 < total charWeight z ∧
      z ∉ texts (tokens (.ofText (o.lines x (o'.lines y (List.replicate 2 ' ' ++ rest))))).1 := by
  obtain ⟨xs, hxs, havoids⟩ : ∃ xs, (∀ z ∈ xs, z ∈ [x, y] ∧ 0 < total charWeight z) ∧
      Avoids xs (between (place .zero (o.lines x (o'.lines y (List.replicate 2 ' ' ++ rest)))) [] []
        true) := by
    have hnew (z : List Char) : z ∉ texts [] := List.not_mem_nil
    by_cases hx : Write.Unheld x
    · have hweight := hx.weight
      by_cases hxy : Lighter x y
      · have hle := hxy.weight_le
        refine ⟨[x, y], ?_, o'.avoids_both hlight hx hxy hnew⟩
        simp
        omega
      · refine ⟨[x], ?_, o'.avoids_first hlight hseparators hrest hx hxy (hnew x)⟩
        simp
        omega
    · have hy := h.resolve_left hx
      have hweight := hy.weight
      refine ⟨[y], by simp; omega, Scan.avoids_section o.name o.field
        fun m tokens columns hm htexts => ?_⟩
      refine Opening.avoids_held hy hx (Nat.zero_le 2) (o'.goesOn_lines y _)
        (o.not_mem_texts (by omega) (hnew y) htexts) (fun m' tokens' _ htokens' => ?_) hm
      exact o'.avoids_last hlight hrest hy (Lighter.irrefl y) htokens'
  obtain ⟨z, hz, hmem⟩ :=
    havoids.run (Source.ofText (o.lines x (o'.lines y (List.replicate 2 ' ' ++ rest)))).length
  exact ⟨z, (hxs z hz).1, (hxs z hz).2, hmem⟩

end Planimeter.Yaml
