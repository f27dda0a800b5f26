import Planimeter.Proofs.Yaml.Ahead
import Planimeter.Proofs.Yaml.BlockLosses
import Planimeter.Proofs.Yaml.Forms
/-!
# Texts that are not held

A text without quotes whose separators are not all held is not read as it was written: either its
scalar is a lighter text, or there is none. What the reader leaves of it is lighter by a separator.
-/
namespace Planimeter.Yaml

open Yaml.Source
open Scan (between)

/-- The text weighs less than another, or it weighs the same and is smaller. -/
def Lighter (x y : List Char) : Prop :=
  total charWeight x < total charWeight y ∨
    total charWeight x = total charWeight y ∧ total charSize x < total charSize y

namespace Lighter

variable {x y z : List Char}

theorem irrefl (x : List Char) : ¬Lighter x x := by
  simp [Lighter]

theorem trans (h : Lighter x y) (h' : Lighter y z) : Lighter x z := by
  unfold Lighter at *
  omega

theorem weight_le (h : Lighter x y) : total charWeight x ≤ total charWeight y :=
  h.elim Nat.le_of_lt fun h => Nat.le_of_eq h.1

theorem of_le (hweight : total charWeight x ≤ total charWeight y)
    (hsize : total charSize x < total charSize y) : Lighter x y := by
  unfold Lighter
  omega

end Lighter

@[simp] theorem charWeight_space : charWeight ' ' = 0 := rfl

@[simp] theorem charWeight_lineFeed : charWeight '\n' = 0 := rfl

/-- The marks and line ends of a laid out text weigh nothing. -/
@[simp] theorem Source.weight_place (m : Mark) (cs : List Char) :
    (place m cs).total charWeight = Yaml.total charWeight cs := by
  refine total_place (fun c hc => ?_) rfl m cs
  simp only [isLineEnd, Bool.or_eq_true, beq_iff_eq] at hc
  rcases hc with (rfl | rfl) | rfl <;> rfl

namespace Write

variable {cs text : List Char} {lines : List (List Char)} {w : Char → Nat}

/-- What is written ends its last line. -/
theorem Form.exists_lineFeed {written : List Char} (h : Form cs written) :
    ∃ front, written = front ++ ['\n'] := by
  have hblock (layout : BlockScalar.Layout) (chomping : BlockScalar.Chomping) (v : List Char) :
      ∃ front, layout.indicator :: (chomping.sign ++ '\n' :: (margin ++ (body v ++ ['\n']))) =
        front ++ ['\n'] :=
    ⟨layout.indicator :: (chomping.sign ++ '\n' :: (margin ++ body v)), by simp⟩
  cases h with
  | literal h hplain =>
    rw [BlockScalar.literal_eq]
    exact hblock _ _ _
  | loneMark h => exact ⟨'\x27' :: cs ++ ['\x27'], by simp⟩
  | quoted h => exact ⟨_, rfl⟩
  | folded h hlong =>
    rw [folded_eq ((plain_of_isPlain h).not_mem (by decide))]
    exact hblock _ _ _
  | plain h hshort => exact ⟨_, rfl⟩

end Write

namespace BlockScalar

variable {cs : List Char}

/-- A text has a separator that is not held unless there is a break behind each. -/
theorem loses_of_not_followed {chomping : Chomping} (h : Write.followed cs = false)
    (hlast : ∀ c ∈ cs.getLast?, isSeparator c → chomping ≠ .keep) (layout : Layout) :
    Loses layout chomping cs := by
  fun_induction Write.followed cs with
  | case1 => contradiction
  | case2 c =>
    have hc : isSeparator c := by simpa using h
    exact .here hc (hlast c rfl hc)
  | case3 c d cs ih =>
    rw [Bool.and_eq_false_iff, Bool.or_eq_false_iff] at h
    rcases h with ⟨hc, hbreak⟩ | h
    · exact .here (by simpa using hc) (.inr hbreak)
    · exact .later (ih h fun e he => hlast e (by simpa using he))

/-- No separator of a folded scalar is held. -/
theorem loses_folded (h : ∃ c ∈ cs, isSeparator c) : Loses .folded .strip cs := by
  obtain ⟨c, hc, hseparator⟩ := h
  induction cs with
  | nil => contradiction
  | cons d cs ih =>
    rcases List.mem_cons.1 hc with rfl | hc
    · refine .here hseparator ?_
      cases cs with
      | nil => exact Chomping.noConfusion
      | cons e cs => exact .inl rfl
    · exact .later (ih hc)

end BlockScalar

namespace Write

variable {cs text : List Char} {lines : List (List Char)} {w : Char → Nat}

/-- How a text with separators is written if it has no quotes. -/
theorem scalar_of_isBare (h : isBare cs) (hseparators : ∃ c ∈ cs, isSeparator c) :
    Plain (flat cs) ∧ scalar cs = literal cs ∨
      Plain cs ∧ (scalar cs = folded cs ∨ scalar cs = cs ++ ['\n']) := by
  by_cases hfeed : cs.contains '\n'
  · rw [isBare, if_pos hfeed] at h
    refine .inl ⟨plain_of_isPlain h, ?_⟩
    rw [scalar, if_pos hfeed]
    exact if_pos h
  · rw [isBare, if_neg hfeed] at h
    have hlone : isLoneMark cs = false := by
      rw [Bool.eq_false_iff]
      intro hlone
      obtain ⟨d, hd, hseparator⟩ := hseparators
      simp only [isLoneMark, Bool.or_eq_true, beq_iff_eq] at hlone
      rcases hlone with (rfl | rfl) | rfl <;>
        · obtain rfl := List.mem_singleton.1 hd
          contradiction
    refine .inr ⟨plain_of_isPlain h, ?_⟩
    have hscalar : scalar cs =
        if foldLength < (String.ofList cs).utf8ByteSize then folded cs else cs ++ ['\n'] := by
      rw [scalar, if_neg hfeed, hlone, h]
      rfl
    split at hscalar
    · exact .inl hscalar
    · exact .inr hscalar

theorem total_unended_le (cs : List Char) :
    total charWeight (unended cs) ≤ total charWeight cs := by
  obtain ⟨n, hending⟩ := exists_unended_append cs
  rw [← congrArg (total charWeight) hending, total_append]
  exact Nat.le_add_right _ _

/-- A separator that a line is broken at gets lost. -/
theorem Broken.total_add_le (h : Broken text lines) (hfeed : w '\n' = 0) :
    total w (['\n'].intercalate lines) ≤ total w text ∧ ∀ c ∈ text,
      c ∈ ['\n'].intercalate lines ∨
        total w (['\n'].intercalate lines) + w c ≤ total w text := by
  induction h with
  | last l => exact ⟨by simp, fun c hc => .inl (by simpa using hc)⟩
  | @cons b rest lines l hb hrest hbroken ih =>
    obtain ⟨hle, hmem⟩ := ih
    rw [List.intercalate_cons_of_ne_nil hbroken.nonempty]
    refine ⟨by simp [hfeed]; omega, fun c hc => ?_⟩
    simp only [List.mem_append, List.mem_cons, List.not_mem_nil, or_false] at hc ⊢
    rcases hc with hc | rfl | hc
    · exact .inl (.inl (.inl hc))
    · exact .inr (by simp [hfeed]; omega)
    · rcases hmem c hc with hc | hlost
      · exact .inl (.inr hc)
      · exact .inr (by simp [hfeed]; omega)

end Write

namespace Scan

variable {P : Scan → Prop} {m : Mark} {rest : Source} {c : Char}

theorem yields_block (tokens : List Lexeme) (columns : List Nat) (layout : BlockScalar.Layout)
    (hcolumn : 0 < m.column)
    (h : Yields (fun r => P (between r.2 (⟨.scalar r.1 .block, m⟩ :: tokens) columns true))
      (BlockScalar.read layout columns.head? (⟨layout.indicator, m⟩ :: rest))) :
    Yields P ((between (⟨layout.indicator, m⟩ :: rest) tokens columns false).dispatch.bind
      expire) := by
  cases hread : BlockScalar.read layout columns.head? (⟨layout.indicator, m⟩ :: rest) with
  | error e =>
    rw [dispatch_layout tokens columns layout hcolumn]
    change Yields P (((BlockScalar.read layout columns.head?
      (⟨layout.indicator, m⟩ :: rest)).bind _).bind _)
    rw [hread]
    exact Yields.error
  | ok r =>
    rw [bind_expire (dispatch_block tokens columns hcolumn hread)]
    exact Yields.ok (h.of_eq hread)

theorem yields_plain (tokens : List Lexeme) (columns : List Nat) (hcolumn : 0 < m.column)
    (hgap : isGap c = false) (hindicator : isIndicator c = false)
    (h : Yields (fun r : PlainScalar × Source =>
        P (between r.2 (⟨.scalar r.1.text .plain, m⟩ :: tokens) columns r.1.crossedLine))
      (PlainScalar.read false ((columns.head?.map (· + 1)).getD 0) (⟨c, m⟩ :: rest) :
        Except SyntaxError (PlainScalar × Source))) :
    Yields P ((between (⟨c, m⟩ :: rest) tokens columns false).dispatch.bind expire) := by
  have hmark := Source.isDocumentMark_of_column hcolumn c rest
  cases hread : PlainScalar.read false ((columns.head?.map (· + 1)).getD 0) (⟨c, m⟩ :: rest) with
  | error e =>
    rw [dispatch_plain hgap hindicator hmark]
    change Yields P (((PlainScalar.read false ((columns.head?.map (· + 1)).getD 0)
      (⟨c, m⟩ :: rest)).bind _).bind _)
    rw [hread]
    exact Yields.error
  | ok r =>
    rw [bind_expire (dispatch_plain_value tokens columns hmark hgap hindicator hread)]
    exact Yields.ok (h.of_eq hread)

/-- Where reading goes on when the value of a key was not held: above the next line, or behind its
indentation, with no text but a lighter one. -/
structure Remains (cs : List Char) (m : Mark) (indent : Nat) (rest : List Char)
    (tokens : List Lexeme) (s : Scan) : Prop where
  weight : s.source.total charWeight + 3 ≤ total charWeight cs + total charWeight rest
  source : LeftOf (laid m (Write.scalar cs))
      (place (m.through (Write.scalar cs)) (List.replicate indent ' ' ++ rest)) s.source ∨
    s.source = place ((m.through (Write.scalar cs)).after (List.replicate indent ' ')) rest
  outer : s.outer = []
  candidate : s.candidate = none
  texts : texts s.tokens = texts tokens ∨ ∃ x, Lighter x cs ∧ texts s.tokens = x :: texts tokens

section

variable {cs v : List Char} {indent : Nat} {rest : List Char}

theorem isLaid_scalar (cs : List Char) : ∀ c ∈ Write.scalar cs, IsLaid c :=
  fun _ hc => ((Write.form cs).mem hc).1

theorem lined_scalar (cs : List Char) (m : Mark) : Lined (laid m (Write.scalar cs)) := by
  obtain ⟨front, hfront⟩ := (Write.form cs).exists_lineFeed
  rw [hfront, laid_append]
  intro g hg
  rw [laid, laid, List.getLast?_concat] at hg
  obtain rfl := Option.some.inj hg
  rfl

theorem column_scalar (cs : List Char) (m : Mark) : (m.through (Write.scalar cs)).column = 0 := by
  obtain ⟨front, hfront⟩ := (Write.form cs).exists_lineFeed
  rw [hfront, Mark.through_append]
  exact Mark.past_break (c := '\n') rfl _

theorem place_scalar (cs : List Char) (m : Mark) (tail : List Char) :
    place m (Write.scalar cs ++ tail) =
      laid m (Write.scalar cs) ++ place (m.through (Write.scalar cs)) tail :=
  place_append (isLaid_scalar cs) m tail

/-- What stands behind the lines of a scalar is not read with it. -/
theorem weight_rest_le {p s : Source} {m : Mark}
    (h : LeftOf p (place m (List.replicate indent ' ' ++ rest)) s ∨
      s = place (m.after (List.replicate indent ' ')) rest) :
    total charWeight rest ≤ s.total charWeight := by
  rcases h with ⟨q, -, rfl⟩ | rfl
  · simp
  · simp

/-- The first separator of a text. -/
theorem exists_first_separator (h : ∃ c ∈ v, isSeparator c) : ∃ front d later,
    v = front ++ d :: later ∧ isSeparator d ∧ ∀ c ∈ front, isSeparator c = false := by
  obtain ⟨c, hc, hseparator⟩ := h
  induction v with
  | nil => contradiction
  | cons e v ih =>
    by_cases he : isSeparator e
    · exact ⟨[], e, v, rfl, he, by simp⟩
    · obtain ⟨front, d, later, rfl, hd, hfront⟩ :=
        ih ((List.mem_cons.1 hc).resolve_left (by rintro rfl; exact he hseparator))
      exact ⟨e :: front, d, later, rfl, hd, by simpa [he] using hfront⟩

/-- The text is written as a block scalar, of whose separators one gets lost when a line is broken
at it, or else when the scalar is read. -/
structure LosesBlock (cs v : List Char) (layout : BlockScalar.Layout)
    (chomping : BlockScalar.Chomping) : Prop where
  scalar : Write.scalar cs = layout.indicator :: (chomping.sign ++ '\n' ::
    (Write.margin ++ (Write.body v ++ ['\n'])))
  folded : layout = .folded → chomping = .strip
  isLaid : ∀ c ∈ v, IsLaid c
  size : total layout.charSize v + chomping.size ≤ total charSize cs
  lost : total charWeight v + 3 ≤ total charWeight cs ∨
    (∃ c ∈ v, isSeparator c) ∧ total charWeight v ≤ total charWeight cs ∧
      (v.dropWhile (· == '\n')).head? ≠ some ' ' ∧
        (BlockScalar.Loses layout chomping v ∨ (v.dropWhile isBreak).head? = some ' ')

theorem size_unended_le (cs : List Char) :
    total BlockScalar.Layout.literal.charSize (Write.unended cs) +
      (BlockScalar.Chomping.ofBreaks (Write.trailingBreaks cs)).size ≤ total charSize cs := by
  have happend := congrArg (total charSize) (BlockScalar.trimBreaks_append cs)
  have hlayout : BlockScalar.Layout.literal.charSize = charSize := rfl
  rw [hlayout, ← happend, Write.unended]
  obtain _ | _ | n := Write.trailingBreaks cs
  · simp [BlockScalar.Chomping.ofBreaks, BlockScalar.Chomping.size]
  · simp [BlockScalar.Chomping.ofBreaks, BlockScalar.Chomping.size]
  · simp only [BlockScalar.Chomping.ofBreaks, BlockScalar.Chomping.size, total_append,
      total_replicate, charSize_lineFeed]
    omega

/-- The line feed at the end is kept only where more of them stand before it. -/
theorem loses_literal (h : ¬Write.Held cs) :
    BlockScalar.Loses .literal (.ofBreaks (Write.trailingBreaks cs)) (Write.unended cs) ∨
      ((Write.unended cs).dropWhile isBreak).head? = some ' ' := by
  cases hfollowed : Write.followed (Write.unended cs) with
  | true =>
    refine .inr ?_
    have hopens : (cs.dropWhile isBreak).head? = some ' ' := by
      by_contra hopens
      exact h ⟨hfollowed, hopens⟩
    obtain ⟨n, hending⟩ := Write.exists_unended_append cs
    rw [← hending, List.dropWhile_append] at hopens
    cases hdrop : (Write.unended cs).dropWhile isBreak with
    | nil => simp [hdrop, isBreak, isLineEnd] at hopens
    | cons e rest => simpa [hdrop] using hopens
  | false =>
    refine .inl (BlockScalar.loses_of_not_followed hfollowed (fun e he hseparator hkeep => ?_) _)
    rw [Write.unended] at he
    rcases hbreaks : Write.trailingBreaks cs with _ | _ | n
    · simp [hbreaks, BlockScalar.Chomping.ofBreaks] at hkeep
    · simp [hbreaks, BlockScalar.Chomping.ofBreaks] at hkeep
    · have hcount : Write.trailingBreaks cs - 1 = n + 1 := by rw [hbreaks]; rfl
      rw [hcount, List.replicate_succ', ← List.append_assoc, List.getLast?_concat] at he
      obtain rfl := Option.some.inj he
      contradiction

/-- A text of several lines. -/
theorem losesBlock_literal (hplain : Write.Plain (Write.flat cs))
    (hscalar : Write.scalar cs = Write.literal cs) (hseparators : ∃ c ∈ cs, isSeparator c)
    (hheld : ¬Write.Held cs) :
    LosesBlock cs (Write.unended cs) .literal (.ofBreaks (Write.trailingBreaks cs)) := by
  obtain ⟨d, hd, hseparator⟩ := hseparators
  have hfeed : d ≠ '\n' := by
    rintro rfl
    contradiction
  have hmem : d ∈ Write.unended cs := Write.mem_unended_of_mem hd hfeed
  -- what stands before the line feeds at the end begins as the text does
  have hopens : ((Write.unended cs).dropWhile (· == '\n')).head? ≠ some ' ' := by
    obtain ⟨n, hending⟩ := Write.exists_unended_append cs
    obtain ⟨c, tail, hcs, hspace, hfirst⟩ := hplain.exists_cons_of_flat
    obtain ⟨e, tail', htail⟩ := List.exists_cons_of_ne_nil (List.ne_nil_of_mem hmem)
    rw [htail, hcs] at hending
    obtain ⟨rfl, -⟩ := List.cons.inj hending
    simp [htail, hfirst, hspace]
  exact ⟨hscalar.trans (BlockScalar.literal_eq cs), fun h => BlockScalar.Layout.noConfusion h,
    fun c hc => hplain.isLaid c (Write.mem_unended hc), size_unended_le cs,
    .inr ⟨⟨d, hmem, hseparator⟩, Write.total_unended_le cs, hopens, loses_literal hheld⟩⟩

/-- A long text. -/
theorem losesBlock_folded (hplain : Write.Plain cs) (hscalar : Write.scalar cs = Write.folded cs)
    (hseparators : ∃ c ∈ cs, isSeparator c) :
    LosesBlock cs (['\n'].intercalate (Write.fold [] 0 none cs)) .folded .strip := by
  have hbroken := Write.broken_fold cs
  have hfeed : '\n' ∉ cs := hplain.not_mem (by decide)
  obtain ⟨hle, hmem⟩ := hbroken.total_add_le charWeight_lineFeed
  obtain ⟨d, hd, hseparator⟩ := hseparators
  have hlaid : ∀ c ∈ ['\n'].intercalate (Write.fold [] 0 none cs), IsLaid c := by
    intro c hc
    rcases Write.mem_intercalate hc with rfl | hc
    · exact .inl rfl
    · exact .inr (hplain.control hc)
  have hsize : total BlockScalar.Layout.folded.charSize
      (['\n'].intercalate (Write.fold [] 0 none cs)) + BlockScalar.Chomping.strip.size ≤
        total charSize cs := by
    have hlayout : ∀ c, BlockScalar.Layout.folded.charSize c = 2 := fun _ => rfl
    have hcharSize : ∀ c ∈ cs, charSize c = 2 :=
      fun c hc => charSize_of_ne (by rintro rfl; exact hfeed hc)
    rw [total_eq_length fun c _ => hlayout c, total_eq_length hcharSize, hbroken.length_intercalate]
    exact Nat.le_refl _
  obtain ⟨c, tail, rfl, hspace, -⟩ := hplain.exists_cons
  refine ⟨hscalar.trans (folded_eq hfeed), fun _ => rfl, hlaid, hsize, ?_⟩
  rcases hmem d hd with hmem | hlost
  · have hne : ∀ e ∈ c :: tail, (e == '\n') = false := by
      intro e he
      rw [beq_eq_false_iff_ne]
      rintro rfl
      exact hfeed he
    have hopens := opens_of_broken hbroken rfl hne hspace
    exact .inr ⟨⟨d, hmem, hseparator⟩, hle, hopens,
      .inl (BlockScalar.loses_folded ⟨d, hmem, hseparator⟩)⟩
  · rw [charWeight_of_isSeparator hseparator] at hlost
    exact .inl hlost

variable {layout : BlockScalar.Layout} {chomping : BlockScalar.Chomping}
  (hindent : indent ≤ 2) (hrest : GoesOn rest)

include hindent hrest

/-- What is read of a block scalar is smaller than the text if not even its first separator is held,
which is read. -/
theorem loses_read (h : LosesBlock cs v layout chomping) (m : Mark) :
    Yields (fun r : List Char × Source => total charWeight v + 3 ≤ total charWeight cs ∨
        total charWeight v ≤ total charWeight cs ∧ total charSize r.1 < total charSize cs ∧
          r.2.total charWeight + 3 ≤ total charWeight v + total charWeight rest)
      (BlockScalar.read layout (some 2)
        (place m (Write.scalar cs ++ (List.replicate indent ' ' ++ rest)))) := by
  rcases h.lost with hlost | ⟨hseparators, hle, hopens, hloses⟩
  · exact Yields.of_forall fun _ _ => .inl hlost
  · obtain ⟨front, d, later, rfl, hd, hfront⟩ := exists_first_separator hseparators
    have hlaid := h.isLaid
    have hbound := h.size
    have hsizes := BlockScalar.size_read layout chomping (Nat.lt_of_le_of_lt hindent (by decide))
      hrest h.folded hlaid (.inr ⟨rfl, hloses⟩) m
    have hopens : (front.dropWhile (· == '\n')).head? ≠ some ' ' := by
      rw [List.dropWhile_append] at hopens
      cases hdrop : front.dropWhile (· == '\n') with
      | nil => simp
      | cons c front' => simpa [hdrop] using hopens
    rw [h.scalar, Write.block_append]
    have hpasses := BlockScalar.passes_read layout chomping later
      ('\n' :: (List.replicate indent ' ' ++ rest))
      (fun c hc => ⟨hlaid c (by simp [hc]), hfront c hc⟩) hopens (hlaid d (by simp)) hd m
    refine Yields.mono (hsizes.and hpasses) fun r ⟨hsizes, m', hsuffix⟩ => .inr ⟨hle, ?_, ?_⟩
    · omega
    · have hpart := Source.total_of_suffix (w := charWeight) hsuffix
      have hbody : total charWeight (Write.body later) = total charWeight later :=
        Write.total_body rfl later
      simp [hbody, charWeight_of_isSeparator hd] at hpart ⊢
      omega

/-- What remains when the lines of a block scalar lose a separator, or have lost all before. -/
theorem remains_block (h : LosesBlock cs v layout chomping) (m v' : Mark) (tokens : List Lexeme)
    (columns : List Nat) :
    Yields (fun r => Remains cs m indent rest tokens
        (between r.2 (⟨.scalar r.1 .block, v'⟩ :: tokens) columns true))
      (BlockScalar.read layout (some 2)
        (place m (Write.scalar cs ++ (List.replicate indent ' ' ++ rest)))) := by
  have hweight : total charWeight (Write.scalar cs) = total charWeight v := by
    rw [h.scalar, Write.total_block (by decide)]
    exact Nat.add_zero _
  obtain ⟨p, hp⟩ : ∃ p, laid m (Write.scalar cs) = ⟨layout.indicator, m⟩ :: p :=
    ⟨_, by rw [h.scalar]; rfl⟩
  have hbreak : isBreak layout.indicator = false := layout.isInline_indicator.isBreak
  have hstops := BlockScalar.stops_read layout (show indent ≤ (some 2).getD 0 from hindent) hrest
    (column_scalar cs m) (hp ▸ lined_scalar cs m) hbreak
  rw [← List.cons_append, ← hp, ← place_scalar] at hstops
  have htakes := BlockScalar.takes_read (show charWeight ' ' = 0 from rfl) layout (some 2)
    (place m (Write.scalar cs ++ (List.replicate indent ' ' ++ rest)))
  refine Yields.mono ((hstops.and htakes).and (loses_read hindent hrest h m)) fun r hr => ?_
  obtain ⟨⟨hstops, htakes⟩, hlosses⟩ := hr
  have hle := weight_rest_le hstops
  simp [hweight] at htakes
  refine ⟨?_, hstops, rfl, rfl, .inr ⟨r.1, ?_, rfl⟩⟩
  · dsimp only
    omega
  · rcases hlosses with hlost | ⟨hle, hsize, -⟩
    · exact .inl (by omega)
    · exact .of_le (by omega) hsize

/-- What remains of a short text. A colon in front of a separator is no part of it, and is read as
that of a key. -/
theorem remains_plain (hplain : Write.Plain cs) (hscalar : Write.scalar cs = cs ++ ['\n'])
    (hseparators : ∃ c ∈ cs, isSeparator c) (hm : 3 ≤ m.column) (v' : Mark)
    (tokens : List Lexeme) (columns : List Nat) :
    Yields (fun r : PlainScalar × Source => Lighter r.1.text cs ∧
        (r.1.crossedLine = false ∧ PlainScalar.StrayColon r.2 ∨
          Remains cs m indent rest tokens
            (between r.2 (⟨.scalar r.1.text .plain, v'⟩ :: tokens) columns r.1.crossedLine)))
      (PlainScalar.read false 3 (place m (Write.scalar cs ++ (List.replicate indent ' ' ++ rest))) :
        Except SyntaxError (PlainScalar × Source)) := by
  have hsource : Write.scalar cs ++ (List.replicate indent ' ' ++ rest) =
      cs ++ '\n' :: (List.replicate indent ' ' ++ rest) := by
    rw [hscalar, List.append_assoc]
    rfl
  have hlow : indent < 3 := Nat.lt_succ_of_le hindent
  have hne : laid m (Write.scalar cs) ≠ [] := by
    rw [hscalar, laid_append]
    exact List.append_ne_nil_of_right_ne_nil _ (List.cons_ne_nil _ _)
  have hstops := PlainScalar.stops_read hlow hrest (column_scalar cs m) (lined_scalar cs m) hne
  have hsizes := PlainScalar.size_read hrest hlow (fun c => hplain.control) hseparators m
  have htakes := PlainScalar.takes_scan charWeight_space ⟨false, 3, (place m (Write.scalar cs ++
    (List.replicate indent ' ' ++ rest))).mark⟩ none [] (place m (Write.scalar cs ++
      (List.replicate indent ' ' ++ rest)))
  obtain ⟨front, d, later, hcs, hd, hfront⟩ := exists_first_separator hseparators
  have hmem {c : Char} (hc : c ∈ front) : c ∈ cs := hcs ▸ List.mem_append_left _ hc
  have hpasses : PlainScalar.Passes (later ++ '\n' :: (List.replicate indent ' ' ++ rest))
      (PlainScalar.read false 3
        (place m (Write.scalar cs ++ (List.replicate indent ' ' ++ rest)))) := by
    rw [hsource, hcs, List.append_assoc]
    exact PlainScalar.passes_read (fun c hc => ⟨hplain.control (hmem hc), hfront c hc⟩)
      (fun hc => hplain.not_mem (by decide) (hmem hc)) (.inr (hplain.control (by simp [hcs]))) hd
      ⟨hm, Nat.lt_of_lt_of_le (by decide) hm⟩
  rw [← hsource] at hsizes
  rw [← place_scalar] at hstops
  refine Yields.mono ((hstops.and htakes).and (hsizes.and hpasses)) fun r hr => ?_
  obtain ⟨⟨hstops, htakes⟩, hsizes, hpasses⟩ := hr
  have hle := weight_rest_le hstops
  have hlighter : Lighter r.1.text cs := by
    refine .of_le ?_ hsizes
    simp [hscalar, PlainScalar.gapChars] at htakes
    omega
  refine ⟨hlighter, hpasses.imp_right fun hpasses => ?_⟩
  refine ⟨?_, hstops, rfl, rfl, .inr ⟨_, hlighter, rfl⟩⟩
  obtain ⟨m', hsuffix⟩ := hpasses
  have hpart := Source.total_of_suffix (w := charWeight) hsuffix
  simp [hcs, charWeight_of_isSeparator hd] at hpart ⊢
  omega

variable {xs : List (List Char)} {m : Mark} {tokens : List Lexeme} {columns : List Nat}
  (hcolumn : 2 < m.column) (hx : ∃ x ∈ xs, x ∉ texts tokens ∧ ¬Lighter x cs)
  (hnext : ∀ s, Remains cs (m.next ' ') indent rest tokens s → Avoids xs s)

include hcolumn hx hnext

/-- A text is not read if it is not read from where reading goes on. -/
theorem avoids_block (h : LosesBlock cs v layout chomping) :
    Avoids xs (between (place m (' ' :: (Write.scalar cs ++ (List.replicate indent ' ' ++ rest))))
      tokens (2 :: columns) false) := by
  have hindicator := layout.isInline_indicator
  obtain ⟨tail, htail⟩ : ∃ tail, Write.scalar cs = layout.indicator :: tail := ⟨_, h.scalar⟩
  have hremains := remains_block hindent hrest h (m.next ' ') (m.next ' ') tokens (2 :: columns)
  obtain ⟨x, hxs, hx, -⟩ := hx
  refine avoids_of_step ⟨x, hxs, hx⟩ ?_
  rw [htail, List.cons_append, step_value hindicator (by cases layout <;> decide)
    (by cases layout <;> decide) hcolumn, place_inline hindicator]
  rw [htail, List.cons_append, place_inline hindicator] at hremains
  exact yields_block tokens (2 :: columns) layout (Nat.succ_pos _)
    (Yields.mono hremains fun r hr => hnext _ hr)

omit hindent hrest hcolumn hx in
/-- A short text that begins with a separator is read from the next line on. -/
theorem avoids_plain_separator {c : Char} {tail : List Char} (hcs : cs = c :: tail)
    (hc : isSeparator c) (hscalar : Write.scalar cs = cs ++ ['\n']) :
    Avoids xs (between (place m (' ' :: (Write.scalar cs ++ (List.replicate indent ' ' ++ rest))))
      tokens (2 :: columns) false) := by
  have hbreak : isBreak c := by
    rw [isBreak, hc, Bool.or_true]
  have hlaidScalar : laid (m.next ' ') (Write.scalar cs) =
      ⟨c, m.next ' '⟩ :: laid ((m.next ' ').past c) (tail ++ ['\n']) := by
    rw [hscalar, hcs]
    rfl
  have hplace := place_scalar cs (m.next ' ') (List.replicate indent ' ' ++ rest)
  rw [hlaidScalar, List.cons_append] at hplace
  obtain ⟨⟨keyAllowed, source⟩, hstart⟩ : ∃ r, skip false false true
      (laid ((m.next ' ').past c) (tail ++ ['\n']) ++
        place ((m.next ' ').through (Write.scalar cs)) (List.replicate indent ' ' ++ rest)) = r :=
    ⟨_, rfl⟩
  have hskip : skip false false false
      (place m (' ' :: (Write.scalar cs ++ (List.replicate indent ' ' ++ rest)))) =
        (keyAllowed, source) := by
    have hspace : isBreak ' ' = false ∧ isFinish ' ' = false := ⟨rfl, rfl⟩
    rw [place_inline isInline_space, hplace, ← hstart]
    simp [skip, hspace, hbreak]
  refine avoids_of_step_eq (hnext (between _ tokens (2 :: columns) true) ?_)
    ((step_between hskip).trans (step_between hstart).symm) rfl
  refine ⟨?_, .inl ⟨_, ?_, rfl⟩, rfl, rfl, .inl rfl⟩
  · simp [hcs, charWeight_of_isSeparator hc]
    omega
  · rw [hlaidScalar]
    exact List.suffix_cons _ _

theorem avoids_plain (hplain : Write.Plain cs) (hscalar : Write.scalar cs = cs ++ ['\n'])
    (hseparators : ∃ c ∈ cs, isSeparator c) :
    Avoids xs (between (place m (' ' :: (Write.scalar cs ++ (List.replicate indent ' ' ++ rest))))
      tokens (2 :: columns) false) := by
  obtain ⟨c, tail, hcs, hspace, hindicator⟩ := hplain.exists_cons
  by_cases hc : isSeparator c
  · exact avoids_plain_separator hnext hcs hc hscalar
  · have hmem : c ∈ cs := hcs ▸ List.mem_cons_self
    have hinline : IsInline c := ⟨hplain.control hmem, by simpa using hc⟩
    have hcomment : c ≠ '#' := by
      rintro rfl
      exact hplain.not_mem (by decide) hmem
    have hremains := remains_plain (m := m.next ' ') hindent hrest hplain hscalar hseparators
      (Nat.le_succ_of_le hcolumn) (m.next ' ') tokens (2 :: columns)
    have htail : Write.scalar cs = c :: (tail ++ ['\n']) := by rw [hscalar, hcs, List.cons_append]
    obtain ⟨x, hxs, hx, hheavy⟩ := hx
    refine avoids_of_step ⟨x, hxs, hx⟩ ?_
    rw [htail, List.cons_append, step_value hinline hspace hcomment hcolumn, place_inline hinline]
    rw [htail, List.cons_append, place_inline hinline] at hremains
    refine yields_plain tokens (2 :: columns) (Nat.succ_pos _) (hinline.isGap hspace) hindicator
      (Yields.mono hremains fun r hr => ?_)
    obtain ⟨hlighter, ⟨hcrossed, hstray⟩ | hremains⟩ := hr
    · have hlacks : Lacks xs (⟨.scalar r.1.text .plain, m.next ' '⟩ :: tokens) := by
        refine ⟨x, hxs, ?_⟩
        rw [texts_scalar, List.mem_cons, not_or]
        exact ⟨fun heq => hheavy (heq ▸ hlighter), hx⟩
      exact avoids_of_step hlacks
        (yields_strayColon hstray rfl hcrossed fun c hc => absurd hc (by simp))
    · exact hnext _ hremains

/-- A text without quotes that is not held is not read, nor is any that is not lighter, unless they
are read of what remains. -/
theorem avoids_unheld (hbare : Write.isBare cs) (hheld : ¬Write.Held cs) :
    Avoids xs (between (place m (' ' :: (Write.scalar cs ++ (List.replicate indent ' ' ++ rest))))
      tokens (2 :: columns) false) := by
  have hseparators : ∃ c ∈ cs, isSeparator c := by
    by_contra hnone
    simp only [not_exists, not_and, Bool.not_eq_true] at hnone
    exact hheld (Write.held_of_separator hbare hnone)
  rcases Write.scalar_of_isBare hbare hseparators with
    ⟨hplain, hscalar⟩ | ⟨hplain, hscalar | hscalar⟩
  · exact avoids_block hindent hrest hcolumn hx hnext
      (losesBlock_literal hplain hscalar hseparators hheld)
  · exact avoids_block hindent hrest hcolumn hx hnext
      (losesBlock_folded hplain hscalar hseparators)
  · exact avoids_plain hindent hrest hcolumn hx hnext hplain hscalar hseparators

end

end Scan

end Planimeter.Yaml
