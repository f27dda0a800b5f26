import Planimeter.Proofs.Yaml.Weights
import Planimeter.Proofs.Yaml.Written
import Planimeter.Yaml.Read
/-!
# Texts that are read back

Which form a text is written in depends on its characters alone. A text is read back from its form
unless it is written without quotes and a blank gets lost: a space at its end, or a blank that a
long line is broken at.
-/
namespace Planimeter.Yaml

namespace Write

/-- The text of a literal scalar as one line. -/
def flat (cs : List Char) : List Char :=
  (trimBreaks cs).map fun c => if c = '\n' then ' ' else c

/-- The text is written without quotes; a single mark does not matter. -/
def isBare (cs : List Char) : Bool := if cs.contains '\n' then isPlain (flat cs) else isPlain cs

/-- The separators of lines in a text without quotes are read as what they are: behind each is an
empty line, and the first line that is not empty does not begin with a space. -/
structure Held (cs : List Char) : Prop where
  followed : followed (unended cs)
  opens : (cs.dropWhile isBreak).head? ≠ some ' '

instance (cs : List Char) : Decidable (Held cs) :=
  decidable_of_iff (followed (unended cs) = true ∧ (cs.dropWhile isBreak).head? ≠ some ' ')
    ⟨fun h => ⟨h.1, h.2⟩, fun h => ⟨h.followed, h.opens⟩⟩

/-- What it takes for a text to be read back as it was written: a short plain one does not end with
a space, a long one is broken at spaces only, and not at its end, and its separators of lines are
held unless they stand between quotes. -/
structure Kept (cs : List Char) : Prop where
  short : isPlain cs → (String.ofList cs).utf8ByteSize ≤ foldLength → cs.getLast? ≠ some ' '
  long : isPlain cs → foldLength < (String.ofList cs).utf8ByteSize →
    [' '].intercalate (fold [] 0 none cs) = cs ∧ [] ∉ fold [] 0 none cs
  held : isBare cs → Held cs

theorem kept_of_not_isPlain {cs : List Char} (h : isPlain cs = false)
    (hheld : isBare cs → Held cs) : Kept cs :=
  ⟨fun hplain => absurd hplain (by simp [h]), fun hplain => absurd hplain (by simp [h]), hheld⟩

namespace Plain

variable {c : Char} {cs : List Char}

theorem not_mem (h : Plain cs) (hc : isExcluded c) : c ∉ cs := by
  intro hmem
  rw [h.excluded c hmem] at hc
  contradiction

theorem control (h : Plain cs) (hc : c ∈ cs) : isControl c = false := by
  have hexcluded := h.excluded c hc
  simp only [isExcluded, Bool.or_eq_false_iff] at hexcluded
  exact hexcluded.2

theorem isInline (h : Plain cs) (hseparator : ∀ c ∈ cs, isSeparator c = false) :
    ∀ c ∈ cs, IsInline c :=
  fun c hc => ⟨h.control hc, hseparator c hc⟩

theorem exists_cons (h : Plain cs) :
    ∃ c rest, cs = c :: rest ∧ c ≠ ' ' ∧ Scan.isIndicator c = false := by
  obtain ⟨c, rest, rfl⟩ := List.exists_cons_of_ne_nil h.ne_nil
  have hfirst : isFirstIndicator c = false := h.first c rfl
  have hne {d : Char} (hd : isFirstIndicator d ∨ isExcluded d) : c ≠ d := by
    rintro rfl
    rcases hd with hd | hd
    · rw [hd] at hfirst
      contradiction
    · exact h.not_mem hd List.mem_cons_self
  refine ⟨c, rest, rfl, hne (by decide), ?_⟩
  simp only [Scan.isIndicator, isFlowIndicator, Bool.or_eq_false_iff, beq_eq_false_iff_ne]
  and_intros <;> exact hne (by decide)

/-- The line feeds of a literal scalar are its only excluded characters. -/
theorem excluded_of_flat (h : Plain (flat cs)) :
    ∀ c ∈ cs, c = '\n' ∨ isExcluded c = false := by
  intro c hc
  by_cases hfeed : c = '\n'
  · exact .inl hfeed
  · rw [← BlockScalar.trimBreaks_append cs, List.mem_append] at hc
    have htrim := hc.resolve_right fun hc => hfeed (List.eq_of_mem_replicate hc)
    exact .inr (h.excluded c (List.mem_map.2 ⟨c, htrim, by simp [hfeed]⟩))

theorem isLaid (h : Plain (flat cs)) : ∀ c ∈ cs, IsLaid c :=
  fun c hc => (h.excluded_of_flat c hc).imp_right fun hc => (Bool.or_eq_false_iff.1 hc).2

/-- There is no gap behind a colon, on no line. -/
theorem colonGap_of_flat (h : Plain (flat cs)) : hasColonGap cs = false := by
  have hflat := h.colonGap
  rw [Bool.eq_false_iff] at hflat ⊢
  refine fun hgap => hflat (hasColonGap_iff.2 ?_)
  rw [hasColonGap_iff, ← BlockScalar.trimBreaks_append cs, List.infix_append_iff] at hgap
  have hfeeds {c : Char} {n : Nat} (hc : c ∈ List.replicate n '\n') : c = '\n' :=
    List.eq_of_mem_replicate hc
  rcases hgap with hgap | hgap | ⟨front, back, happend, hfront, hback⟩
  · exact hgap.map fun c => if c = '\n' then ' ' else c
  · exact absurd (hfeeds (hgap.mem (show ':' ∈ [':', ' '] by decide))) (by decide)
  · rcases List.eq_nil_or_concat back with rfl | ⟨back, c, rfl⟩
    · rw [List.append_nil] at happend
      exact (happend ▸ hfront.isInfix).map fun c => if c = '\n' then ' ' else c
    · have hlast := congrArg List.getLast? happend
      rw [List.concat_eq_append, ← List.append_assoc, List.getLast?_concat] at hlast
      have hspace : ' ' = c := Option.some.inj hlast
      have hmem : c ∈ back.concat c := by simp
      exact absurd (hspace.trans (hfeeds (hback.mem hmem))) (by decide)

/-- A literal scalar begins with a character that is no line feed. -/
theorem exists_cons_of_flat (h : Plain (flat cs)) :
    ∃ c rest, cs = c :: rest ∧ c ≠ ' ' ∧ c ≠ '\n' := by
  obtain ⟨d, flat, hflat, hspace, -⟩ := h.exists_cons
  obtain ⟨c, rest, htrim, hd, -⟩ := List.map_eq_cons_iff.1 hflat
  have happend := BlockScalar.trimBreaks_append cs
  rw [htrim, List.cons_append] at happend
  have hfeed : c ≠ '\n' := by
    rintro rfl
    exact hspace hd.symm
  rw [if_neg hfeed] at hd
  exact ⟨c, _, happend.symm, hd ▸ hspace, hfeed⟩

end Plain

/-- An unquoted text begins with a character that is neither a space nor a line feed. -/
theorem exists_cons_of_isBare {cs : List Char} (h : isBare cs) :
    ∃ c rest, cs = c :: rest ∧ c ≠ ' ' ∧ c ≠ '\n' := by
  rw [isBare] at h
  split at h
  · exact (plain_of_isPlain h).exists_cons_of_flat
  · next hfeed =>
    obtain ⟨c, rest, rfl, hspace, -⟩ := (plain_of_isPlain h).exists_cons
    refine ⟨c, rest, rfl, hspace, ?_⟩
    rintro rfl
    simp at hfeed

theorem excluded_of_isBare {cs : List Char} (h : isBare cs) :
    ∀ c ∈ cs, c = '\n' ∨ isExcluded c = false := by
  rw [isBare] at h
  split at h
  · exact (plain_of_isPlain h).excluded_of_flat
  · exact fun c hc => .inr ((plain_of_isPlain h).excluded c hc)

theorem isLaid_of_isBare {cs : List Char} (h : isBare cs) : ∀ c ∈ cs, IsLaid c :=
  fun c hc => (excluded_of_isBare h c hc).imp_right fun hc => (Bool.or_eq_false_iff.1 hc).2

theorem colonGap_of_isBare {cs : List Char} (h : isBare cs) : hasColonGap cs = false := by
  rw [isBare] at h
  split at h
  · exact (plain_of_isPlain h).colonGap_of_flat
  · exact (plain_of_isPlain h).colonGap

theorem exists_unended_append (cs : List Char) :
    ∃ n, unended cs ++ List.replicate n '\n' = cs := by
  have happend := BlockScalar.trimBreaks_append cs
  obtain ⟨n, hn⟩ := Nat.exists_eq_add_of_le (Nat.sub_le (trailingBreaks cs) 1)
  rw [hn, ← List.replicate_append_replicate, ← List.append_assoc] at happend
  exact ⟨_, happend⟩

theorem mem_unended {c : Char} {cs : List Char} (h : c ∈ unended cs) : c ∈ cs := by
  obtain ⟨ending, hending⟩ := exists_unended_append cs
  exact hending ▸ List.mem_append_left _ h

theorem mem_unended_of_mem {c : Char} {cs : List Char} (h : c ∈ cs) (hfeed : c ≠ '\n') :
    c ∈ unended cs := by
  rw [← BlockScalar.trimBreaks_append cs, List.mem_append] at h
  exact List.mem_append_left _ (h.resolve_right fun hc => hfeed (List.eq_of_mem_replicate hc))

/-- A text without separators holds none that gets lost. -/
theorem held_of_separator {cs : List Char} (hbare : isBare cs)
    (h : ∀ c ∈ cs, isSeparator c = false) : Held cs := by
  obtain ⟨c, rest, rfl, hspace, hfeed⟩ := exists_cons_of_isBare hbare
  have hbreak : isBreak c = false := by
    rw [← (isLaid_of_isBare hbare c List.mem_cons_self).isSeparator_iff hfeed]
    exact h c List.mem_cons_self
  exact ⟨followed_of_separator fun d hd => h d (mem_unended hd), by simpa [hbreak] using hspace⟩

/-- On one line no separator is held. -/
theorem Held.separator {cs : List Char} (h : Held cs) (hplain : Plain cs) :
    ∀ c ∈ cs, isSeparator c = false := by
  have hfeed : '\n' ∉ cs := hplain.not_mem (by decide)
  have hbreaks : trailingBreaks cs = 0 := by
    by_contra hne
    refine hfeed ?_
    rw [← BlockScalar.trimBreaks_append cs]
    exact List.mem_append_right _ (List.mem_replicate.2 ⟨hne, rfl⟩)
  have hunended : unended cs = cs := by
    simpa [unended, hbreaks] using BlockScalar.trimBreaks_append cs
  exact separator_of_followed (hunended ▸ h.followed) (fun c hc => .inr (hplain.control hc)) hfeed

end Write

@[simp] theorem trimEnd_eq_iff {d : Char} {cs : List Char} :
    trimEnd d cs = cs ↔ cs.getLast? ≠ some d := by
  constructor
  · intro heq
    rw [← heq]
    exact getLast?_trimEnd d cs
  · intro hlast
    have happend := trimEnd_append d cs
    cases hn : (cs.reverse.takeWhile (· == d)).length with
    | zero => simpa [hn] using happend
    | succ n =>
      rw [hn, List.replicate_succ', ← List.append_assoc] at happend
      exact absurd (by rw [← happend]; simp) hlast

/-- A plain text is read back unless it ends with a space, or is a long one with other blanks. -/
theorem Write.kept_of_blanks {cs : List Char} (hlast : isPlain cs → cs.getLast? ≠ some ' ')
    (hblank : isPlain cs → foldLength < (String.ofList cs).utf8ByteSize →
      ∀ c ∈ cs, Text.isBlank c → c = ' ') (hheld : isBare cs → Held cs) : Kept cs where
  held := hheld
  short hplain _ := hlast hplain
  long hplain hlong := by
    have hlast := hlast hplain
    have hblank := hblank hplain hlong
    have hbroken := broken_fold cs
    obtain ⟨c, rest, rfl, hspace, -⟩ := (plain_of_isPlain hplain).exists_cons
    have hends {d : Char} (hd : d ∈ c :: rest) (hne : d ≠ ' ') : Text.isBlank d = false := by
      rw [Bool.eq_false_iff]
      exact fun h => hne (hblank d hd h)
    have hopened : Opened (c :: rest) := ⟨c, rest, rfl, hends List.mem_cons_self hspace⟩
    refine ⟨hbroken.intercalate_eq hblank, hbroken.nil_not_mem hopened fun d hd => ?_⟩
    exact hends (List.mem_of_getLast? hd) (by rintro rfl; exact hlast hd)

namespace Write

/-- The last character that is no blank stays when a text is trimmed. -/
theorem getLast?_trim {cs : List Char} {c : Char} (hc : Text.isBlank c = false) (n : Nat) :
    (Text.trim (cs ++ [c] ++ List.replicate n ' ')).getLast? = some c := by
  have hstart : ∃ front, (cs ++ [c] ++ List.replicate n ' ').dropWhile Text.isBlank =
      front ++ [c] ++ List.replicate n ' ' := by
    induction cs with
    | nil => exact ⟨[], by simp [hc]⟩
    | cons d cs ih =>
      by_cases hd : Text.isBlank d
      · obtain ⟨front, hfront⟩ := ih
        exact ⟨front, by rw [← hfront]; simp [hd]⟩
      · exact ⟨d :: cs, by simp [hd]⟩
  obtain ⟨front, hfront⟩ := hstart
  have hspaces : ∀ d ∈ List.replicate n ' ', Text.isBlank d := by
    intro d hd
    rw [List.eq_of_mem_replicate hd]
    rfl
  rw [Text.trim, Text.trimBy, hfront, List.getLast?_reverse, List.reverse_append,
    List.reverse_replicate, List.dropWhile_append_of_pos hspaces]
  simp [hc]

namespace Plain

variable {cs : List Char}

/-- The text without the spaces at its end is read as it is. -/
theorem fits (h : Plain cs) (hseparator : ∀ c ∈ cs, isSeparator c = false) :
    PlainScalar.Fits (trimEnd ' ' cs) := by
  have happend := trimEnd_append ' ' cs
  have hmem {c : Char} (hc : c ∈ trimEnd ' ' cs) : c ∈ cs := by
    rw [← happend]
    exact List.mem_append_left _ hc
  refine ⟨fun c hc => h.isInline hseparator c (hmem hc),
    fun hc => h.not_mem (by decide) (hmem hc), ?_, getLast?_trimEnd ' ' cs, ?_⟩
  · exact hasColonGap_of_infix (List.IsPrefix.isInfix ⟨_, happend⟩) h.colonGap
  · intro hlast
    obtain ⟨front, hfront⟩ := List.getLast?_eq_some_iff.1 hlast
    refine h.last ?_
    rw [← happend, hfront]
    exact getLast?_trim (by decide) _

end Plain

end Write

/-- A plain scalar is read back if it does not end with a space. -/
theorem readsAs_isPlain {cs : List Char} (h : Write.Plain cs)
    (hseparator : ∀ c ∈ cs, isSeparator c = false) :
    ReadsAs (cs ++ ['\n']) (trimEnd ' ' cs) .plain := by
  obtain ⟨c, rest, rfl, hspace, hindicator⟩ := h.exists_cons
  have happend := trimEnd_append ' ' (c :: rest)
  have hfirst : ∃ d ∈ (trimEnd ' ' (c :: rest)).head?, d ≠ ' ' ∧ Scan.isIndicator d = false := by
    cases htrim : trimEnd ' ' (c :: rest) with
    | nil =>
      rw [htrim, List.nil_append] at happend
      have hc : c ∈ List.replicate ((c :: rest).reverse.takeWhile (· == ' ')).length ' ' := by
        rw [happend]
        exact List.mem_cons_self
      exact absurd (List.eq_of_mem_replicate hc) hspace
    | cons d ds =>
      rw [htrim] at happend
      obtain ⟨rfl, -⟩ := List.cons.inj happend
      exact ⟨d, rfl, hspace, hindicator⟩
  have hplain := readsAs_plain (h.fits hseparator) hfirst
    ((c :: rest).reverse.takeWhile (· == ' ')).length
  rwa [happend] at hplain

theorem exists_intercalate_cons (c : Char) (l : List Char) (lines : List (List Char)) :
    ∃ tail, ['\n'].intercalate ((c :: l) :: lines) = c :: tail := by
  by_cases hnil : lines = []
  · simp [hnil]
  · rw [List.intercalate_cons_of_ne_nil hnil]
    exact ⟨_, rfl⟩

/-- The content of a folded scalar begins with a character other than a space. -/
theorem opens_of_broken {c : Char} {cs : List Char} {lines : List (List Char)}
    {p : Char → Bool} (h : Write.Broken (c :: cs) lines) (hfeed : p '\n')
    (hp : ∀ d ∈ c :: cs, p d = false) (hspace : c ≠ ' ') :
    ((['\n'].intercalate lines).dropWhile p).head? ≠ some ' ' := by
  have hmem : ∀ l ∈ lines, ∀ d ∈ l, p d = false := fun l hl d hd => hp d (h.mem hl d hd)
  have hfirst (d : Char) (l : List Char) (lines : List (List Char)) (hd : p d = false)
      (hne : d ≠ ' ') : ((['\n'].intercalate ((d :: l) :: lines)).dropWhile p).head? ≠
        some ' ' := by
    obtain ⟨tail, htail⟩ := exists_intercalate_cons d l lines
    simp [htail, hd, hne]
  obtain ⟨l, lines, rfl, opened, hopened, hlines⟩ := h.exists_lined
  cases l with
  | cons e l =>
    obtain ⟨rfl, -⟩ := List.cons_prefix_cons.1 h.isPrefix
    exact hfirst e l lines (hp e List.mem_cons_self) hspace
  | nil =>
    cases opened with
    | nil => rcases hlines with rfl | rfl <;> simp [hfeed]
    | cons x xs =>
      obtain ⟨e, rest, rfl, he⟩ := hopened x List.mem_cons_self
      have hne : e ≠ ' ' := by
        rintro rfl
        contradiction
      rcases hlines with rfl | rfl
      · rw [List.intercalate_cons_of_ne_nil (by simp), List.nil_append, List.singleton_append,
          List.dropWhile_cons_of_pos hfeed]
        exact hfirst e rest xs (hmem (e :: rest) (by simp) e List.mem_cons_self) hne
      · rw [List.intercalate_cons_of_ne_nil (by simp), List.nil_append, List.singleton_append,
          List.dropWhile_cons_of_pos hfeed]
        exact hfirst e rest (xs ++ [[]]) (hmem (e :: rest) (by simp) e List.mem_cons_self) hne

/-- The lines of a folded scalar are indented like those of a literal one. -/
theorem folded_eq {cs : List Char} (hfeed : '\n' ∉ cs) : Write.folded cs =
    BlockScalar.Layout.folded.indicator :: (BlockScalar.Chomping.strip.sign ++ '\n' ::
      (Write.margin ++ (Write.body (['\n'].intercalate (Write.fold [] 0 none cs)) ++ ['\n']))) := by
  have hbroken := Write.broken_fold cs
  rw [← Write.flatMap_line hbroken.nonempty fun l hl hmem => hfeed (hbroken.mem hl _ hmem)]
  rfl

/-- The lines of a folded scalar have no characters but those of the text. -/
theorem Write.mem_intercalate {c : Char} {cs : List Char}
    (h : c ∈ ['\n'].intercalate (Write.fold [] 0 none cs)) : c = '\n' ∨ c ∈ cs := by
  have hbroken := Write.broken_fold cs
  have hlines : c ∈ (Write.fold [] 0 none cs).flatMap (· ++ ['\n']) := by
    rw [← BlockScalar.intercalate_append hbroken.nonempty]
    exact List.mem_append_left _ h
  obtain ⟨l, hl, hc⟩ := List.mem_flatMap.1 hlines
  rcases List.mem_append.1 hc with hc | hc
  · exact .inr (hbroken.mem hl c hc)
  · exact .inl (List.mem_singleton.1 hc)

namespace Write

/-- The marks of block scalars. -/
def blockMarks : List Char := ['|', '>', '-', '+', ' ', '\n']

theorem total_body {w : Char → Nat} (hspace : w ' ' = 0) (cs : List Char) :
    total w (body cs) = total w cs := by
  induction cs with
  | nil => rfl
  | cons c cs ih =>
    by_cases hc : c = '\n'
    · subst hc
      simp [ih, margin, hspace]
    · simp [hc, ih]

/-- A block scalar weighs as much as its content if the marks have no weight. -/
theorem total_block {w : Char → Nat} (hmarks : blockMarks.all (w · == 0))
    (layout : BlockScalar.Layout) (chomping : BlockScalar.Chomping) (cs tail : List Char) :
    total w (layout.indicator :: (chomping.sign ++ '\n' :: (margin ++ (body cs ++ '\n' :: tail)))) =
      total w cs + total w tail := by
  simp only [blockMarks, List.all_cons, List.all_nil, Bool.and_true, Bool.and_eq_true,
    beq_iff_eq] at hmarks
  obtain ⟨hliteral, hfolded, hstrip, hkeep, hspace, hfeed⟩ := hmarks
  have hindicator : w layout.indicator = 0 := by
    cases layout
    · exact hliteral
    · exact hfolded
  have hsign : total w chomping.sign = 0 := by
    cases chomping <;> simp [BlockScalar.Chomping.sign, hstrip, hkeep]
  simp [hindicator, hsign, margin, hspace, hfeed, total_body hspace]

end Write

/-- Without separators in a text there are none in what it is read as. -/
theorem BlockScalar.separator_content (layout : Layout) (chomping : Chomping) {cs : List Char}
    (hcs : ∀ c ∈ cs, IsLaid c) (hopens : (cs.dropWhile isBreak).head? ≠ some ' ')
    (hseparator : ∀ c ∈ cs, isSeparator c = false) :
    ∀ c ∈ content layout chomping cs, isSeparator c = false := by
  obtain ⟨m', -, hread⟩ := read_body layout chomping hcs hopens
    (Write.followed_lineFeed (Write.followed_of_separator hseparator)) (show 0 < 4 by decide)
    (show GoesOn [] from fun c hc => nomatch hc) .zero
  have hle := (takes_read (show separatorWeight ' ' = 0 from rfl) layout (some 2) _).of_eq hread
  rw [Source.total_separatorWeight_place, Source.total_separatorWeight_place,
    Write.total_block (by decide)] at hle
  have hnone := total_separatorWeight.2 hseparator
  simp at hle
  exact total_separatorWeight.1 (by omega)

/-- A long text is read back if it was broken at spaces only, and not at its end. -/
theorem readsAs_folded {cs : List Char} (h : Write.Plain cs)
    (hseparator : ∀ c ∈ cs, isSeparator c = false) :
    ∃ text, ReadsAs (Write.folded cs) text .block ∧ (text = cs ↔
      [' '].intercalate (Write.fold [] 0 none cs) = cs ∧ [] ∉ Write.fold [] 0 none cs) ∧
        ∀ c ∈ text, isSeparator c = false := by
  have hbroken : Write.Broken cs (Write.fold [] 0 none cs) := Write.broken_fold cs
  have hinline := h.isInline hseparator
  have hfeed : '\n' ∉ cs := h.not_mem (by decide)
  obtain ⟨c, rest, rfl, hspace, -⟩ := h.exists_cons
  have hblank := (hinline c List.mem_cons_self).isBlank hspace
  have hbreak : ∀ d ∈ c :: rest, isBreak d = false := fun d hd => (hinline d hd).isBreak
  have hcs : ∀ d ∈ ['\n'].intercalate (Write.fold [] 0 none (c :: rest)),
      IsLaid d ∧ isSeparator d = false := by
    intro d hd
    rcases Write.mem_intercalate hd with rfl | hd
    · exact ⟨.inl rfl, rfl⟩
    · exact ⟨.of_isInline (hinline d hd), (hinline d hd).separator⟩
  have hopens := opens_of_broken hbroken rfl hbreak hspace
  have hfollowed :=
    Write.followed_lineFeed (Write.followed_of_separator fun d hd => (hcs d hd).2)
  rw [folded_eq hfeed]
  exact ⟨_, readsAs_block .folded .strip (fun d hd => (hcs d hd).1) hopens hfollowed,
    BlockScalar.content_eq_iff hbroken hblank hbreak,
    BlockScalar.separator_content _ _ (fun d hd => (hcs d hd).1) hopens fun d hd => (hcs d hd).2⟩

/-- A text of several lines is read back if its separators are held. -/
theorem readsAs_literal {cs : List Char} (h : Write.Plain (Write.flat cs)) (hheld : Write.Held cs) :
    ReadsAs (Write.literal cs) cs .block := by
  have hne : Write.trimBreaks cs ≠ [] := by
    obtain ⟨c, flat, hflat, -⟩ := h.exists_cons
    intro hnil
    rw [Write.flat, hnil] at hflat
    contradiction
  have hopens : ((Write.unended cs).dropWhile isBreak).head? ≠ some ' ' := by
    obtain ⟨ending, hending⟩ := Write.exists_unended_append cs
    have hcs := hheld.opens
    rw [← hending, List.dropWhile_append] at hcs
    cases hdrop : (Write.unended cs).dropWhile isBreak with
    | nil => simp
    | cons c rest => simpa [hdrop] using hcs
  have hread := readsAs_block .literal (.ofBreaks (Write.trailingBreaks cs))
    (fun d hd => h.isLaid d (Write.mem_unended hd)) hopens
    (Write.followed_lineFeed hheld.followed)
  rwa [BlockScalar.content_literal hheld.followed h.isLaid hne, ← BlockScalar.literal_eq] at hread

end Planimeter.Yaml
