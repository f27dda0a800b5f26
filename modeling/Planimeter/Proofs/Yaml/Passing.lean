import Planimeter.Proofs.Yaml.Lines
import Planimeter.Proofs.Yields
/-!
# What is passed over

What a reader leaves of a text is a later part of it. The readers of names, tags and directives, and
of the header of a block scalar, stay on their line, or pass the line break at its end and nothing
beyond.
-/
namespace Planimeter.Yaml

namespace Source

/-- The rest of a text is left, and all that stood before it stood on its line. -/
def OnLine (rest s : Source) : Prop :=
  ∃ passed : Source, passed ++ rest = s ∧ ∀ g ∈ passed, isBreak g.char = false

/-- The rest of a text is left on its line, or behind the line break at the end of that. -/
def ToNextLine (rest s : Source) : Prop :=
  rest.OnLine s ∨ ∃ end' : Source, end'.OnLine s ∧ isBreak end'.front ∧ rest = end'.behind

variable {s t u rest : Source}

namespace OnLine

@[refl] theorem refl (s : Source) : s.OnLine s := ⟨[], rfl, List.forall_mem_nil _⟩

theorem trans (h : s.OnLine t) (h' : t.OnLine u) : s.OnLine u := by
  obtain ⟨passed, rfl, hpassed⟩ := h
  obtain ⟨passed', rfl, hpassed'⟩ := h'
  exact ⟨passed' ++ passed, List.append_assoc _ _ _, List.forall_mem_append.2 ⟨hpassed', hpassed⟩⟩

theorem suffix (h : s.OnLine t) : s <:+ t := by
  obtain ⟨passed, rfl, -⟩ := h
  exact List.suffix_append passed s

end OnLine

theorem onLine_cons {g : Glyph} (hg : isBreak g.char = false) (s : Source) : s.OnLine (g :: s) :=
  ⟨[g], rfl, by simpa using hg⟩

theorem onLine_behind (h : isBreak s.front = false) : s.behind.OnLine s := by
  cases s with
  | nil => rfl
  | cons g s => exact onLine_cons h s

theorem onLine_dropWhile {p : Char → Bool} (hp : ∀ c, p c → isBreak c = false) (s : Source) :
    (s.dropWhile p).OnLine s := by
  refine ⟨List.takeWhile (fun g => p g.char) s, List.takeWhile_append_dropWhile, fun g hg => ?_⟩
  exact hp g.char (List.all_eq_true.1 List.all_takeWhile g hg)

/-- None of the characters that end a line is of a kind that has none of them. -/
theorem isBreak_of_all {p : Char → Bool}
    (hp : ['\n', '\r', '\u0085', '\u2028', '\u2029'].all fun c => !p c) {c : Char} (hc : p c) :
    isBreak c = false := by
  rw [Bool.eq_false_iff]
  intro hbreak
  have hmem : c ∈ ['\n', '\r', '\u0085', '\u2028', '\u2029'] := by
    simpa [isBreak, isLineEnd, isSeparator, or_assoc] using hbreak
  simpa [hc] using List.all_eq_true.1 hp c hmem

theorem isBreak_of_hexDigit? {c : Char} {n : Nat} (h : Text.hexDigit? c = some n) :
    isBreak c = false :=
  isBreak_of_all (p := fun c => (Text.hexDigit? c).isSome) (by decide) (by simp [h])

theorem isBreak_of_isTagCharacter {flowIndicators : Bool} {c : Char}
    (h : isTagCharacter flowIndicators c) : isBreak c = false :=
  isBreak_of_all (by cases flowIndicators <;> decide) h

theorem isBreak_of_isBlank {c : Char} (h : isBlank c) : isBreak c = false := by
  simp only [isBlank, Bool.or_eq_true, beq_iff_eq] at h
  rcases h with rfl | rfl <;> rfl

theorem isBreak_of_isName {c : Char} (h : isName c) : isBreak c = false :=
  (isPrintable_of_isName h).isInline.isBreak

theorem onLine_blanks (s : Source) : (s.dropWhile isBlank).OnLine s :=
  onLine_dropWhile (fun _ => isBreak_of_isBlank) s

theorem onLine_name (s : Source) : (s.dropWhile isName).OnLine s :=
  onLine_dropWhile (fun _ => isBreak_of_isName) s

theorem onLine_skipComment (s : Source) : s.skipComment.OnLine s := by
  unfold skipComment
  dsimp only
  split
  · refine (onLine_dropWhile (fun c hc => ?_) _).trans (onLine_blanks s)
    simp only [Bool.not_eq_true', Bool.or_eq_false_iff] at hc
    exact hc.1
  · exact onLine_blanks s

theorem ToNextLine.of_onLine (h : rest.ToNextLine s) (hs : s.OnLine t) : rest.ToNextLine t := by
  rcases h with h | ⟨end', hend, hbreak, rfl⟩
  · exact .inl (h.trans hs)
  · exact .inr ⟨end', hend.trans hs, hbreak, rfl⟩

theorem behind_suffix (s : Source) : s.behind <:+ s := by
  cases s with
  | nil => exact List.suffix_refl _
  | cons g s => exact List.suffix_cons g s

theorem ToNextLine.suffix (h : rest.ToNextLine s) : rest <:+ s := by
  rcases h with h | ⟨end', hend, -, rfl⟩
  · exact h.suffix
  · exact end'.behind_suffix.trans hend.suffix

end Source

open Yaml.Source

/-- What a reader leaves is on the line that it begins on. -/
abbrev Stays {α : Type} (s : Source) (r : Except SyntaxError (α × Source)) : Prop :=
  Yields (·.2.OnLine s) r

theorem Stays.of_onLine {α : Type} {s t : Source} {r : Except SyntaxError (α × Source)}
    (h : Stays s r) (hs : s.OnLine t) : Stays t r :=
  Yields.mono h fun _ hr => hr.trans hs

theorem yields_failAt {α : Type} {P : α → Prop} {context : Context} {start mark : Mark}
    {problem : Problem} : Yields P (failAt context start mark problem) :=
  Yields.error

theorem stays_readName (context : Context) {s : Source} (hs : isBreak s.front = false) :
    Stays s (readName context s) := by
  unfold readName
  dsimp only
  split
  · exact yields_failAt
  · exact Yields.ok ((onLine_name _).trans (onLine_behind hs))

theorem stays_readUri (place : TagPlace) (flowIndicators : Bool) (start : Mark) (left : Nat)
    (octets : Octets) (s : Source) :
    Stays s (readUri place flowIndicators start left octets s) := by
  have hpercent {g : Glyph} (hg : g.char = '%') : isBreak g.char = false := by
    rw [hg]
    rfl
  induction hlength : s.length using Nat.strongRecOn generalizing s left octets with
  | ind n ih =>
    subst hlength
    cases s with
    | nil => exact Yields.ok (.refl _)
    | cons g rest =>
      unfold readUri
      refine Yields.ite (fun hg => ?_) fun _ => Yields.ite (fun _ => yields_failAt) fun _ =>
        Yields.ite (fun hg => ?_) fun _ => Yields.ok (.refl _)
      · obtain _ | ⟨a, _ | ⟨b, rest⟩⟩ := rest
        · exact yields_failAt
        · exact yields_failAt
        dsimp only
        split
        · next high low ha hb =>
          have hline : OnLine rest (g :: a :: b :: rest) :=
            ((onLine_cons (isBreak_of_hexDigit? hb) rest).trans
              (onLine_cons (isBreak_of_hexDigit? ha) _)).trans (onLine_cons (hpercent hg) _)
          have hshort : rest.length < (g :: a :: b :: rest).length := by
            simp only [List.length_cons]
            omega
          have hmore (left : Nat) (octets : Octets) : Stays (g :: a :: b :: rest)
              (readUri place flowIndicators start left octets rest) :=
            (ih _ hshort left octets rest rfl).of_onLine hline
          split
          · split
            · exact yields_failAt
            · exact hmore _ _
          · exact Yields.ite (fun _ => yields_failAt) fun _ => hmore _ _
        · exact yields_failAt
      · exact (ih _ (Nat.lt_succ_self _) 0 _ rest rfl).of_onLine
          (onLine_cons (isBreak_of_isTagCharacter hg) rest)

theorem stays_readSuffix (place : TagPlace) (flowIndicators : Bool) (lead : List Char)
    (start : Mark) (s : Source) : Stays s (readSuffix place flowIndicators lead start s) := by
  refine Yields.bind (stays_readUri place flowIndicators start 0 [] s)
    fun (octets, rest) hrest => ?_
  dsimp only
  split
  · exact yields_failAt
  · exact Yields.ok hrest

theorem stays_readHandle (place : TagPlace) (start : Mark) (s : Source) :
    Stays s (readHandle place start s) := by
  unfold readHandle
  split
  · exact yields_failAt
  · next hs =>
    have hmark {s : Source} (hs : s.front = '!') : s.behind.OnLine s :=
      onLine_behind (by rw [hs]; rfl)
    have hname := (onLine_name s.behind).trans (hmark (Decidable.not_not.1 hs))
    dsimp only
    split
    · next hrest => exact Yields.ok ((hmark hrest).trans hname)
    · split
      · exact yields_failAt
      · exact Yields.ok hname

theorem stays_readVerbatimTag (start : Mark) (s : Source) :
    Stays s (readVerbatimTag start s) := by
  refine Yields.bind (stays_readSuffix .node true [] start s) fun (suffix, rest) hrest => ?_
  dsimp only at hrest ⊢
  split
  · exact yields_failAt
  · next hfront =>
    have hclose : isBreak rest.front = false := by
      rw [Decidable.not_not.1 hfront]
      rfl
    exact Yields.ok ((onLine_behind hclose).trans hrest)

theorem stays_readShortTag (start : Mark) (s : Source) : Stays s (readShortTag start s) := by
  refine Yields.bind (stays_readHandle .node start s) fun (handle, rest) hrest => ?_
  dsimp only at hrest ⊢
  split
  · exact Yields.bind (stays_readSuffix _ _ _ _ rest) fun _ h => Yields.ok (h.trans hrest)
  · exact Yields.bind (stays_readSuffix _ _ _ _ rest) fun _ h => Yields.ok (h.trans hrest)

theorem stays_readTag (inFlow : Bool) {s : Source} (hs : isBreak s.front = false) :
    Stays s (readTag inFlow s) := by
  have hend (r : Token × Source) (hr : r.2.OnLine s) : Stays s
      (if isGap r.2.front || (inFlow && r.2.front == ',') then .ok r
        else failAt .tag s.mark r.2.mark .missingTagGap) := by
    split
    · exact Yields.ok hr
    · exact yields_failAt
  unfold readTag
  dsimp only
  split
  · next g m rest =>
    have htag := (stays_readVerbatimTag g.mark rest).of_onLine
      ((onLine_cons (g := ⟨'<', m⟩) rfl rest).trans (onLine_cons hs _))
    exact Yields.bind htag hend
  · exact Yields.bind (stays_readShortTag s.mark s) hend

/-- A reader may pass the end of the line that it begins on. -/
abbrev EndsLine {α : Type} (s : Source) (r : Except SyntaxError (α × Source)) : Prop :=
  Yields (·.2.ToNextLine s) r

theorem stays_readVersionNumber (start : Mark) (s : Source) :
    Stays s (readVersionNumber start s) := by
  unfold readVersionNumber
  dsimp only
  split
  · exact yields_failAt
  · split
    · exact yields_failAt
    · refine Yields.ok (onLine_dropWhile (fun c hc => isBreak_of_isName ?_) s)
      simp [isName, Char.isAlphanum, hc]

theorem stays_readVersion (start : Mark) (s : Source) : Stays s (readVersion start s) := by
  refine Yields.bind (stays_readVersionNumber start _) fun (major, rest) hrest => ?_
  have hrest := hrest.trans (onLine_blanks s)
  dsimp only at hrest ⊢
  split
  · exact yields_failAt
  · next hfront =>
    have hpoint : isBreak rest.front = false := by
      rw [Decidable.not_not.1 hfront]
      rfl
    exact Yields.bind (stays_readVersionNumber start _) fun _ h =>
      Yields.ok (h.trans ((onLine_behind hpoint).trans hrest))

theorem stays_readHandleDirective (start : Mark) (s : Source) :
    Stays s (readHandleDirective start s) := by
  refine Yields.bind (stays_readHandle .directive start _) fun (handle, rest) hrest => ?_
  have hrest := hrest.trans (onLine_blanks s)
  dsimp only at hrest ⊢
  split
  · exact yields_failAt
  · refine Yields.bind (stays_readSuffix _ _ _ start _) fun (lead, rest') hrest' => ?_
    have hrest' := (hrest'.trans (onLine_blanks rest)).trans hrest
    dsimp only at hrest' ⊢
    split
    · exact yields_failAt
    · exact Yields.ok hrest'

theorem endsLine_readDirective {s : Source} (hs : isBreak s.front = false) :
    EndsLine s (readDirective s) := by
  have hname := (onLine_name s.behind).trans (onLine_behind hs)
  have hend (r : Token × Source) (hr : r.2.OnLine s) : EndsLine s
      (if isBreak r.2.skipComment.front then .ok (r.1, r.2.skipComment.behind)
        else if isFinish r.2.skipComment.front then .ok (r.1, r.2.skipComment)
        else failAt .directive s.mark r.2.skipComment.mark .missingLineEnd) := by
    have hskip := (onLine_skipComment r.2).trans hr
    split
    · next hbreak => exact Yields.ok (.inr ⟨_, hskip, hbreak, rfl⟩)
    · split
      · exact Yields.ok (.inl hskip)
      · exact yields_failAt
  unfold readDirective
  dsimp only
  split
  · exact yields_failAt
  · split
    · exact yields_failAt
    · split
      · exact Yields.bind ((stays_readVersion _ _).of_onLine hname) hend
      · split
        · exact Yields.bind ((stays_readHandleDirective _ _).of_onLine hname) hend
        · exact yields_failAt

namespace BlockScalar

theorem stays_increment (start : Mark) (s : Source) : Stays s (increment start s) := by
  unfold increment
  split
  · exact yields_failAt
  · split
    · next hdigit =>
      refine Yields.ok (onLine_behind (isBreak_of_isName ?_))
      simp [isName, Char.isAlphanum, hdigit]
    · exact Yields.ok (.refl s)

theorem isBreak_of_chomping? {c : Char} {chomping : Chomping} (h : chomping? c = some chomping) :
    isBreak c = false :=
  isBreak_of_all (p := fun c => (chomping? c).isSome) (by decide) (by simp [h])

theorem stays_indicators (start : Mark) (s : Source) : Stays s (indicators start s) := by
  unfold indicators
  split
  · next chomping hchomping =>
    refine Yields.bind (stays_increment start s.behind) fun (increment, rest) hrest => ?_
    exact Yields.ok (hrest.trans (onLine_behind (isBreak_of_chomping? hchomping)))
  · refine Yields.bind (stays_increment start s) fun (increment, rest) hrest => ?_
    dsimp only at hrest ⊢
    split
    · next hchomping =>
      exact Yields.ok ((onLine_behind (isBreak_of_chomping? hchomping)).trans hrest)
    · exact Yields.ok hrest

theorem endsLine_header (start : Mark) (s : Source) : EndsLine s (header start s) := by
  refine Yields.bind (stays_indicators start s) fun (header, rest) hrest => ?_
  have hskip := (onLine_skipComment rest).trans hrest
  dsimp only
  split
  · next hbreak => exact Yields.ok (.inr ⟨_, hskip, hbreak, rfl⟩)
  · split
    · exact Yields.ok (.inl hskip)
    · exact yields_failAt

end BlockScalar

namespace QuotedScalar

theorem wordStage_quote {quote : Quote} {g : Glyph} (h : wordStage quote g = some .quote) :
    g.char = quote.char := by
  unfold wordStage at h
  grind

/-- How a scalar is read on from a character of a word. -/
abbrev scanWord (quote : Quote) (start : Mark) (text : List Char) (g : Glyph) (rest : Source) :
    Except SyntaxError (List Char × Source) :=
  if isFinish g.char then failAt .quotedScalar start g.mark .unfinishedScalar
  else match wordStage quote g with
    | some .quote =>
      if quote = .double then .ok (text.reverse, rest) else scan quote start .quote text rest
    | some stage => scan quote start stage text rest
    | none => scan quote start .word (g.char :: text) rest

/-- A quoted scalar begins with what was read of it so far, backwards, and it ends behind a quote,
which may be the one that was read last. -/
abbrev Closes (quote : Quote) (stage : Stage) (text : List Char) (s : Source)
    (r : Except SyntaxError (List Char × Source)) : Prop :=
  Yields (fun r => text.reverse <+: r.1 ∧ (stage = .quote ∧ r.2 = s ∨
    ∃ g : Glyph, g.char = quote.char ∧ g :: r.2 <:+ s)) r

theorem closes_scan (quote : Quote) (start : Mark) (stage : Stage) (text : List Char) (s : Source) :
    Closes quote stage text s (scan quote start stage text s) := by
  induction s generalizing stage text with
  | nil => cases stage <;> exact yields_failAt
  | cons g rest ih =>
    -- reading on adds to the text, and a quote that ends it later stands behind this character
    have hmore {stage' : Stage} {text text' : List Char} (htext : text.reverse <+: text'.reverse)
        (hquote : stage' = .quote → g.char = quote.char) {stage : Stage} :
        Closes quote stage text (g :: rest) (scan quote start stage' text' rest) := by
      refine Yields.mono (ih stage' text') fun r hr => ⟨htext.trans hr.1, .inr ?_⟩
      rcases hr.2 with ⟨hstage, hr⟩ | ⟨g', hg', hr⟩
      · exact ⟨g, hquote hstage, hr ▸ List.suffix_refl _⟩
      · exact ⟨g', hg', hr.trans (List.suffix_cons g rest)⟩
    have hcons (c : Char) (text : List Char) : text.reverse <+: (c :: text).reverse := by simp
    have hword (text : List Char) {stage : Stage} :
        Closes quote stage text (g :: rest) (scanWord quote start text g rest) := by
      refine Yields.ite (fun _ => yields_failAt) fun _ => ?_
      split
      · next hquote =>
        have hchar := wordStage_quote hquote
        refine Yields.ite (fun _ => Yields.ok ⟨List.prefix_refl _, .inr ⟨g, hchar, ?_⟩⟩) fun _ => ?_
        · exact List.suffix_refl _
        · exact hmore (List.prefix_refl _) fun _ => hchar
      · next stage' hne hstage =>
        exact hmore (List.prefix_refl _) fun h => absurd h hne
      · exact hmore (hcons _ _) fun h => Stage.noConfusion h
    cases stage with
    | word => exact hword text
    | gap gap =>
      have hgap : text.reverse <+: (gap.text.reverse ++ text).reverse := by simp
      rw [scan]
      dsimp only
      refine Yields.ite (fun _ => hmore (List.prefix_refl _) fun h => Stage.noConfusion h) fun _ =>
        Yields.ite (fun _ => hmore (List.prefix_refl _) fun h => Stage.noConfusion h) fun _ =>
          Yields.ite (fun _ => yields_failAt) fun _ => ?_
      exact Yields.mono (hword _) fun r hr => ⟨hgap.trans hr.1, hr.2⟩
    | quote =>
      rw [scan]
      exact Yields.ite (fun _ => hmore (hcons _ _) fun h => Stage.noConfusion h) fun _ =>
        Yields.ok ⟨List.prefix_refl _, .inl ⟨rfl, rfl⟩⟩
    | escape backslash =>
      rw [scan]
      refine Yields.ite (fun _ => hmore (List.prefix_refl _) fun h => Stage.noConfusion h)
        fun _ => ?_
      split
      · exact hmore (hcons _ _) fun h => Stage.noConfusion h
      · exact hmore (List.prefix_refl _) fun h => Stage.noConfusion h
      · exact yields_failAt
    | codePoint left value first =>
      rw [scan]
      dsimp only
      split
      · exact yields_failAt
      · refine Yields.ite (fun _ => hmore (List.prefix_refl _) fun h => Stage.noConfusion h)
          fun _ => ?_
        split
        · exact hmore (hcons _ _) fun h => Stage.noConfusion h
        · exact yields_failAt

end QuotedScalar

end Planimeter.Yaml
