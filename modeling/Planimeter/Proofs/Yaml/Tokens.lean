import Planimeter.Proofs.Yaml.FlowScalars
/-!
# Tokens of nested mappings

The tokens are read in steps, and between the entries of mappings in block style nothing waits for
its colon. A step at such a place is followed from the text to the tokens; a run of steps is put
together from steps.
-/
namespace Planimeter.Yaml.Scan

/-- After some steps the run goes on as that of another state does. -/
def Reaches (n : Nat) (s t : Scan) : Prop :=
  ∀ steps, run (n + steps + 1) s = run (steps + 1) t

theorem Reaches.trans {m n : Nat} {s t u : Scan} (h : Reaches m s t) (h' : Reaches n t u) :
    Reaches (m + n) s u := fun steps => by
  rw [Nat.add_assoc m n steps, h, h']

theorem reaches_of_step {s t : Scan} (h : s.step = .ok t) (ht : t.source ≠ []) :
    Reaches 1 s t := fun steps => by
  have hmore : t.source.isEmpty = false := by simpa using ht
  rw [show 1 + steps + 1 = (steps + 1) + 1 by omega, run, h]
  simp only [hmore, Bool.false_eq_true, if_false]

/-- Outside flow collections, with no node that may turn out a key. -/
abbrev between (source : Source) (tokens : List Lexeme) (columns : List Nat) (keyAllowed : Bool) :
    Scan :=
  ⟨source, tokens, columns, none, [], keyAllowed⟩

variable {source source' : Source} {tokens : List Lexeme} {columns closed : List Nat}
  {keyAllowed keyAllowed' : Bool}

/-- A step begins at the next token, with the candidates and blocks that are still open there. -/
theorem step_eq {s t u : Scan} (hflow : s.inFlow = false)
    (hskip : skip false false s.keyAllowed s.source = (keyAllowed', source'))
    (hexpire : ({ s with keyAllowed := keyAllowed', source := source' } : Scan).expire = .ok t)
    (hclose : t.closeBlocks (t.source.column < ·) = u) : s.step = u.dispatch.bind expire := by
  simp only [step, hflow, hskip]
  rw [hexpire, ← hclose]
  rfl

theorem step_between (h : skip false false keyAllowed source = (keyAllowed', source')) :
    (between source tokens columns keyAllowed).step =
      ((between source' tokens columns keyAllowed').closeBlocks (source'.column < ·)).dispatch.bind
        expire :=
  step_eq rfl h rfl rfl

/-- What stands in front of the next token does not count. -/
theorem reaches_skip (h : skip false false keyAllowed source = (keyAllowed', source'))
    (h' : skip false false keyAllowed' source' = (keyAllowed', source')) :
    Reaches 0 (between source tokens columns keyAllowed)
      (between source' tokens columns keyAllowed') := fun steps => by
  rw [Nat.zero_add, run, run, step_between h, step_between h']
  rfl

/-- A token ends the block collections that it is indented less than. -/
theorem closeBlocks_append (hclosed : ∀ n ∈ closed, source.column < n)
    (hcolumns : ∀ n ∈ columns.head?, n ≤ source.column) :
    (between source tokens (closed ++ columns) keyAllowed).closeBlocks (source.column < ·) =
      between source (List.replicate closed.length ⟨.blockEnd, source.mark⟩ ++ tokens) columns
        keyAllowed := by
  have hdrop : (closed ++ columns).dropWhile (fun n => decide (source.column < n)) = columns := by
    rw [List.dropWhile_append_of_pos (by simpa using hclosed)]
    cases columns with
    | nil => rfl
    | cons n columns => exact List.dropWhile_cons_of_neg (by simpa using hcolumns n rfl)
  simp only [closeBlocks, hdrop, List.length_append, Nat.add_sub_cancel]
  rfl

variable {m : Mark} {c : Char} {rest : Source}

/-- A character that indicates nothing begins a plain scalar. -/
theorem dispatch_plain (hgap : isGap c = false) (hindicator : isIndicator c = false)
    (hmark : Source.isDocumentMark (⟨c, m⟩ :: rest) = false) :
    (between (⟨c, m⟩ :: rest) tokens columns keyAllowed).dispatch =
      (between (⟨c, m⟩ :: rest) tokens columns keyAllowed).atPlainScalar := by
  have hfinish : isFinish c = false := by
    simp only [isGap, Bool.or_eq_false_iff] at hgap
    exact hgap.2
  have hbegins : beginsPlain false c (Source.front rest) = true := by
    simp [beginsPlain, hgap, hindicator]
  have hflow : (between (⟨c, m⟩ :: rest) tokens columns keyAllowed).inFlow = false := rfl
  simp only [isIndicator, isFlowIndicator, Bool.or_eq_false_iff] at hindicator
  simp [dispatch, hfinish, hmark, hindicator, hbegins, hflow]

theorem isIndicator_of_isAlpha (h : c.isAlpha) : isIndicator c = false := by
  simp only [isIndicator, isFlowIndicator, Bool.or_eq_false_iff, beq_eq_false_iff_ne]
  and_intros <;> exact ne_of_isAlpha h rfl

theorem isDocumentMark_of_isAlpha (h : c.isAlpha) :
    Source.isDocumentMark (⟨c, m⟩ :: rest) = false := by
  unfold Source.isDocumentMark
  split
  · next heq =>
    obtain ⟨rfl, -⟩ := List.cons.inj heq
    have hhyphen : c ≠ '-' := ne_of_isAlpha h rfl
    have hpoint : c ≠ '.' := ne_of_isAlpha h rfl
    simp [hhyphen, hpoint]
  · rfl

/-- A key behind which its colon is expected. -/
abbrev withKey (source : Source) (tokens : List Lexeme) (columns : List Nat) (c : Candidate) :
    Scan :=
  ⟨source, tokens, columns, some c, [], false⟩

variable {key tail : List Char} {candidate : Candidate}

theorem expire_withKey (h : candidate.isExpired source.mark = false) :
    (withKey source tokens columns candidate).expire =
      .ok (withKey source tokens columns candidate) := by
  simp only [expire, mark, h]
  rfl

theorem closeBlocks_withKey (hcolumns : ∀ n ∈ columns.head?, n ≤ source.column) :
    (withKey source tokens columns candidate).closeBlocks (source.column < ·) =
      withKey source tokens columns candidate := by
  have hdrop : columns.dropWhile (fun n => decide (source.column < n)) = columns := by
    cases columns with
    | nil => rfl
    | cons n columns => exact List.dropWhile_cons_of_neg (by simpa using hcolumns n rfl)
  simp only [closeBlocks, hdrop, Nat.sub_self]
  rfl

theorem isExpired_key (hlength : 4 * key.length ≤ keyLength) (before : Nat) (required : Bool) :
    Candidate.isExpired (m.after key) ⟨before, m, required⟩ = false := by
  have hindex := Mark.after_index_le m key
  simp only [Candidate.isExpired, Mark.after_line, Bool.or_eq_false_iff, decide_eq_false_iff_not]
  omega

/-- A plain scalar where a key may begin is a candidate. -/
theorem atPlainScalar_between {scalar : PlainScalar} {rest : Source}
    (h : PlainScalar.read false ((columns.head?.map (· + 1)).getD 0) source = .ok (scalar, rest)) :
    (between source tokens columns true).atPlainScalar =
      .ok ⟨rest, ⟨.scalar scalar.text .plain, source.mark⟩ :: tokens, columns,
        some ⟨tokens.length, source.mark, columns.head? == some source.column⟩, [],
        scalar.crossedLine⟩ := by
  change ((PlainScalar.read false ((columns.head?.map (· + 1)).getD 0) source).bind _) = _
  rw [h]
  rfl

theorem step_key (halpha : GoesOn key) (hkey : key ≠ []) (hname : ∀ c ∈ key, isName c)
    (hlength : 4 * key.length ≤ keyLength) (hclosed : ∀ n ∈ closed, m.column < n)
    (hcolumns : ∀ n ∈ columns.head?, n ≤ m.column) (hc : c = ' ' ∨ c = '\n')
    (tokens : List Lexeme) (tail : List Char) :
    (between (Source.place m (key ++ ':' :: c :: tail)) tokens (closed ++ columns) true).step =
      .ok (withKey (Source.place (m.after key) (':' :: c :: tail))
        (⟨.scalar key .plain, m⟩ :: (List.replicate closed.length ⟨.blockEnd, m⟩ ++ tokens))
        columns ⟨(List.replicate closed.length (⟨.blockEnd, m⟩ : Lexeme) ++ tokens).length, m,
          columns.head? == some m.column⟩) := by
  have hgoes : GoesOn (key ++ ':' :: c :: tail) := by
    obtain ⟨k, key, rfl⟩ := List.exists_cons_of_ne_nil hkey
    exact halpha
  have hmark : (Source.place m (key ++ ':' :: c :: tail)).column = m.column := by
    simp [Source.column]
  have hread : PlainScalar.read false ((columns.head?.map (· + 1)).getD 0)
      (Source.place m (key ++ ':' :: c :: tail)) =
        .ok (⟨key, false⟩, Source.place (m.after key) (':' :: c :: tail)) := by
    rw [PlainScalar.read, PlainScalar.scan_name rfl hname hc]
    rfl
  rw [step_between (skip_goesOn hgoes), closeBlocks_append (by simpa [hmark] using hclosed)
    (by simpa [hmark] using hcolumns), Source.mark_place]
  have hdispatch : (between (Source.place m (key ++ ':' :: c :: tail))
      (List.replicate closed.length ⟨.blockEnd, m⟩ ++ tokens) columns true).dispatch =
      (between (Source.place m (key ++ ':' :: c :: tail))
      (List.replicate closed.length ⟨.blockEnd, m⟩ ++ tokens) columns true).atPlainScalar := by
    obtain ⟨k, key, rfl⟩ := List.exists_cons_of_ne_nil hkey
    have hk : k.isAlpha := halpha k rfl
    have hinline := (isPrintable_of_isName (isName_of_isAlpha hk)).isInline
    rw [List.cons_append, Source.place_inline hinline]
    exact dispatch_plain (hinline.isGap (ne_of_isAlpha hk rfl)) (isIndicator_of_isAlpha hk)
      (isDocumentMark_of_isAlpha hk)
  rw [hdispatch, atPlainScalar_between hread, hmark, Source.mark_place]
  exact expire_withKey (by rw [Source.mark_place]; exact isExpired_key hlength _ _)

theorem step_colon (hcolumns : ∀ n ∈ columns.head?, n ≤ m.column) (hcolumn : 0 < m.column)
    (hexpired : candidate.isExpired m = false) (hc : c = ' ' ∨ c = '\n') (tokens : List Lexeme)
    (tail : List Char) :
    let s := withKey (Source.place m (':' :: c :: tail)) tokens columns candidate
    s.step = .ok ((s.acceptCandidate candidate).take 1 .value) := by
  have hgap : isGap (Source.front (Source.place (m.next ':') (c :: tail))) := by
    rcases hc with rfl | rfl <;> rfl
  rw [Source.place_inline isInline_colon]
  have hmark := Source.isDocumentMark_of_column hcolumn ':' (Source.place (m.next ':') (c :: tail))
  intro s
  have hskip : skip false false s.keyAllowed s.source = (false, s.source) :=
    skip_token ⟨rfl, rfl, by decide, by decide⟩
  have hexpire : s.expire = .ok s := expire_withKey hexpired
  have hclose : s.closeBlocks (s.source.column < ·) = s := closeBlocks_withKey hcolumns
  have hdispatch : s.dispatch = s.atValue := by
    have hflow : s.inFlow = false := rfl
    have hfront : s.source.front = ':' := rfl
    simp [dispatch, hflow, hfront, s, hmark, hgap, isFinish, finish]
  rw [step_eq rfl hskip hexpire hclose, hdispatch]
  rfl

theorem isInside_iff {column : Nat} (hcolumns : ∀ n ∈ columns.head?, n ≤ column) :
    (withKey source tokens columns candidate).isInside column = true ↔
      columns.head? ≠ some column := by
  cases columns with
  | nil => simp [isInside]
  | cons n columns =>
    have hn : n ≤ column := hcolumns n rfl
    simp only [isInside, decide_eq_true_eq, List.head?_cons, ne_eq, Option.some.injEq]
    omega

/-- A candidate that is the last token becomes a key in front of its colon. -/
theorem acceptCandidate_eq (l : Lexeme) (m' : Mark) {required : Bool}
    (hcolumns : ∀ n ∈ columns.head?, n ≤ m.column) :
    ((withKey (⟨c, m'⟩ :: rest) (l :: tokens) columns ⟨tokens.length, m, required⟩).acceptCandidate
      ⟨tokens.length, m, required⟩).take 1 .value =
    between rest (⟨.value, m'⟩ :: l :: ⟨.key, m⟩ ::
      ((if columns.head? ≠ some m.column then [⟨.blockMappingStart, m⟩] else []) ++ tokens))
      (if columns.head? ≠ some m.column then m.column :: columns else columns) false := by
  have hlater : (l :: tokens).length - tokens.length = 1 := by simp
  have hflow : (withKey (⟨c, m'⟩ :: rest) (l :: tokens) columns
      ⟨tokens.length, m, required⟩).inFlow = false := rfl
  simp only [acceptCandidate, hlater, hflow, Bool.not_false, Bool.true_and,
    isInside_iff hcolumns]
  rfl

/-- A key and its colon, one step each. The key begins a mapping if it is indented more than the
entries around it, and it ends the mappings whose entries are indented more than it. -/
theorem exists_step_key (halpha : GoesOn key) (hkey : key ≠ []) (hname : ∀ c ∈ key, isName c)
    (hlength : 4 * key.length ≤ keyLength) (hclosed : ∀ n ∈ closed, m.column < n)
    (hcolumns : ∀ n ∈ columns.head?, n ≤ m.column) (hc : c = ' ' ∨ c = '\n')
    (tokens : List Lexeme) (tail : List Char) :
    ∃ s : Scan, s.source ≠ [] ∧ s.tokens = ⟨.scalar key .plain, m⟩ ::
        (List.replicate closed.length ⟨.blockEnd, m⟩ ++ tokens) ∧
      (between (Source.place m (key ++ ':' :: c :: tail)) tokens (closed ++ columns) true).step =
        .ok s ∧
      s.step = .ok (between (Source.place ((m.after key).next ':') (c :: tail))
        (⟨.value, m.after key⟩ :: ⟨.scalar key .plain, m⟩ :: ⟨.key, m⟩ ::
          ((if columns.head? ≠ some m.column then [⟨.blockMappingStart, m⟩] else []) ++
            (List.replicate closed.length ⟨.blockEnd, m⟩ ++ tokens)))
        (if columns.head? ≠ some m.column then m.column :: columns else columns) false) := by
  have hlonger : 0 < key.length := List.length_pos_iff.2 hkey
  have hbehind : ∀ n ∈ columns.head?, n ≤ (m.after key).column := fun n hn => by
    have := hcolumns n hn
    simp
    omega
  have hfirst := step_key halpha hkey hname hlength hclosed hcolumns hc tokens tail
  have hexpired := isExpired_key (m := m) hlength
    (List.replicate closed.length (⟨.blockEnd, m⟩ : Lexeme) ++ tokens).length
    (columns.head? == some m.column)
  have hsecond := step_colon hbehind (by simp; omega) hexpired hc
    (⟨.scalar key .plain, m⟩ :: (List.replicate closed.length ⟨.blockEnd, m⟩ ++ tokens)) tail
  rw [Source.place_inline isInline_colon] at hfirst hsecond
  dsimp only at hsecond
  rw [acceptCandidate_eq _ _ hcolumns] at hsecond
  exact ⟨_, List.cons_ne_nil _ _, rfl, hfirst, hsecond⟩

theorem reaches_key (halpha : GoesOn key) (hkey : key ≠ []) (hname : ∀ c ∈ key, isName c)
    (hlength : 4 * key.length ≤ keyLength) (hclosed : ∀ n ∈ closed, m.column < n)
    (hcolumns : ∀ n ∈ columns.head?, n ≤ m.column) (hc : c = ' ' ∨ c = '\n')
    (tokens : List Lexeme) (tail : List Char) :
    Reaches 2
      (between (Source.place m (key ++ ':' :: c :: tail)) tokens (closed ++ columns) true)
      (between (Source.place ((m.after key).next ':') (c :: tail))
        (⟨.value, m.after key⟩ :: ⟨.scalar key .plain, m⟩ :: ⟨.key, m⟩ ::
          ((if columns.head? ≠ some m.column then [⟨.blockMappingStart, m⟩] else []) ++
            (List.replicate closed.length ⟨.blockEnd, m⟩ ++ tokens)))
        (if columns.head? ≠ some m.column then m.column :: columns else columns) false) := by
  obtain ⟨s, hsource, -, hfirst, hsecond⟩ :=
    exists_step_key halpha hkey hname hlength hclosed hcolumns hc tokens tail
  exact (reaches_of_step hfirst hsource).trans (reaches_of_step hsecond (Source.place_ne_nil _ _))

/-- The end of a text ends all mappings. -/
theorem run_end (hcolumn : m.column = 0) (hpositive : ∀ n ∈ closed, 0 < n) (steps : Nat) :
    run (steps + 1) (between (Source.place m []) tokens (closed ++ [0]) true) =
      ((⟨.finish, m⟩ :: ⟨.blockEnd, m⟩ ::
        (List.replicate closed.length ⟨.blockEnd, m⟩ ++ tokens)).reverse, none) := by
  have hskip : skip false false true (Source.place m []) = (true, Source.place m []) := rfl
  have hstep : (between (Source.place m []) tokens (closed ++ [0]) true).step =
      .ok (between [] (⟨.finish, m⟩ :: ⟨.blockEnd, m⟩ ::
        (List.replicate closed.length ⟨.blockEnd, m⟩ ++ tokens)) [] true) := by
    rw [step_between hskip, closeBlocks_append (by simpa [Source.column, hcolumn] using hpositive)
      (by simp), Source.mark_place]
    have hend : endMark m = m := by rw [endMark, if_pos hcolumn]
    have hfinish (tokens : List Lexeme) : (between (Source.place m []) tokens [0] true).dispatch =
        .ok (between [] (⟨.finish, endMark m⟩ :: ⟨.blockEnd, endMark m⟩ :: tokens) [] true) := rfl
    rw [hfinish, hend]
    rfl
  rw [run, hstep]
  rfl

end Planimeter.Yaml.Scan
