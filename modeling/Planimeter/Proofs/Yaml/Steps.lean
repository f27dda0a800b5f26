import Mathlib.Data.List.Perm.Subperm
import Planimeter.Proofs.Yaml.Weights
/-!
# What a step takes

A step takes the token in front off the text, and either that is a scalar, whose text is added to
those so far, or no text is added. What is known of the readers of scalars is thus known of steps,
and by induction of runs.
-/
namespace Planimeter.Yaml

/-- The text of a scalar. -/
def Token.text? : Token → Option (List Char)
  | .scalar text _ => some text
  | _ => none

/-- The texts of the scalars among some tokens. -/
def texts (lexemes : List Lexeme) : List (List Char) := lexemes.filterMap (·.token.text?)

@[simp] theorem texts_nil : texts [] = [] := rfl

@[simp] theorem texts_append (ls ls' : List Lexeme) : texts (ls ++ ls') = texts ls ++ texts ls' :=
  List.filterMap_append

@[simp] theorem texts_scalar (text : List Char) (style : Style) (m : Mark) (ls : List Lexeme) :
    texts (⟨.scalar text style, m⟩ :: ls) = text :: texts ls := rfl

theorem texts_cons {l : Lexeme} (h : l.token.text? = none) (ls : List Lexeme) :
    texts (l :: ls) = texts ls :=
  List.filterMap_cons_none h

@[simp] theorem texts_replicate_blockEnd (n : Nat) (m : Mark) :
    texts (List.replicate n ⟨.blockEnd, m⟩) = [] := by
  induction n with
  | zero => rfl
  | succ n ih => exact ih

namespace Scan

/-- What is done before the token in front is read: the text and its scalars stay. -/
structure Keeps (s t : Scan) : Prop where
  source : t.source = s.source
  texts : texts t.tokens = texts s.tokens
  keyAllowed : t.keyAllowed = s.keyAllowed
  outer : t.outer = s.outer
  candidate : ∀ c ∈ t.candidate, c ∈ s.candidate ∨ c.mark = s.mark

/-- How the token in front is read. -/
inductive Reads (s t : Scan) : Prop where
  | finish (h : isFinish s.source.front) (texts : texts t.tokens = texts s.tokens)
      (source : t.source = [])
  | sign (texts : texts t.tokens = texts s.tokens) (source : t.source.ToNextLine s.source)
  | plain {indent : Nat} {scalar : PlainScalar}
      (read : PlainScalar.read s.inFlow indent s.source = .ok (scalar, t.source))
      (texts : texts t.tokens = scalar.text :: texts s.tokens)
      (keyAllowed : t.keyAllowed = scalar.crossedLine)
  | block {layout : BlockScalar.Layout} {parent : Option Nat} {text : List Char}
      (read : BlockScalar.read layout parent s.source = .ok (text, t.source))
      (texts : texts t.tokens = text :: texts s.tokens)
  | quoted {quote : Quote} {text : List Char} (front : s.source.front = quote.char)
      (read : QuotedScalar.read quote s.source = .ok (text, t.source))
      (texts : texts t.tokens = text :: texts s.tokens)

/-- The token in front is taken. Unless it is a flow indicator, no flow collection begins or ends,
and only the token itself becomes a candidate. -/
structure Lexes (s t : Scan) : Prop where
  reads : Reads s t
  outer : isFlowIndicator s.source.front = false → s.outer = [] → t.outer = []
  candidate : isFlowIndicator s.source.front = false →
    ∀ c ∈ t.candidate, c ∈ s.candidate ∨ c.mark = s.mark

variable {s t u : Scan}

namespace Keeps

@[refl] theorem refl (s : Scan) : Keeps s s := ⟨rfl, rfl, rfl, rfl, fun _ => .inl⟩

theorem mark (h : Keeps s t) : t.mark = s.mark := congrArg Source.mark h.source

theorem inFlow (h : Keeps s t) : t.inFlow = s.inFlow := by
  rw [Scan.inFlow, h.outer, Scan.inFlow]

theorem trans (h : Keeps s t) (h' : Keeps t u) : Keeps s u where
  source := h'.source.trans h.source
  texts := h'.texts.trans h.texts
  keyAllowed := h'.keyAllowed.trans h.keyAllowed
  outer := h'.outer.trans h.outer
  candidate c hc := by
    rcases h'.candidate c hc with hc | hc
    · exact h.candidate c hc
    · exact .inr (hc.trans h.mark)

theorem reads (h : Keeps s t) (h' : Reads t u) : Reads s u := by
  have hsource := h.source
  have htexts := h.texts
  cases h' with
  | finish hfinish texts source => exact .finish (hsource ▸ hfinish) (texts.trans htexts) source
  | sign texts source => exact .sign (texts.trans htexts) (hsource ▸ source)
  | plain read texts keyAllowed =>
    rw [hsource, h.inFlow] at read
    exact .plain read (texts.trans (congrArg _ htexts)) keyAllowed
  | block read texts => exact .block (hsource ▸ read) (texts.trans (congrArg _ htexts))
  | quoted front read texts =>
    exact .quoted (hsource ▸ front) (hsource ▸ read) (texts.trans (congrArg _ htexts))

/-- What is done before does not count. -/
theorem lexes (h : Keeps s t) (h' : Lexes t u) : Lexes s u where
  reads := h.reads h'.reads
  outer hfront hs := h'.outer (h.source ▸ hfront) (h.outer.trans hs)
  candidate hfront c hc := by
    rcases h'.candidate (h.source ▸ hfront) c hc with hc | hc
    · exact h.candidate c hc
    · exact .inr (hc.trans h.mark)

end Keeps

theorem keeps_dropCandidate (s : Scan) :
    Yields (fun t => Keeps s t ∧ t.candidate = none) s.dropCandidate := by
  have hdropped : Keeps s { s with candidate := none } :=
    ⟨rfl, rfl, rfl, rfl, fun c hc => absurd hc (by simp)⟩
  unfold dropCandidate
  split
  · exact Yields.after fun _ => Yields.ok ⟨hdropped, rfl⟩
  · exact Yields.ok ⟨hdropped, rfl⟩

theorem keeps_noteCandidate (s : Scan) : Yields (Keeps s) s.noteCandidate := by
  unfold noteCandidate
  dsimp only
  split
  · exact Yields.ok (.refl s)
  · refine Yields.bind (keeps_dropCandidate s) fun t ⟨ht, _⟩ => Yields.ok ?_
    refine ⟨ht.source, ht.texts, ht.keyAllowed, ht.outer, fun c hc => .inr ?_⟩
    obtain rfl := Option.some.inj hc
    exact ht.mark

theorem keeps_closeBlocks (closes : Nat → Bool) (s : Scan) : Keeps s (s.closeBlocks closes) := by
  unfold closeBlocks
  split
  · exact .refl s
  · exact ⟨rfl, by simp, rfl, rfl, fun _ hc => .inl hc⟩

theorem keeps_openBlock (token : Token) (h : token.text? = none) (s : Scan) :
    Keeps s (s.openBlock token) := by
  unfold openBlock
  split
  · exact ⟨rfl, texts_cons h _, rfl, rfl, fun _ hc => .inl hc⟩
  · exact .refl s

/-- Giving up candidates that are too late leaves everything else. -/
structure Expires (s t : Scan) : Prop where
  source : t.source = s.source
  tokens : t.tokens = s.tokens
  columns : t.columns = s.columns
  keyAllowed : t.keyAllowed = s.keyAllowed
  outer : s.outer = [] → t.outer = []
  candidate : ∀ c ∈ t.candidate, c ∈ s.candidate ∧ c.isExpired s.mark = false

theorem expires_expire (s : Scan) : Yields (Expires s) s.expire := by
  unfold expire
  dsimp only
  refine Yields.bind (m := Except SyntaxError) (P := fun outer => s.outer = [] → outer = []) ?_
    fun outer houter => ?_
  · refine Yields.of_forall fun outer h hs => ?_
    rw [hs] at h
    exact (Except.ok.inj h).symm
  · refine Yields.bind (m := Except SyntaxError)
      (P := fun candidate => ∀ c ∈ candidate, c ∈ s.candidate ∧ c.isExpired s.mark = false) ?_
      fun candidate hcandidate => ?_
    · cases s.candidate with
      | none => exact Yields.ok (by simp)
      | some c =>
        dsimp only
        split
        · exact Yields.after fun _ => Yields.ok (by simp)
        · next h => exact Yields.ok (by simpa using h)
    · exact Yields.ok ⟨rfl, rfl, rfl, rfl, houter, hcandidate⟩

/-- A token that is no scalar is added, and the text goes on at most on the next line. -/
theorem lexes_sign {token : Token} (htoken : token.text? = none) (s : Scan) {rest : Source}
    (hrest : rest.ToNextLine s.source) {columns : List Nat} {candidate : Option Candidate}
    {outer : List (Option Candidate)} {keyAllowed : Bool}
    (houter : isFlowIndicator s.source.front = false → outer = s.outer)
    (hcandidate : isFlowIndicator s.source.front = false →
      ∀ c ∈ candidate, c ∈ s.candidate ∨ c.mark = s.mark) :
    Lexes s ⟨rest, ⟨token, s.mark⟩ :: s.tokens, columns, candidate, outer, keyAllowed⟩ where
  reads := .sign (texts_cons htoken _) hrest
  outer hfront hs := (houter hfront).trans hs
  candidate := hcandidate

theorem toNextLine_drop {s : Source} (hs : isBreak s.front = false) :
    Source.ToNextLine (s.drop 1) s := by
  refine .inl ?_
  cases s with
  | nil => exact .refl _
  | cons g s => exact Source.onLine_cons hs s

theorem toNextLine_documentMark {s : Source} (hs : s.isDocumentMark) :
    Source.ToNextLine (s.drop 3) s := by
  unfold Source.isDocumentMark at hs
  split at hs
  · next a b c rest =>
    simp only [Bool.and_eq_true, Bool.or_eq_true, beq_iff_eq] at hs
    obtain ⟨⟨⟨⟨-, ha⟩, hb⟩, hc⟩, -⟩ := hs
    have hbreak : isBreak a.char = false := by
      rcases ha with ha | ha <;> rw [ha] <;> rfl
    exact .inl (((Source.onLine_cons (hc ▸ hbreak) rest).trans
      (Source.onLine_cons (hb ▸ hbreak) _)).trans (Source.onLine_cons hbreak _))
  · contradiction

theorem lexes_atFinish (h : isFinish s.source.front) : Yields (Lexes s) s.atFinish := by
  unfold atFinish
  dsimp only
  refine Yields.bind (keeps_dropCandidate _) fun t ⟨ht, htc⟩ => ?_
  refine Yields.bind (expires_expire _) fun u hu => Yields.ok ?_
  have hkeeps := (keeps_closeBlocks (fun _ => true)
    (s.goOn [⟨finish, endMark s.mark⟩])).trans ht
  refine ⟨.finish h ?_ rfl, fun _ hs => hu.outer (hkeeps.outer.trans hs), fun _ c hc => ?_⟩
  · exact (congrArg _ hu.tokens).trans ((texts_cons rfl _).trans hkeeps.texts)
  · have hmem := (hu.candidate c hc).1
    rw [emit, htc] at hmem
    contradiction

theorem lexes_atDocument {read : Source → Except SyntaxError (Token × Source)}
    (hread : Yields (fun r => r.1.text? = none ∧ r.2.ToNextLine s.source) (read s.source)) :
    Yields (Lexes s) (s.atDocument read) := by
  refine Yields.bind (keeps_dropCandidate _) fun t ⟨ht, htc⟩ => ?_
  have hkeeps := (keeps_closeBlocks (fun _ => true) s).trans ht
  rw [← hkeeps.source] at hread
  refine Yields.bind hread fun (token, rest) ⟨htoken, hrest⟩ => Yields.ok (hkeeps.lexes ?_)
  exact lexes_sign htoken t hrest (fun _ => rfl) fun _ _ hc => .inl hc

theorem lexes_atFlowStart {token : Token} (htoken : token.text? = none)
    (hfront : isFlowIndicator s.source.front) (hbreak : isBreak s.source.front = false) :
    Yields (Lexes s) (s.atFlowStart token) := by
  refine Yields.bind (keeps_noteCandidate s) fun t ht => Yields.ok (ht.lexes ?_)
  rw [← ht.source] at hfront hbreak
  exact lexes_sign htoken t (toNextLine_drop hbreak) (fun h => by simp [hfront] at h)
    fun h => by simp [hfront] at h

theorem lexes_atFlowEnd {token : Token} (htoken : token.text? = none)
    (hfront : isFlowIndicator s.source.front) (hbreak : isBreak s.source.front = false) :
    Yields (Lexes s) (s.atFlowEnd token) := by
  refine Yields.bind (keeps_dropCandidate s) fun t ⟨ht, _⟩ => ?_
  rw [← ht.source] at hfront hbreak
  have hsign {columns candidate outer keyAllowed} : Lexes t
      ⟨t.source.drop 1, ⟨token, t.mark⟩ :: t.tokens, columns, candidate, outer, keyAllowed⟩ :=
    lexes_sign htoken t (toNextLine_drop hbreak) (fun h => by simp [hfront] at h)
      fun h => by simp [hfront] at h
  dsimp only
  split
  · exact Yields.ok (ht.lexes hsign)
  · exact Yields.ok (ht.lexes hsign)

theorem lexes_atFlowEntry (hbreak : isBreak s.source.front = false) :
    Yields (Lexes s) s.atFlowEntry := by
  refine Yields.bind (keeps_dropCandidate s) fun t ⟨ht, _⟩ => Yields.ok (ht.lexes ?_)
  rw [← ht.source] at hbreak
  exact lexes_sign rfl t (toNextLine_drop hbreak) (fun _ => rfl) fun _ _ hc => .inl hc

theorem lexes_atBlockEntry (hbreak : isBreak s.source.front = false) :
    Yields (Lexes s) s.atBlockEntry := by
  unfold atBlockEntry
  split
  · exact Yields.error
  · refine Yields.bind (keeps_dropCandidate _) fun t ⟨ht, _⟩ => ?_
    have hkeeps := (keeps_openBlock .blockSequenceStart rfl s).trans ht
    rw [← hkeeps.source] at hbreak
    exact Yields.ok (hkeeps.lexes
      (lexes_sign rfl t (toNextLine_drop hbreak) (fun _ => rfl) fun _ _ hc => .inl hc))

theorem lexes_atKey (hbreak : isBreak s.source.front = false) : Yields (Lexes s) s.atKey := by
  unfold atKey
  split
  · exact Yields.error
  · refine Yields.bind (keeps_dropCandidate _) fun t ⟨ht, _⟩ => ?_
    have hkeeps := (keeps_openBlock .blockMappingStart rfl s).trans ht
    rw [← hkeeps.source] at hbreak
    exact Yields.ok (hkeeps.lexes
      (lexes_sign rfl t (toNextLine_drop hbreak) (fun _ => rfl) fun _ _ hc => .inl hc))

theorem keeps_acceptCandidate (c : Candidate) (s : Scan) : Keeps s (s.acceptCandidate c) where
  source := rfl
  texts := by
    have hopens (p : Prop) [Decidable p] :
        texts (if p then [⟨.blockMappingStart, c.mark⟩] else []) = [] := by split <;> rfl
    have hkey (ls : List Lexeme) : texts (⟨.key, c.mark⟩ :: ls) = texts ls := rfl
    have hsplit : texts (s.tokens.take (s.tokens.length - c.before)) ++
        texts (s.tokens.drop (s.tokens.length - c.before)) = texts s.tokens := by
      rw [← texts_append, List.take_append_drop]
    rw [← hsplit]
    simp [acceptCandidate, hopens, hkey]
  keyAllowed := rfl
  outer := rfl
  candidate _ hc := absurd hc (by simp [acceptCandidate])

theorem lexes_atValue (hbreak : isBreak s.source.front = false) :
    Yields (Lexes s) s.atValue := by
  unfold atValue
  split
  · next c _ =>
    exact Yields.ok ((keeps_acceptCandidate c s).lexes (lexes_sign rfl (s.acceptCandidate c)
      (toNextLine_drop hbreak) (fun _ => rfl) fun _ _ hc => .inl hc))
  · split
    · exact Yields.error
    · have hkeeps := keeps_openBlock .blockMappingStart rfl s
      rw [← hkeeps.source] at hbreak
      exact Yields.ok (hkeeps.lexes
        (lexes_sign rfl _ (toNextLine_drop hbreak) (fun _ => rfl) fun _ _ hc => .inl hc))

/-- A token of a node on one line. -/
theorem lexes_atNode {read : Source → Except SyntaxError (Token × Source)}
    (hread : Yields (fun r => r.1.text? = none ∧ r.2.ToNextLine s.source) (read s.source)) :
    Yields (Lexes s) (s.atNode read) := by
  refine Yields.bind (keeps_noteCandidate s) fun t ht => ?_
  rw [← ht.source] at hread
  refine Yields.bind hread fun (token, rest) ⟨htoken, hrest⟩ => Yields.ok (ht.lexes ?_)
  exact lexes_sign htoken t hrest (fun _ => rfl) fun _ _ hc => .inl hc

theorem lexes_atQuoted {quote : Quote} (hfront : s.source.front = quote.char) :
    Yields (Lexes s) (s.atNode (readQuoted quote)) := by
  refine Yields.bind (keeps_noteCandidate s) fun t ht => ?_
  rw [← ht.source] at hfront
  rw [readQuoted]
  cases hread : QuotedScalar.read quote t.source with
  | error e => exact Yields.error
  | ok found =>
    exact Yields.ok (ht.lexes
      ⟨.quoted hfront hread rfl, fun _ houter => houter, fun _ _ hc => .inl hc⟩)

theorem lexes_atBlockScalar (layout : BlockScalar.Layout) (s : Scan) :
    Yields (Lexes s) (s.atBlockScalar layout) := by
  refine Yields.bind (keeps_dropCandidate s) fun t ⟨ht, _⟩ => ?_
  refine Yields.bind (Yields.of_forall fun _ h => h) fun (text, rest) hread => ?_
  exact Yields.ok (ht.lexes
    ⟨.block hread rfl, fun _ houter => houter, fun _ _ hc => .inl hc⟩)

theorem lexes_atPlainScalar (s : Scan) : Yields (Lexes s) s.atPlainScalar := by
  refine Yields.bind (keeps_noteCandidate s) fun t ht => ?_
  refine Yields.bind (Yields.of_forall fun _ h => h) fun (scalar, rest) hread => ?_
  exact Yields.ok (ht.lexes
    ⟨.plain hread rfl rfl, fun _ houter => houter, fun _ _ hc => .inl hc⟩)

/-- Tokens that readers make are no scalars but those of quoted ones. -/
theorem text?_readNamed {context : Context} {token : List Char → Token}
    (htoken : ∀ name, (token name).text? = none) (s : Source) :
    Yields (fun r => r.1.text? = none) (readNamed context token s) := by
  rw [readNamed]
  cases readName context s with
  | error e => exact Yields.error
  | ok found => exact Yields.ok (htoken found.1)

theorem toNextLine_readNamed (context : Context) {token : List Char → Token} {s : Source}
    (hs : isBreak s.front = false) :
    Yields (fun r => r.2.ToNextLine s) (readNamed context token s) := by
  have hname := stays_readName context hs
  rw [readNamed]
  cases hread : readName context s with
  | error e => exact Yields.error
  | ok found => exact Yields.ok (.inl (hname.of_eq hread))

theorem text?_readTag (inFlow : Bool) (s : Source) :
    Yields (fun r => r.1.text? = none) (readTag inFlow s) := by
  have hverbatim (start : Mark) (s : Source) :
      Yields (fun r => r.1.text? = none) (readVerbatimTag start s) := by
    refine Yields.after fun (suffix, rest) => ?_
    dsimp only
    exact Yields.ite (fun _ => yields_failAt) fun _ => Yields.ok rfl
  have hshort (start : Mark) (s : Source) :
      Yields (fun r => r.1.text? = none) (readShortTag start s) := by
    refine Yields.after fun (handle, rest) => ?_
    dsimp only
    refine Yields.ite (fun _ => Yields.after fun _ => Yields.ok rfl) fun _ =>
      Yields.after fun (suffix, rest) => Yields.ok ?_
    dsimp only
    split <;> rfl
  have hend {mark : Mark} (r : Token × Source) (hr : r.1.text? = none) :
      Yields (fun r => r.1.text? = none)
        (if isGap r.2.front || (inFlow && r.2.front == ',') then .ok r
          else failAt .tag mark r.2.mark .missingTagGap) :=
    Yields.ite (fun _ => Yields.ok hr) fun _ => yields_failAt
  unfold readTag
  dsimp only
  split
  · exact Yields.bind (hverbatim _ _) hend
  · exact Yields.bind (hshort _ _) hend

theorem text?_readDirective (s : Source) :
    Yields (fun r => r.1.text? = none) (readDirective s) := by
  have hversion (start : Mark) (s : Source) :
      Yields (fun r => r.1.text? = none) (readVersion start s) := by
    refine Yields.after fun (major, rest) => ?_
    dsimp only
    exact Yields.ite (fun _ => yields_failAt) fun _ => Yields.after fun _ => Yields.ok rfl
  have hhandle (start : Mark) (s : Source) :
      Yields (fun r => r.1.text? = none) (readHandleDirective start s) := by
    refine Yields.after fun (handle, rest) => ?_
    dsimp only
    refine Yields.ite (fun _ => yields_failAt) fun _ => Yields.after fun (lead, rest) => ?_
    dsimp only
    exact Yields.ite (fun _ => yields_failAt) fun _ => Yields.ok rfl
  have hend {mark : Mark} (r : Token × Source) (hr : r.1.text? = none) :
      Yields (fun r => r.1.text? = none)
        (if isBreak r.2.skipComment.front then .ok (r.1, r.2.skipComment.behind)
          else if isFinish r.2.skipComment.front then .ok (r.1, r.2.skipComment)
          else failAt .directive mark r.2.skipComment.mark .missingLineEnd) :=
    Yields.ite (fun _ => Yields.ok hr) fun _ =>
      Yields.ite (fun _ => Yields.ok hr) fun _ => yields_failAt
  unfold readDirective
  dsimp only
  refine Yields.ite (fun _ => yields_failAt) fun _ =>
    Yields.ite (fun _ => yields_failAt) fun _ => ?_
  refine Yields.ite (fun _ => Yields.bind (hversion _ _) hend) fun _ => ?_
  exact Yields.ite (fun _ => Yields.bind (hhandle _ _) hend) fun _ => yields_failAt

/-- What a step does at the token in front. -/
theorem lexes_dispatch (s : Scan) : Yields (Lexes s) s.dispatch := by
  have hbreak {c : Char} (h : s.source.front == c) (hc : isBreak c = false) :
      isBreak s.source.front = false := eq_of_beq h ▸ hc
  have hflow {c : Char} (h : s.source.front == c) (hc : isFlowIndicator c) :
      isFlowIndicator s.source.front := eq_of_beq h ▸ hc
  have hnamed {context : Context} {token : List Char → Token}
      (htoken : ∀ name, (token name).text? = none) (hs : isBreak s.source.front = false) :=
    lexes_atNode ((text?_readNamed htoken s.source).and
      (toNextLine_readNamed context hs))
  have htag (hs : isBreak s.source.front = false) : Yields
      (fun r => r.1.text? = none ∧ r.2.ToNextLine s.source) (readTag s.inFlow s.source) :=
    (text?_readTag s.inFlow s.source).and (Yields.mono (stays_readTag s.inFlow hs) fun _ => .inl)
  have hdirective (hs : isBreak s.source.front = false) :=
    (text?_readDirective s.source).and (endsLine_readDirective hs)
  have hmark (h : s.source.isDocumentMark) : Yields
      (fun r => r.1.text? = none ∧ r.2.ToNextLine s.source) (.ok
        (if s.source.front == '-' then .documentStart else .documentEnd, s.source.drop 3) :
          Except SyntaxError (Token × Source)) := by
    refine Yields.ok ⟨?_, toNextLine_documentMark h⟩
    dsimp only
    split <;> rfl
  have hand {p q : Bool} (h : (p && q) = true) : p = true ∧ q = true := by simpa using h
  unfold dispatch
  dsimp only
  refine Yields.ite lexes_atFinish fun _ => ?_
  refine Yields.ite (fun h => lexes_atDocument (hdirective (hbreak (hand h).2 rfl))) fun _ => ?_
  refine Yields.ite (fun h => lexes_atDocument (hmark h)) fun _ => ?_
  refine Yields.ite (fun h => lexes_atFlowStart rfl (hflow h rfl) (hbreak h rfl)) fun _ => ?_
  refine Yields.ite (fun h => lexes_atFlowStart rfl (hflow h rfl) (hbreak h rfl)) fun _ => ?_
  refine Yields.ite (fun h => lexes_atFlowEnd rfl (hflow h rfl) (hbreak h rfl)) fun _ => ?_
  refine Yields.ite (fun h => lexes_atFlowEnd rfl (hflow h rfl) (hbreak h rfl)) fun _ => ?_
  refine Yields.ite (fun h => lexes_atFlowEntry (hbreak h rfl)) fun _ => ?_
  refine Yields.ite (fun h => lexes_atBlockEntry (hbreak (hand h).1 rfl)) fun _ => ?_
  refine Yields.ite (fun h => lexes_atKey (hbreak (hand h).1 rfl)) fun _ => ?_
  refine Yields.ite (fun h => lexes_atValue (hbreak (hand h).1 rfl)) fun _ => ?_
  refine Yields.ite (fun h => hnamed (fun _ => rfl) (hbreak h rfl)) fun _ => ?_
  refine Yields.ite (fun h => hnamed (fun _ => rfl) (hbreak h rfl)) fun _ => ?_
  refine Yields.ite (fun h => lexes_atNode (htag (hbreak h rfl))) fun _ => ?_
  refine Yields.ite (fun _ => lexes_atBlockScalar .literal s) fun _ => ?_
  refine Yields.ite (fun _ => lexes_atBlockScalar .folded s) fun _ => ?_
  refine Yields.ite (fun h => lexes_atQuoted (eq_of_beq h)) fun _ => ?_
  refine Yields.ite (fun h => lexes_atQuoted (eq_of_beq h)) fun _ => ?_
  exact Yields.ite (fun _ => lexes_atPlainScalar s) fun _ => yields_failAt

theorem skip_suffix (inFlow inComment keyAllowed : Bool) (source : Source) :
    (skip inFlow inComment keyAllowed source).2 <:+ source := by
  induction source generalizing inComment keyAllowed with
  | nil => exact List.suffix_refl _
  | cons g rest ih =>
    have hrest (inComment keyAllowed : Bool) :
        (skip inFlow inComment keyAllowed rest).2 <:+ g :: rest :=
      (ih inComment keyAllowed).trans (List.suffix_cons g rest)
    rw [skip]
    split
    · exact hrest _ _
    · split
      · exact List.suffix_refl _
      · split
        · exact hrest _ _
        · split
          · exact hrest _ _
          · exact List.suffix_refl _

/-- A step passes what stands between tokens, takes the next one, and gives up candidates that are
too late for a colon. -/
structure Advances (s t : Scan) : Prop where
  lexes : ∃ u v, skip s.inFlow false s.keyAllowed s.source = (u.keyAllowed, u.source) ∧
    texts u.tokens = texts s.tokens ∧ (s.outer = [] → u.outer = []) ∧
    (∀ c ∈ u.candidate, c ∈ s.candidate) ∧ Lexes u v ∧ Expires v t

theorem advances_step (s : Scan) : Yields (Advances s) s.step := by
  obtain ⟨⟨keyAllowed, source⟩, hskip⟩ :
      ∃ r, skip s.inFlow false s.keyAllowed s.source = r := ⟨_, rfl⟩
  rw [step, hskip]
  refine Yields.bind (expires_expire _) fun u hu => Yields.bind (lexes_dispatch _) fun v hv => ?_
  have hkeeps := keeps_closeBlocks (u.source.column < ·) u
  refine Yields.mono (expires_expire v) fun t ht => ⟨u, v, ?_, ?_, hu.outer, ?_, ?_, ht⟩
  · rw [hskip, hu.keyAllowed, hu.source]
  · rw [hu.tokens]
  · exact fun c hc => (hu.candidate c hc).1
  · exact hkeeps.lexes hv

end Scan

/-- What may be read of a text up to some rest of it: the texts weigh no more than what is gone, and
where there are no separators only quoted scalars have any, which weigh less by their quotes. -/
structure Accounts (source : Source) (new : List (List Char)) (rest : Source) : Prop where
  weight : total (total charWeight) new + rest.total charWeight ≤ source.total charWeight
  separators : (∀ g ∈ source, isSeparator g.char = false) →
    ∀ g ∈ rest, isSeparator g.char = false
  quoted : (∀ g ∈ source, isSeparator g.char = false) → ∀ x ∈ new, ∀ c ∈ x, isSeparator c →
    total charWeight x + 2 ≤ source.total charWeight

namespace Accounts

variable {source mid rest : Source} {new new' : List (List Char)}

theorem of_suffix (h : rest <:+ source) : Accounts source [] rest where
  weight := by simpa using Source.total_of_suffix h
  separators hs g hg := hs g (h.mem hg)
  quoted _ _ hx := absurd hx (by simp)

theorem trans (h : Accounts source new mid) (h' : Accounts mid new' rest) :
    Accounts source (new' ++ new) rest where
  weight := by
    have hfirst := h.weight
    have hsecond := h'.weight
    rw [total_append]
    omega
  separators hs := h'.separators (h.separators hs)
  quoted hs x hx c hc hsep := by
    have hw := h.weight
    rcases List.mem_append.1 hx with hx | hx
    · have := h'.quoted (h.separators hs) x hx c hc hsep
      omega
    · exact h.quoted hs x hx c hc hsep

/-- There is weight for texts that are different. -/
theorem total_le (h : Accounts source new rest) {xs : List (List Char)} (hxs : xs.Nodup)
    (hnew : ∀ x ∈ xs, x ∈ new) :
    total (total charWeight) xs + rest.total charWeight ≤ source.total charWeight := by
  obtain ⟨ys, hperm, hsublist⟩ := hxs.subperm hnew
  have hle : total (total charWeight) xs ≤ total (total charWeight) new :=
    total_of_perm (w := total charWeight) hperm ▸ total_of_sublist hsublist
  exact Nat.le_trans (Nat.add_le_add_right hle _) h.weight

end Accounts

namespace Scan

variable {s t : Scan}

/-- A scalar without quotes has no separators but those of the text. -/
theorem accounts_unquoted {text : List Char} {source rest : Source}
    (h : ∀ w : Char → Nat, w ' ' = 0 → total w text + rest.total w ≤ source.total w) :
    Accounts source [text] rest := by
  have hseparators (hs : ∀ g ∈ source, isSeparator g.char = false) :
      (∀ c ∈ text, isSeparator c = false) ∧ ∀ g ∈ rest, isSeparator g.char = false := by
    have hcount := h separatorWeight rfl
    have hnone : source.total separatorWeight = 0 :=
      total_separatorWeight.2 (by simpa using hs)
    have hrest : rest.total separatorWeight = 0 := by omega
    exact ⟨total_separatorWeight.1 (by omega), by simpa using total_separatorWeight.1 hrest⟩
  refine ⟨by simpa using h charWeight rfl, fun hs => (hseparators hs).2, ?_⟩
  simp only [List.mem_singleton, forall_eq]
  intro hs c hc hsep
  rw [(hseparators hs).1 c hc] at hsep
  contradiction

theorem accounts_of_reads (h : Reads s t) :
    ∃ new, texts t.tokens = new ++ texts s.tokens ∧ Accounts s.source new t.source := by
  cases h with
  | finish _ htexts hsource => exact ⟨[], htexts, hsource ▸ .of_suffix List.nil_suffix⟩
  | sign htexts hsource => exact ⟨[], htexts, .of_suffix hsource.suffix⟩
  | plain hread htexts =>
    refine ⟨[_], htexts, accounts_unquoted fun w hspace => ?_⟩
    simpa [PlainScalar.gapChars] using (PlainScalar.takes_scan hspace _ none [] _).of_eq hread
  | block hread htexts =>
    refine ⟨[_], htexts, accounts_unquoted fun w hspace => ?_⟩
    simpa using (BlockScalar.takes_read hspace _ _ _).of_eq hread
  | @quoted quote text hfront hread htexts =>
    have hweight := (QuotedScalar.takes_scan quote s.source.mark .word [] _).of_eq hread
    have hsource : s.source.total charWeight = 1 + s.source.behind.total charWeight := by
      cases hs : s.source with
      | nil =>
        rw [hs] at hfront
        cases quote <;> exact absurd hfront (by decide)
      | cons g rest =>
        rw [hs] at hfront
        rw [Source.total_cons, show g.char = quote.char from hfront,
          QuotedScalar.charWeight_quote]
        rfl
    have hcloses := ((QuotedScalar.closes_scan quote s.source.mark .word [] _).of_eq hread).2
    simp [QuotedScalar.Stage.weight] at hweight
    refine ⟨[text], htexts, ⟨by simp; omega, fun hs g hg => ?_, ?_⟩⟩
    · obtain ⟨g', -, hsuffix⟩ := hcloses.resolve_left (by simp)
      exact hs g ((s.source.behind_suffix).mem (hsuffix.mem (List.mem_cons_of_mem g' hg)))
    · simp only [List.mem_singleton, forall_eq]
      intro _ _ _ _
      omega

theorem accounts_of_step (h : s.step = .ok t) :
    ∃ new, texts t.tokens = new ++ texts s.tokens ∧ Accounts s.source new t.source := by
  obtain ⟨u, v, hskip, htexts, -, -, hlexes, hexpires⟩ := ((advances_step s).of_eq h).lexes
  obtain ⟨new, hnew, haccounts⟩ := accounts_of_reads hlexes.reads
  have hsuffix : u.source <:+ s.source := by
    have h := skip_suffix s.inFlow false s.keyAllowed s.source
    rwa [hskip] at h
  refine ⟨new, ?_, ?_⟩
  · rw [hexpires.tokens, hnew, htexts]
  · simpa [hexpires.source] using (Accounts.of_suffix hsuffix).trans haccounts

theorem mem_texts_settled {x : List Char} (h : x ∈ texts s.settled) : x ∈ texts s.tokens := by
  obtain ⟨l, hl, hx⟩ := List.mem_filterMap.1 h
  exact List.mem_filterMap.2 ⟨l, List.mem_reverse.1 (List.mem_of_mem_take hl), hx⟩

/-- The texts of a run are those so far and others that are accounted for. By induction on the
steps. -/
theorem exists_accounts (n : Nat) (s : Scan) :
    ∃ new rest, Accounts s.source new rest ∧
      ∀ x ∈ texts (run n s).1, x ∈ new ∨ x ∈ texts s.tokens := by
  induction n generalizing s with
  | zero => exact ⟨[], _, .of_suffix (List.suffix_refl _), fun x hx => .inr (mem_texts_settled hx)⟩
  | succ n ih =>
    rw [run]
    split
    · exact ⟨[], _, .of_suffix (List.suffix_refl _), fun x hx => .inr (mem_texts_settled hx)⟩
    · next t ht =>
      obtain ⟨new, hnew, haccounts⟩ := accounts_of_step ht
      split
      · refine ⟨new, _, haccounts, fun x hx => List.mem_append.1 (hnew ▸ ?_)⟩
        obtain ⟨l, hl, hx⟩ := List.mem_filterMap.1 hx
        exact List.mem_filterMap.2 ⟨l, List.mem_reverse.1 hl, hx⟩
      · obtain ⟨new', rest, haccounts', hrun⟩ := ih t
        refine ⟨new' ++ new, rest, haccounts.trans haccounts', fun x hx => ?_⟩
        rcases hrun x hx with hx | hx
        · exact .inl (List.mem_append_left _ hx)
        · rw [hnew, List.mem_append] at hx
          exact hx.imp_left (List.mem_append_right _)

/-- One of the texts is not among those of some tokens. -/
def Lacks (xs : List (List Char)) (lexemes : List Lexeme) : Prop := ∃ x ∈ xs, x ∉ texts lexemes

@[simp] theorem lacks_singleton {x : List Char} {lexemes : List Lexeme} :
    Lacks [x] lexemes ↔ x ∉ texts lexemes := by
  simp [Lacks]

/-- One of the texts is not read, however far is read. -/
structure Avoids (xs : List (List Char)) (s : Scan) : Prop where
  tokens : Lacks xs s.tokens
  run : ∀ n, Lacks xs (run n s).1

variable {xs : List (List Char)}

theorem Lacks.settled (h : Lacks xs s.tokens) : Lacks xs s.settled := by
  obtain ⟨x, hx, htexts⟩ := h
  exact ⟨x, hx, fun hmem => htexts (mem_texts_settled hmem)⟩

/-- What holds of the states of a run and keeps a text out of the tokens keeps it out to the end. By
induction on the steps; an error ends reading. -/
theorem avoids_of_invariant {I : Scan → Prop} (htokens : ∀ s, I s → Lacks xs s.tokens)
    (hstep : ∀ s, I s → Avoids xs s ∨ Yields (fun t => I t ∨ Avoids xs t) s.step) (hs : I s) :
    Avoids xs s := by
  refine ⟨htokens s hs, fun n => ?_⟩
  induction n generalizing s with
  | zero => exact (htokens s hs).settled
  | succ n ih =>
    rcases hstep s hs with havoids | hnext
    · exact havoids.run _
    · rw [Scan.run]
      split
      · exact (htokens s hs).settled
      · next t ht =>
        have hlacks : Lacks xs t.tokens := (hnext.of_eq ht).elim (htokens t) Avoids.tokens
        split
        · obtain ⟨x, hx, htexts⟩ := hlacks
          refine ⟨x, hx, fun hmem => htexts ?_⟩
          obtain ⟨l, hl, htext⟩ := List.mem_filterMap.1 hmem
          exact List.mem_filterMap.2 ⟨l, List.mem_reverse.1 hl, htext⟩
        · exact (hnext.of_eq ht).elim (fun ht => ih ht) fun havoids => havoids.run n

/-- Reading goes on behind a step. -/
theorem avoids_of_step (hx : Lacks xs s.tokens) (h : Yields (Avoids xs) s.step) : Avoids xs s := by
  refine avoids_of_invariant (I := fun t => t = s) ?_ ?_ rfl
  · rintro t rfl
    exact hx
  · rintro t rfl
    exact .inr (Yields.mono h fun _ => .inr)

/-- Texts that are heavier than what is left are not all read. -/
theorem avoids_of_weight (hxs : xs.Nodup) (hne : xs ≠ []) (hx : ∀ x ∈ xs, x ∉ texts s.tokens)
    (h : s.source.total charWeight < total (total charWeight) xs) : Avoids xs s where
  tokens := by
    obtain ⟨x, xs, rfl⟩ := List.exists_cons_of_ne_nil hne
    exact ⟨x, List.mem_cons_self, hx x List.mem_cons_self⟩
  run n := by
    by_contra hall
    simp only [Lacks, not_exists, not_and, not_not] at hall
    obtain ⟨new, rest, haccounts, htexts⟩ := exists_accounts n s
    have hle := haccounts.total_le hxs fun x hmem =>
      (htexts x (hall x hmem)).resolve_right (hx x hmem)
    omega

/-- Nor is a text with separators where there are none and no weight for its quotes. -/
theorem avoids_of_separators {x : List Char} (hx : x ∉ texts s.tokens)
    (hs : ∀ g ∈ s.source, isSeparator g.char = false) {c : Char} (hc : c ∈ x) (hsep : isSeparator c)
    (h : s.source.total charWeight < total charWeight x + 2) : Avoids [x] s where
  tokens := ⟨x, List.mem_singleton_self x, hx⟩
  run n := by
    refine ⟨x, List.mem_singleton_self x, fun hmem => ?_⟩
    obtain ⟨new, rest, haccounts, htexts⟩ := exists_accounts n s
    have hle := haccounts.quoted hs x ((htexts x hmem).resolve_right hx) c hc hsep
    omega

end Scan

end Planimeter.Yaml
