import Planimeter.Proofs.Yaml.Entries
import Planimeter.Proofs.Yaml.Forms
/-!
# Documents of sections

A document of sections, each a mapping of fields under a name, is read as a table of tables. Its
tokens are read field by field and section by section; the end of a section is seen only where the
next one begins, or the text ends.
-/
namespace Planimeter.Yaml

open Scan (between Reaches)

/-- An entry whose value is a scalar: how the scalar is written, and what it is read as. -/
structure Field where
  name : Name
  written : List Char
  text : List Char
  style : Style
  readsAs : ReadsAs written text style

/-- An entry whose value is a mapping of fields. -/
structure Section where
  name : Name
  first : Field
  others : List Field

namespace Field

def line (f : Field) : List Char := f.name.chars ++ ':' :: ' ' :: f.written

def tokens (f : Field) : List Token :=
  [.key, .scalar f.name.chars .plain, .value, .scalar f.text f.style]

def entry (f : Field) : Entry := ⟨f.name, [.scalar {} f.text f.style], untagged f.text f.style⟩

end Field

/-- The lines of fields. -/
def indented (fields : List Field) : List Char :=
  fields.flatMap fun f => List.replicate 2 ' ' ++ f.line

namespace Section

def fields (s : Section) : List Field := s.first :: s.others

def lines (s : Section) : List Char := s.name.chars ++ ':' :: '\n' :: indented s.fields

/-- The tokens of a section without its end. -/
def tokens (s : Section) : List Token :=
  [.key, .scalar s.name.chars .plain, .value, .blockMappingStart] ++ s.fields.flatMap Field.tokens

/-- The number of steps in which they are read. -/
def steps (s : Section) : Nat := 2 + 3 * s.fields.length

def entry (s : Section) : Entry := .mapping s.name (s.fields.map Field.entry)

/-- A section takes no more steps than it has characters. -/
theorem steps_le (s : Section) : s.steps ≤ s.lines.length := by
  have hfields : 3 * s.fields.length ≤ (indented s.fields).length := by
    induction s.fields with
    | nil => simp
    | cons f fields ih =>
      simp [indented, Field.line] at ih ⊢
      omega
  simp only [steps, lines, List.length_append, List.length_cons]
  omega

/-- The number of steps for some sections. -/
def allSteps : List Section → Nat
  | [] => 0
  | s :: sections => s.steps + allSteps sections

theorem allSteps_le (sections : List Section) :
    allSteps sections ≤ (sections.flatMap lines).length := by
  induction sections with
  | nil => exact Nat.le_refl 0
  | cons s sections ih =>
    have hs := s.steps_le
    simp only [allSteps, List.flatMap_cons, List.length_append]
    omega

end Section

theorem Field.goesOn_line (f : Field) (rest : List Char) : GoesOn (f.line ++ rest) := by
  rw [line, List.append_assoc]
  exact f.name.goesOn_append _

/-- The character may stand in a document, and stands for itself where that is laid out. -/
structure IsWritable (c : Char) : Prop where
  isLaid : IsLaid c
  isForbidden : isForbidden c = false

theorem isWritable_lineFeed : IsWritable '\n' := ⟨.inl rfl, by decide⟩

theorem IsLaid.isWritable {c : Char} (h : IsLaid c) (hc : Write.isNoncharacter c = false) :
    IsWritable c := by
  simp only [Write.isNoncharacter, Bool.or_eq_false_iff, beq_eq_false_iff_ne] at hc
  exact ⟨h, h.isForbidden hc.1 hc.2⟩

theorem IsPrintable.isWritable {c : Char} (h : IsPrintable c) : IsWritable c :=
  (IsLaid.of_isInline h.isInline).isWritable (Write.isNoncharacter_eq_false h)

theorem Name.isWritable (n : Name) : ∀ c ∈ n.chars, IsWritable c :=
  fun c hc => (isPrintable_of_isName (n.isName c hc)).isWritable

theorem Field.isWritable_line {f : Field} (h : ∀ c ∈ f.written, IsWritable c) :
    ∀ c ∈ f.line, IsWritable c := by
  have hmarks : ∀ c ∈ [':', ' '], IsPrintable c := isPrintable_of_all (by decide)
  intro c hc
  rcases List.mem_append.1 hc with hc | hc
  · exact f.name.isWritable c hc
  · rcases List.mem_append.1 (show c ∈ [':', ' '] ++ f.written from hc) with hc | hc
    · exact (hmarks c hc).isWritable
    · exact h c hc

theorem Section.isWritable_lines {s : Section} (h : ∀ f ∈ s.fields, ∀ c ∈ f.written, IsWritable c) :
    ∀ c ∈ s.lines, IsWritable c := by
  have hmarks : ∀ c ∈ [':', ' '], IsPrintable c := isPrintable_of_all (by decide)
  intro c hc
  simp only [lines, indented, List.mem_append, List.mem_cons, List.mem_flatMap] at hc
  rcases hc with hc | rfl | rfl | ⟨f, hf, hc | hc⟩
  · exact s.name.isWritable c hc
  · exact (hmarks ':' (by decide)).isWritable
  · exact isWritable_lineFeed
  · rw [List.eq_of_mem_replicate hc]
    exact (hmarks ' ' (by decide)).isWritable
  · exact Field.isWritable_line (h f hf) c hc

theorem goesOn_flatMap (sections : List Section) : GoesOn (sections.flatMap Section.lines) := by
  cases sections with
  | nil => exact fun c hc => absurd hc (by simp)
  | cons s sections =>
    rw [List.flatMap_cons, Section.lines, List.append_assoc]
    exact s.name.goesOn_append _

/-- Some tokens, at whatever places, were read after others. -/
def Follow (new : List Token) (tokens tokens' : List Lexeme) : Prop :=
  ∃ lexemes : List Lexeme, lexemes.map Lexeme.token = new ∧ tokens' = lexemes.reverse ++ tokens

theorem Follow.trans {new new' : List Token} {tokens tokens' tokens'' : List Lexeme}
    (h : Follow new tokens tokens') (h' : Follow new' tokens' tokens'') :
    Follow (new ++ new') tokens tokens'' := by
  obtain ⟨lexemes, rfl, rfl⟩ := h
  obtain ⟨lexemes', rfl, rfl⟩ := h'
  exact ⟨lexemes ++ lexemes', by simp, by simp⟩

namespace Scan

variable {m : Mark} {columns closed : List Nat} {rest : List Char}

/-- A field is read up to the next entry. The first of a section begins a mapping. -/
theorem reaches_field (f : Field) (hcolumn : m.column = 2)
    (hcolumns : columns = [0] ∨ columns = [2, 0]) {indent : Nat} (hindent : indent ≤ 2)
    (hrest : GoesOn rest) (tokens : List Lexeme) :
    ∃ m' tokens', m'.column = indent ∧
      Follow ((if columns = [0] then [.blockMappingStart] else []) ++ f.tokens) tokens tokens' ∧
      Reaches 3
        (between (Source.place m (f.line ++ (List.replicate indent ' ' ++ rest))) tokens columns
          true)
        (between (Source.place m' rest) tokens' [2, 0] true) := by
  have hclosed : ∀ n ∈ ([] : List Nat), m.column < n := List.forall_mem_nil _
  have hheads : ∀ n ∈ columns.head?, n ≤ m.column := by
    rcases hcolumns with rfl | rfl <;> simp [hcolumn]
  have hkey := reaches_key f.name.goesOn f.name.ne_nil f.name.isName f.name.length_le hclosed hheads
    (.inl rfl) tokens (f.written ++ (List.replicate indent ' ' ++ rest))
  have hinside : (if columns.head? ≠ some m.column then m.column :: columns else columns) =
      [2, 0] := by
    rcases hcolumns with rfl | rfl <;> simp [hcolumn]
  have hlonger : 0 < f.name.chars.length := List.length_pos_iff.2 f.name.ne_nil
  rw [hinside] at hkey
  obtain ⟨m', v, source, keyAllowed, hm', hstep, hskip⟩ := f.readsAs
    ((m.after f.name.chars).next ':') _ [0] indent rest (by simp; omega) hindent hrest
  rw [Field.line, List.append_assoc, List.cons_append, List.cons_append]
  refine ⟨m', _, hm', ?_, hkey.trans (reaches_value hstep hskip hrest)⟩
  rcases hcolumns with rfl | rfl
  · exact ⟨[⟨_, m⟩, ⟨_, m⟩, ⟨_, m⟩, ⟨_, m.after f.name.chars⟩, ⟨_, v⟩], rfl, by simp [hcolumn]⟩
  · exact ⟨[⟨_, m⟩, ⟨_, m⟩, ⟨_, m.after f.name.chars⟩, ⟨_, v⟩], rfl, by simp [hcolumn]⟩

/-- By induction on the fields behind the first. -/
theorem reaches_fields (fields : List Field) (f : Field) (hcolumn : m.column = 2)
    (hcolumns : columns = [0] ∨ columns = [2, 0]) (hrest : GoesOn rest) (tokens : List Lexeme) :
    ∃ m' tokens', m'.column = 0 ∧
      Follow ((if columns = [0] then [.blockMappingStart] else []) ++
        (f :: fields).flatMap Field.tokens) tokens tokens' ∧
      Reaches (3 * (f :: fields).length)
        (between (Source.place m (f.line ++ (indented fields ++ rest))) tokens columns true)
        (between (Source.place m' rest) tokens' [2, 0] true) := by
  induction fields generalizing f m tokens columns with
  | nil =>
    obtain ⟨m', tokens', hm', hfollow, hreaches⟩ :=
      reaches_field f hcolumn hcolumns (Nat.zero_le 2) hrest tokens
    exact ⟨m', tokens', hm', by simpa using hfollow, hreaches⟩
  | cons g fields ih =>
    obtain ⟨m', tokens', hm', hfollow, hreaches⟩ := reaches_field f hcolumn hcolumns (Nat.le_refl 2)
      (g.goesOn_line (indented fields ++ rest)) tokens
    obtain ⟨m'', tokens'', hm'', hfollow', hreaches'⟩ := ih g hm' (.inr rfl) tokens'
    refine ⟨m'', tokens'', hm'', by simpa using hfollow.trans hfollow', ?_⟩
    have hsteps : 3 * (f :: g :: fields).length = 3 + 3 * (g :: fields).length := by
      simp
      omega
    rw [hsteps, indented, List.flatMap_cons, List.append_assoc, List.append_assoc]
    exact hreaches.trans hreaches'

theorem Reaches.of_line {n indent : Nat} {tokens : List Lexeme} {keyAllowed : Bool} {t : Scan}
    (h : Reaches n (between (Source.place (m.below indent) rest) tokens columns true) t)
    (hrest : GoesOn rest) :
    Reaches n (between (Source.place m ('\n' :: (List.replicate indent ' ' ++ rest))) tokens columns
      keyAllowed) t := by
  rw [← Nat.zero_add n]
  exact (reaches_skip (skip_line hrest indent) (skip_goesOn hrest)).trans h

/-- A section is read up to the next one. It ends the section before it. -/
theorem reaches_section (s : Section) (hcolumn : m.column = 0)
    (hcolumns : closed = [] ∧ columns = [] ∨ closed = [2] ∧ columns = [0]) (hrest : GoesOn rest)
    (tokens : List Lexeme) :
    ∃ m' tokens', m'.column = 0 ∧
      Follow (List.replicate closed.length .blockEnd ++
        (if columns = [] then [.blockMappingStart] else []) ++ s.tokens) tokens tokens' ∧
      Reaches s.steps (between (Source.place m (s.lines ++ rest)) tokens (closed ++ columns) true)
        (between (Source.place m' rest) tokens' [2, 0] true) := by
  have hclosed : ∀ n ∈ closed, m.column < n := by
    rcases hcolumns with ⟨rfl, rfl⟩ | ⟨rfl, rfl⟩ <;> simp [hcolumn]
  have hheads : ∀ n ∈ columns.head?, n ≤ m.column := by
    rcases hcolumns with ⟨rfl, rfl⟩ | ⟨rfl, rfl⟩ <;> simp [hcolumn]
  have hkey := reaches_key s.name.goesOn s.name.ne_nil s.name.isName s.name.length_le hclosed hheads
    (.inr rfl) tokens (List.replicate 2 ' ' ++ (s.first.line ++ (indented s.others ++ rest)))
  have hinside : (if columns.head? ≠ some m.column then m.column :: columns else columns) =
      [0] := by
    rcases hcolumns with ⟨rfl, rfl⟩ | ⟨rfl, rfl⟩ <;> simp [hcolumn]
  rw [hinside] at hkey
  have hbegun : Follow (List.replicate closed.length .blockEnd ++
      (if columns = [] then [.blockMappingStart] else []) ++
        [.key, .scalar s.name.chars .plain, .value]) tokens
      (⟨.value, m.after s.name.chars⟩ :: ⟨.scalar s.name.chars .plain, m⟩ :: ⟨.key, m⟩ ::
        ((if columns.head? ≠ some m.column then [⟨.blockMappingStart, m⟩] else []) ++
          (List.replicate closed.length ⟨.blockEnd, m⟩ ++ tokens))) := by
    rcases hcolumns with ⟨rfl, rfl⟩ | ⟨rfl, rfl⟩
    · exact ⟨[⟨_, m⟩, ⟨_, m⟩, ⟨_, m⟩, ⟨_, m.after s.name.chars⟩], rfl, by simp⟩
    · exact ⟨[⟨_, m⟩, ⟨_, m⟩, ⟨_, m⟩, ⟨_, m.after s.name.chars⟩], rfl, by simp [hcolumn]⟩
  have hnext := s.first.goesOn_line (indented s.others ++ rest)
  obtain ⟨m', tokens', hm', hfollow, hreaches⟩ := reaches_fields s.others s.first
    (Mark.below_column ((m.after s.name.chars).next ':') 2) (.inl rfl) hrest _
  have hlines : s.lines ++ rest = s.name.chars ++ ':' :: '\n' ::
      (List.replicate 2 ' ' ++ (s.first.line ++ (indented s.others ++ rest))) := by
    simp [Section.lines, Section.fields, indented]
  rw [hlines]
  exact ⟨m', tokens', hm', by simpa [Section.tokens, Section.fields] using hbegun.trans hfollow,
    hkey.trans (hreaches.of_line hnext)⟩

/-- By induction on the sections behind the first. -/
theorem reaches_sections (sections : List Section) (hcolumn : m.column = 0)
    (tokens : List Lexeme) :
    ∃ m' tokens', m'.column = 0 ∧
      Follow (sections.flatMap fun s => .blockEnd :: s.tokens) tokens tokens' ∧
      Reaches (Section.allSteps sections)
        (between (Source.place m (sections.flatMap Section.lines)) tokens [2, 0] true)
        (between (Source.place m' []) tokens' [2, 0] true) := by
  induction sections generalizing m tokens with
  | nil =>
    refine ⟨m, tokens, hcolumn, ⟨[], rfl, rfl⟩, fun steps => ?_⟩
    rw [Section.allSteps, Nat.zero_add]
    rfl
  | cons s sections ih =>
    obtain ⟨m', tokens', hm', hfollow, hreaches⟩ := reaches_section s hcolumn
      (.inr ⟨rfl, rfl⟩) (goesOn_flatMap sections) tokens
    obtain ⟨m'', tokens'', hm'', hfollow', hreaches'⟩ := ih hm' tokens'
    exact ⟨m'', tokens'', hm'', by simpa using hfollow.trans hfollow', hreaches.trans hreaches'⟩

end Scan

/-- What stands in front of each part stands behind each, but for the first and the last. -/
theorem flatMap_rotate {α β : Type} (f : α → List β) (b : β) (xs : List α) :
    (xs.flatMap fun x => b :: f x) ++ [b] = b :: xs.flatMap fun x => f x ++ [b] := by
  induction xs with
  | nil => rfl
  | cons x xs ih => simp [ih]

theorem Source.length_place {cs : List Char} (h : ∀ c ∈ cs, IsWritable c) (m : Mark) :
    (place m cs).length = cs.length + 1 := by
  induction cs generalizing m with
  | nil => rfl
  | cons c cs ih =>
    have hrest := ih fun d hd => h d (List.mem_cons_of_mem c hd)
    rw [place_laid (h c List.mem_cons_self).isLaid, List.length_cons, hrest, List.length_cons]

/-- The tokens of a document of sections. -/
theorem tokens_sections (s : Section) (sections : List Section)
    (hchars : ∀ c ∈ (s :: sections).flatMap Section.lines, IsWritable c) :
    ∃ lexemes : List Lexeme,
      lexemes.map Lexeme.token = .blockMappingStart ::
        ((s :: sections).flatMap fun s => s.tokens ++ [.blockEnd]) ++ [.blockEnd, .finish] ∧
      tokens (.ofText ((s :: sections).flatMap Section.lines)) = (lexemes, none) := by
  obtain ⟨m, tokens, hm, hfollow, hreaches⟩ := Scan.reaches_section s (m := .zero) rfl
    (.inl ⟨rfl, rfl⟩) (goesOn_flatMap sections) []
  obtain ⟨m', tokens', hm', hfollow', hreaches'⟩ := Scan.reaches_sections sections hm tokens
  obtain ⟨lexemes, hlexemes, rfl⟩ := hfollow.trans hfollow'
  obtain ⟨steps, hsteps⟩ := Nat.exists_eq_add_of_le (Section.allSteps_le (s :: sections))
  refine ⟨lexemes ++ [⟨.blockEnd, m'⟩, ⟨.blockEnd, m'⟩, ⟨.finish, m'⟩], ?_, ?_⟩
  · have hrotate := flatMap_rotate Section.tokens .blockEnd sections
    have hends : [Token.blockEnd, .blockEnd, .finish] = [.blockEnd] ++ [.blockEnd, .finish] := rfl
    simp only [List.map_append, hlexemes, List.map_cons, List.map_nil, List.flatMap_cons]
    rw [List.append_assoc, hends, ← List.append_assoc _ [Token.blockEnd], hrotate]
    simp
  · have hpositive : ∀ n ∈ [2], 0 < n := by simp
    rw [Yaml.tokens, Source.ofText, Source.length_place hchars, hsteps]
    refine ((hreaches.trans hreaches') steps).trans ((Scan.run_end hm' hpositive steps).trans ?_)
    simp

theorem entries_section (s : Section) : Event.Entries (s.tokens ++ [.blockEnd]) s.entry.events := by
  have hfield (f : Field) : Event.Entries f.tokens f.entry.events :=
    Event.entries_scalar f.name.chars f.text f.style
  have hfields : Event.Entries (s.fields.flatMap Field.tokens)
      ((s.fields.map Field.entry).flatMap Entry.events) := by
    rw [List.flatMap_map]
    exact Event.entries_flatMap hfield s.fields
  exact Event.entries_mapping s.name.chars hfields

theorem isInner_section (s : Section) : ∀ event ∈ s.entry.node, event.IsInner := by
  refine Entry.isInner_mapping s.name ?_
  simp only [List.forall_mem_map]
  intro f _ event hevent
  obtain rfl := List.mem_singleton.1 hevent
  rfl

theorem reads_field (d : Document) (depth : Nat) (f : Field) :
    Document.Reads (d.value depth) f.entry := by
  intro placed hplaced path rest n
  simp only [Field.entry, List.map_eq_cons_iff, List.map_eq_nil_iff] at hplaced
  obtain ⟨⟨_, m⟩, _, rfl, rfl, rfl⟩ := hplaced
  cases depth <;> rfl

/-- A document of sections is read as the table of their tables. -/
theorem read_sections (s : Section) (sections : List Section)
    (hwritten : ∀ t ∈ s :: sections, ∀ f ∈ t.fields, ∀ c ∈ f.written, IsWritable c) :
    read (String.ofList ((s :: sections).flatMap Section.lines)) =
      .ok (Entry.table ((s :: sections).map Section.entry)) := by
  have hchars : ∀ c ∈ (s :: sections).flatMap Section.lines, IsWritable c := by
    intro c hc
    obtain ⟨t, ht, hc⟩ := List.mem_flatMap.1 hc
    exact Section.isWritable_lines (hwritten t ht) c hc
  obtain ⟨lexemes, hlexemes, htokens⟩ := tokens_sections s sections hchars
  have hforbidden : ∀ c ∈ (s :: sections).flatMap Section.lines, isForbidden c = false :=
    fun c hc => (hchars c hc).isForbidden
  have hentries : Event.Entries ((s :: sections).flatMap fun s => s.tokens ++ [.blockEnd])
      (((s :: sections).map Section.entry).flatMap Entry.events) := by
    rw [List.flatMap_map]
    exact Event.entries_flatMap entries_section _
  refine read_entries hentries ?_ (fun d => ?_) hlexemes hforbidden htokens
  · simp only [List.forall_mem_map]
    exact fun s _ => isInner_section s
  · simp only [List.forall_mem_map]
    intro s _
    refine Document.reads_mapping s.name ?_
    simp only [List.forall_mem_map]
    exact fun f _ => reads_field d _ f

end Planimeter.Yaml
