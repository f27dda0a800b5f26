import Planimeter.Log.Filter
import Planimeter.Proofs.Text.Digits
import Planimeter.Proofs.Text.Pieces
import Planimeter.Proofs.Text.Slices
/-!
# Directives

What a text without a span says as a directive, as a grammar. The reader finds the directive that
the grammar gives, and none if it gives none. A text with blanks in front is cut at places that are
counted without the blanks, and if one of these is inside a character the reader stops at a fault.
-/
namespace Planimeter

namespace Text

theorem isAlpha_iff {c : Char} :
    c.isAlpha ↔ 65 ≤ c.toNat ∧ c.toNat ≤ 90 ∨ 97 ≤ c.toNat ∧ c.toNat ≤ 122 := by
  change (decide (c.val ≥ 'A'.val ∧ c.val ≤ 'Z'.val) ||
    (decide (c.val ≥ 'a'.val) && decide (c.val ≤ 'z'.val))) = true ↔ _
  simp only [Bool.or_eq_true, Bool.and_eq_true, decide_eq_true_eq, ge_iff_le,
    UInt32.le_iff_toNat_le]
  rfl

theorem isDigit_iff {c : Char} : c.isDigit ↔ 48 ≤ c.toNat ∧ c.toNat ≤ 57 := by
  change (decide (c.val ≥ '0'.val) && decide (c.val ≤ '9'.val)) = true ↔ _
  simp only [Bool.and_eq_true, decide_eq_true_eq, ge_iff_le, UInt32.le_iff_toNat_le]
  rfl

theorem isAlphanum_iff {c : Char} : c.isAlphanum ↔ c.isAlpha ∨ c.isDigit := by
  change (c.isAlpha || c.isDigit) = true ↔ _
  rw [Bool.or_eq_true]

/-- A character whose lower case is a letter is a letter. -/
theorem isAlpha_of_toLower {c : Char} (h : c.toLower.isAlpha) : c.isAlpha := by
  unfold Char.toLower at h
  split at h
  · next hupper =>
    have hlow := UInt32.le_iff_toNat_le.1 hupper.1
    have hhigh := UInt32.le_iff_toNat_le.1 hupper.2
    exact isAlpha_iff.2 (.inl ⟨hlow, hhigh⟩)
  · exact h

theorem not_isDigit_of_isAlpha {c : Char} (h : c.isAlpha) : ¬c.isDigit := by
  rw [isAlpha_iff] at h
  rw [isDigit_iff]
  omega

theorem isBlank_of_isAlphanum {c : Char} (h : c.isAlphanum) : isBlank c = false := by
  rw [isAlphanum_iff, isAlpha_iff, isDigit_iff] at h
  simp only [isBlank, Bool.or_eq_false_iff, Bool.and_eq_false_iff, decide_eq_false_iff_not,
    beq_eq_false_iff_ne]
  omega

end Text

namespace Limit

variable {cs : List Char} {limit limit' : Limit}

/-- The word for a limit. -/
def word (limit : Limit) : String := limit.elim "off" fun l => Text.lower l.name

/-- The number for a limit. -/
def number (limit : Limit) : Nat := limit.elim 0 Level.rank

def withoutPlus : List Char → List Char
  | '+' :: cs => cs
  | cs => cs

/-- A text names a limit: by its word in any case, or by its number, perhaps with a plus in
front. -/
def Names (cs : List Char) (limit : Limit) : Prop :=
  Text.lower (String.ofList cs) = limit.word ∨
    Text.natural? 10 (withoutPlus cs) = some limit.number

theorem word_injective : Function.Injective word := by
  intro limit limit' h
  rcases limit with _ | _ | _ <;> rcases limit' with _ | _ | _ <;> first | rfl | contradiction

theorem number_injective : Function.Injective number := by
  intro limit limit' h
  rcases limit with _ | _ | _ <;> rcases limit' with _ | _ | _ <;> first | rfl | contradiction

theorem all_isAlpha_word (limit : Limit) : limit.word.toList.all Char.isAlpha := by
  rcases limit with _ | _ | _ <;> decide

theorem isAlpha_of_lower_eq_word (h : Text.lower (String.ofList cs) = limit.word) :
    cs ≠ [] ∧ ∀ c ∈ cs, c.isAlpha := by
  have hlower : cs.map Char.toLower = limit.word.toList := by
    rw [← h, Text.lower, String.toList_ofList, String.toList_ofList]
  refine ⟨?_, fun c hc => Text.isAlpha_of_toLower (List.all_eq_true.1 limit.all_isAlpha_word _ ?_)⟩
  · rintro rfl
    rcases limit with _ | _ | _ <;> contradiction
  · rw [← hlower]
    exact List.mem_map_of_mem hc

@[simp] theorem withoutPlus_cons {c : Char} (h : c ≠ '+') (cs : List Char) :
    withoutPlus (c :: cs) = c :: cs := by
  unfold withoutPlus
  split
  · simp_all
  · rfl

/-- A word is no number. -/
theorem natural?_of_lower_eq_word (h : Text.lower (String.ofList cs) = limit.word) :
    Text.natural? 10 (withoutPlus cs) = none := by
  obtain ⟨hne, halpha⟩ := isAlpha_of_lower_eq_word h
  obtain ⟨c, rest, rfl⟩ := List.exists_cons_of_ne_nil hne
  have hc := halpha c List.mem_cons_self
  rw [withoutPlus_cons (by rintro rfl; contradiction)]
  by_contra hsome
  obtain ⟨n, hn⟩ := Option.ne_none_iff_exists'.1 hsome
  have hdigits := (Text.digits_of_natural? hn).2
  exact Text.not_isDigit_of_isAlpha hc (Text.isDigit_of_digit? (hdigits c List.mem_cons_self))

namespace Names

/-- A name holds letters and digits, and perhaps a plus. -/
theorem mem (h : Names cs limit) : cs ≠ [] ∧ ∀ c ∈ cs, c.isAlphanum ∨ c = '+' := by
  rcases h with h | h
  · obtain ⟨hne, halpha⟩ := isAlpha_of_lower_eq_word h
    exact ⟨hne, fun c hc => .inl (Text.isAlphanum_iff.2 (.inl (halpha c hc)))⟩
  · obtain ⟨hne, hdigits⟩ := Text.digits_of_natural? h
    have halnum (c : Char) (hc : c ∈ withoutPlus cs) : c.isAlphanum :=
      Text.isAlphanum_iff.2 (.inr (Text.isDigit_of_digit? (hdigits c hc)))
    cases cs with
    | nil => exact absurd rfl hne
    | cons c cs =>
      refine ⟨List.cons_ne_nil _ _, fun c' hc' => ?_⟩
      by_cases hplus : c = '+'
      · obtain rfl := hplus
        exact (List.mem_cons.1 hc').symm.imp (halnum c') id
      · rw [withoutPlus_cons hplus] at halnum
        exact .inl (halnum c' hc')

theorem unique (h : Names cs limit) (h' : Names cs limit') : limit = limit' := by
  rcases h with h | h <;> rcases h' with h' | h'
  · exact word_injective (h.symm.trans h')
  · simp [natural?_of_lower_eq_word h] at h'
  · simp [natural?_of_lower_eq_word h'] at h
  · exact number_injective (Option.some.inj (h.symm.trans h'))

end Names

theorem names_of_ofText? (h : ofText? cs = some limit) : Names cs limit := by
  unfold ofText? at h
  dsimp only at h
  split at h
  iterate 6
    · obtain rfl := Option.some.inj h
      exact .inr ‹_›
  iterate 6
    · obtain rfl := Option.some.inj h
      exact .inl ‹_›
  · exact absurd h.symm (Option.some_ne_none _)

theorem ofText?_ne_none (h : Names cs limit) : ofText? cs ≠ none := by
  intro hnone
  unfold ofText? at hnone
  dsimp only at hnone
  split at hnone
  iterate 12 exact absurd hnone (Option.some_ne_none _)
  rename_i h0 h1 h2 h3 h4 h5 hoff herror hwarn hinfo hdebug htrace
  rcases h with h | h <;> rcases limit with _ | _ | _ | _ | _ | _
  exacts [hoff h, herror h, hwarn h, hinfo h, hdebug h, htrace h, h0 h, h1 h, h2 h, h3 h, h4 h,
    h5 h]

theorem ofText?_eq_some_iff : ofText? cs = some limit ↔ Names cs limit := by
  refine ⟨names_of_ofText?, fun h => ?_⟩
  obtain ⟨limit', hlimit'⟩ := Option.ne_none_iff_exists'.1 (ofText?_ne_none h)
  rw [hlimit', h.unique (names_of_ofText? hlimit')]

end Limit

namespace Directive

variable {piece name rest text before : List Char} {d : Directive}

/-- The text begins with a character that a directive may begin with. -/
def Begins (cs : List Char) : Prop :=
  ∃ c ∈ cs.head?, isLeadingMark c ∨ Text.isAlphanumeric c

/-- There is no equals sign and no bracket. -/
def Unmarked (cs : List Char) : Prop := ∀ c ∈ cs, ¬(c = '=' ∨ c = '[')

/-- A text says a directive: a limit, for all targets, is named; or all events with a target pass;
or a limit for a target stands behind an equals sign, where everything passes if there is none. Only
a text without an equals sign may have blanks in front, which belong to the target. -/
inductive Writes : List Char → Directive → Prop where
  | limit {piece : List Char} {limit : Limit} (hbegins : Begins piece)
      (hnames : limit.Names piece) : Writes piece { limit }
  | target {piece : List Char} (hbegins : Begins (Text.trim piece)) (hunmarked : Unmarked piece)
      (hnot : ∀ limit : Limit, ¬limit.Names piece) : Writes piece { target := some piece }
  | limited {name text : List Char} {limit : Limit} (hbegins : Begins name)
      (hfront : ∀ c ∈ name.head?, Text.isBlank c = false) (hunmarked : Unmarked name)
      (hlimit : text = [] ∧ limit = some .trace ∨ limit.Names text) :
      Writes (name ++ '=' :: text) { target := some name, limit }

/-- A bracket with no equals sign before it is closed. -/
def HasSpan (piece : List Char) : Prop :=
  ∃ name span rest, piece = name ++ '[' :: (span ++ ']' :: rest) ∧ '=' ∉ name

/-- The text in front of each place at which a directive is cut: around its target, in front of its
limit, and around the span and the field in a bracket that is not closed. -/
inductive Cuts : List Char → List Char → Prop where
  | target {name rest : List Char} {mark : Char} (hunmarked : Unmarked name)
      (hmark : mark = '=' ∨ mark = '[') : Cuts (name ++ mark :: rest) name
  | limit {name text : List Char} (hunmarked : Unmarked name) :
      Cuts (name ++ '=' :: text) (name ++ ['='])
  | span {name span rest cut : List Char} (hunmarked : Unmarked name) (hspan : '\x7b' ∉ span)
      (hcut : cut = [] ∨ cut = span) :
      Cuts (name ++ '[' :: (span ++ '\x7b' :: rest)) (name ++ '[' :: cut)
  | field {name span field rest cut : List Char} (hunmarked : Unmarked name)
      (hspan : '\x7b' ∉ span) (hfield : '\x7d' ∉ field) (hcut : cut = [] ∨ cut = field) :
      Cuts (name ++ '[' :: (span ++ '\x7b' :: (field ++ '\x7d' :: rest)))
        (name ++ '[' :: (span ++ '\x7b' :: cut))

/-- One of the places at which a directive is cut, counted without the blanks in front, is inside a
character. -/
def Splits (piece : List Char) : Prop :=
  (Begins (Text.trim piece) ∨ (Text.trim piece).head? = some '[') ∧
    ∃ before, Cuts (Text.trim piece) before ∧ ¬Text.IsBoundary (Text.byteCount before) piece

theorem begins_append (h : Begins name) (rest : List Char) : Begins (name ++ rest) := by
  obtain ⟨c, hc, hleads⟩ := h
  exact ⟨c, by rw [List.head?_append, hc]; rfl, hleads⟩

theorem Begins.exists_cons {cs : List Char} (h : Begins cs) : ∃ c cs', cs = c :: cs' ∧ c ≠ '[' ∧
    (!(isLeadingMark c || Text.isAlphanumeric c)) = false := by
  obtain ⟨c, hc, hleads⟩ := h
  cases cs with
  | nil => contradiction
  | cons c' cs =>
    obtain rfl : c' = c := by simpa using hc
    refine ⟨c', cs, rfl, ?_, ?_⟩
    · rintro rfl
      revert hleads
      decide
    · simpa only [Bool.not_eq_false', Bool.or_eq_true]

theorem not_begins_mark {mark : Char} (hmark : mark = '=' ∨ mark = '[') (cs : List Char) :
    ¬Begins (mark :: cs) := by
  rintro ⟨c, hc, hleads⟩
  obtain rfl : mark = c := by simpa using hc
  revert hleads
  rcases hmark with rfl | rfl <;> decide

theorem Unmarked.append {name' : List Char} (h : Unmarked name) (h' : Unmarked name') :
    Unmarked (name ++ name') := List.forall_mem_append.2 ⟨h, h'⟩

theorem unmarked_or (cs : List Char) :
    Unmarked cs ∨ ∃ name mark rest, cs = name ++ mark :: rest ∧ Unmarked name ∧
      (mark = '=' ∨ mark = '[') := by
  induction cs with
  | nil => exact .inl (by simp [Unmarked])
  | cons c cs ih =>
    by_cases hc : c = '=' ∨ c = '['
    · exact .inr ⟨[], c, cs, rfl, by simp [Unmarked], hc⟩
    · rcases ih with h | ⟨name, mark, rest, rfl, hname, hmark⟩
      · exact .inl (List.forall_mem_cons.2 ⟨hc, h⟩)
      · exact .inr ⟨c :: name, mark, rest, rfl, List.forall_mem_cons.2 ⟨hc, hname⟩, hmark⟩

theorem unmarked_append_cons_inj {name' rest' : List Char} {mark mark' : Char}
    (hname : Unmarked name) (hname' : Unmarked name') (hmark : mark = '=' ∨ mark = '[')
    (hmark' : mark' = '=' ∨ mark' = '[') (h : name ++ mark :: rest = name' ++ mark' :: rest') :
    name = name' ∧ mark = mark' ∧ rest = rest' := by
  induction name generalizing name' with
  | nil =>
    cases name' with
    | nil => simpa using h
    | cons c name' => exact absurd hmark ((List.cons.inj h).1 ▸ hname' c List.mem_cons_self)
  | cons c name ih =>
    cases name' with
    | nil => exact absurd hmark' ((List.cons.inj h).1 ▸ hname c List.mem_cons_self)
    | cons c' name' =>
      obtain ⟨rfl, htail⟩ := List.cons.inj h
      obtain ⟨rfl, hrest⟩ := ih (List.forall_mem_cons.1 hname).2 (List.forall_mem_cons.1 hname').2
        htail
      exact ⟨rfl, hrest⟩

theorem Cuts.prefix (h : Cuts piece before) : before <+: piece := by
  cases h with
  | target => exact List.prefix_append _ _
  | @limit name text => exact ⟨text, by simp⟩
  | @span name span rest _ _ _ hcut =>
    rcases hcut with rfl | rfl
    · exact ⟨span ++ '\x7b' :: rest, by simp⟩
    · exact ⟨'\x7b' :: rest, by simp⟩
  | @field name span field rest _ _ _ _ hcut =>
    rcases hcut with rfl | rfl
    · exact ⟨field ++ '\x7d' :: rest, by simp⟩
    · exact ⟨'\x7d' :: rest, by simp⟩

theorem cuts_limited_iff (hname : Unmarked name) :
    Cuts (name ++ '=' :: text) before ↔ before = name ∨ before = name ++ ['='] := by
  constructor
  · intro h
    generalize heq : name ++ '=' :: text = piece at h
    cases h with
    | target hunmarked hmark =>
      exact .inl (unmarked_append_cons_inj hname hunmarked (.inl rfl) hmark heq).1.symm
    | limit hunmarked =>
      rw [(unmarked_append_cons_inj hname hunmarked (.inl rfl) (.inl rfl) heq).1]
      exact .inr rfl
    | span hunmarked | field hunmarked =>
      have hmark := (unmarked_append_cons_inj hname hunmarked (.inl rfl) (.inr rfl) heq).2.1
      contradiction
  · rintro (rfl | rfl)
    · exact .target hname (.inl rfl)
    · exact .limit hname

/-- A text without blanks in front is the directive and blanks behind it. -/
theorem exists_trailing (hfront : ∀ c ∈ piece.head?, Text.isBlank c = false) :
    ∃ after, piece = Text.trim piece ++ after ∧ ∀ c ∈ after, Text.isBlank c := by
  generalize htrim : Text.trim piece = trimmed
  obtain @⟨before, _, after, hbefore, hafter, -, -⟩ := Text.trim_eq_iff.1 htrim
  cases before with
  | nil => exact ⟨after, rfl, hafter⟩
  | cons c before =>
    have hc := hbefore c List.mem_cons_self
    rw [hfront c rfl] at hc
    contradiction

/-- Without blanks in front every cut is between two characters. -/
theorem not_splits_of_front (hfront : ∀ c ∈ piece.head?, Text.isBlank c = false) :
    ¬Splits piece := by
  rintro ⟨-, before, hcut, hinside⟩
  obtain ⟨after, hpiece, -⟩ := exists_trailing hfront
  obtain ⟨rest, hrest⟩ := hcut.prefix
  rw [hpiece, ← hrest, List.append_assoc] at hinside
  exact hinside (Text.isBoundary_byteCount _ _)

theorem exists_mark_of_cuts (h : Cuts piece before) : ¬Unmarked piece := by
  intro hunmarked
  cases h with
  | target _ hmark => exact hunmarked _ (by simp) hmark
  | limit => exact hunmarked '=' (by simp) (.inl rfl)
  | span | field => exact hunmarked '[' (by simp) (.inr rfl)

theorem mem_of_mem_trim {c : Char} (h : c ∈ Text.trim piece) : c ∈ piece := by
  generalize htrim : Text.trim piece = trimmed at h
  obtain @⟨before, _, after, -, -, -, -⟩ := Text.trim_eq_iff.1 htrim
  exact List.mem_append_left _ (List.mem_append_right _ h)

theorem Unmarked.trim (h : Unmarked piece) : Unmarked (Text.trim piece) :=
  fun c hc => h c (mem_of_mem_trim hc)

theorem isBlank_of_names {limit : Limit} (h : limit.Names piece) :
    ∀ c ∈ piece, Text.isBlank c = false := by
  intro c hc
  rcases h.mem.2 c hc with halnum | rfl
  · exact Text.isBlank_of_isAlphanum halnum
  · decide

theorem unmarked_of_names {limit : Limit} (h : limit.Names piece) : Unmarked piece := by
  intro c hc hmark
  rcases h.mem.2 c hc with halnum | rfl
  · rcases hmark with rfl | rfl <;> contradiction
  · rcases hmark with hmark | hmark <;> contradiction

theorem trim_of_names {limit : Limit} (h : limit.Names piece) : Text.trim piece = piece := by
  have htrimmed : Text.Trimmed ([] ++ piece ++ []) piece := .mk (by simp) (by simp)
    (fun c hc => isBlank_of_names h c (List.mem_of_mem_head? hc))
    (fun c hc => isBlank_of_names h c (List.mem_of_getLast? hc))
  exact Text.trim_of_trimmed (by simpa using htrimmed)

theorem head?_of_begins (h : Begins name) (rest : List Char) :
    (name ++ rest).head? = name.head? := by
  obtain ⟨c, cs, rfl, -⟩ := h.exists_cons
  rfl

theorem not_splits_of_writes (h : Writes piece d) : ¬Splits piece := by
  cases h with
  | limit hbegins hnames =>
    exact not_splits_of_front fun c hc => isBlank_of_names hnames c (List.mem_of_mem_head? hc)
  | target hbegins hunmarked hnot =>
    rintro ⟨-, before, hcut, -⟩
    exact exists_mark_of_cuts hcut hunmarked.trim
  | limited hbegins hfront hunmarked hlimit =>
    exact not_splits_of_front (by rwa [head?_of_begins hbegins])

/-- Blanks behind a limit stay with it when a directive with an equals sign is trimmed. -/
theorem trim_limited (hfront : ∀ c ∈ (name ++ '=' :: text).head?, Text.isBlank c = false) :
    ∃ text' after, Text.trim (name ++ '=' :: text) = name ++ '=' :: text' ∧
      text = text' ++ after := by
  obtain ⟨after, hpiece, hafter⟩ := exists_trailing hfront
  have hnot : '=' ∉ after := fun h => absurd (hafter _ h) (by decide)
  rcases List.append_eq_append_iff.1 hpiece with ⟨_ | ⟨mark, text'⟩, htrim, htext⟩ |
    ⟨_, _, hafter⟩
  · exact absurd (by rw [← List.nil_append after, ← htext]; exact List.mem_cons_self) hnot
  · obtain ⟨rfl, rfl⟩ := List.cons.inj htext
    exact ⟨text', after, htrim, rfl⟩
  · exact absurd (by simp [hafter]) hnot

theorem not_splits_iff (hleads : Begins (Text.trim piece) ∨ (Text.trim piece).head? = some '[') :
    (∀ before, Cuts (Text.trim piece) before → Text.IsBoundary (Text.byteCount before) piece) ↔
      ¬Splits piece := by
  simp [Splits, hleads]

theorem unmarked_of_isBlank {cs : List Char} (h : ∀ c ∈ cs, Text.isBlank c) : Unmarked cs := by
  intro c hc hmark
  have hblank := h c hc
  rcases hmark with rfl | rfl <;> contradiction

theorem begins_of_append_mark {mark : Char} (hmark : mark = '=' ∨ mark = '[')
    (h : Begins (name ++ mark :: rest)) : Begins name := by
  cases name with
  | nil => exact absurd h (not_begins_mark hmark rest)
  | cons c name => exact h

/-- A text without a mark that begins as a directive is one. -/
theorem exists_writes_of_unmarked (hbegins : Begins (Text.trim piece))
    (hunmarked : Unmarked piece) : ∃ d, Writes piece d := by
  by_cases h : ∃ limit : Limit, limit.Names piece
  · obtain ⟨limit, hnames⟩ := h
    rw [trim_of_names hnames] at hbegins
    exact ⟨_, .limit hbegins hnames⟩
  · exact ⟨_, .target hbegins hunmarked (not_exists.1 h)⟩

end Directive

end Planimeter
