import Planimeter.Proofs.Log.Directives
import Planimeter.Proofs.Text.Slices
import Mathlib.Control.Basic
/-!
# Reading directives

The reader finds the directive that a text without a span says. If it says none the reader finds
none, unless one of the cuts of the text is inside a character.
-/
namespace Planimeter.Directive

open Text (IsBoundary byteCount)

variable {piece name rest text whole : List Char} {d : Directive}

section Readings

variable {α β : Type} {r : Reading α} {f : α → Reading β} {a : α} {fault : Fault} {sound : Prop}

theorem run_bind_some (h : r.run = .ok (some a)) : (r >>= f).run = (f a).run := by
  rw [OptionT.run_bind, h]
  rfl

theorem run_bind_none (h : r.run = .ok none) : (r >>= f).run = .ok none := by
  rw [OptionT.run_bind, h]
  rfl

theorem run_bind_error (h : r.run = .error fault) : (r >>= f).run = .error fault := by
  rw [OptionT.run_bind, h]
  rfl

/-- The reader finds nothing, and stops at a fault unless something holds. -/
structure FindsNone (sound : Prop) (r : Reading α) : Prop where
  none : sound → r.run = .ok none
  fault : ¬sound → ∃ fault, r.run = .error fault

theorem FindsNone.congr {sound' : Prop} (h : FindsNone sound r) (hiff : sound ↔ sound') :
    FindsNone sound' r := ⟨fun hs => h.none (hiff.2 hs), fun hs => h.fault (mt hiff.1 hs)⟩

@[simp] theorem failure_bind (f : α → Reading β) : (failure : Reading α) >>= f = failure := rfl

theorem findsNone_failure : FindsNone True (failure : Reading α) :=
  ⟨fun _ => rfl, fun h => absurd trivial h⟩

theorem FindsNone.after (h : r.run = .ok (some a)) (hf : FindsNone sound (f a)) :
    FindsNone sound (r >>= f) :=
  ⟨fun hs => (run_bind_some h).trans (hf.none hs),
    fun hs => (hf.fault hs).imp fun _ => (run_bind_some h).trans⟩

theorem FindsNone.bind (h : FindsNone sound r) (f : α → Reading β) : FindsNone sound (r >>= f) :=
  ⟨fun hs => run_bind_none (h.none hs), fun hs => (h.fault hs).imp fun _ => run_bind_error⟩

end Readings

namespace Place

variable {α : Type} {here there : Place} {whole passed rest name text : List Char}
  {position : Nat} {f : List Char → Reading α} {sound : Prop}

theorem find_append {p : Char → Bool} (hpassed : ∀ c ∈ passed, p c = false)
    (hrest : ∀ c ∈ rest.head?, p c) : find p ⟨whole, position, passed ++ rest⟩ =
      ⟨whole, position + byteCount passed, rest⟩ := by
  have hspan := Text.span_append (p := fun c => !p c) (by simpa using hpassed)
    (by simpa using hrest)
  simp [find, hspan.1]

theorem run_upTo {part : List Char}
    (h : Text.slice here.position there.position here.whole = .ok part) :
    (here.upTo there).run = .ok (some part) := by simp [upTo, h]

theorem run_toEnd {part : List Char} (h : Text.sliceFrom here.position here.whole = .ok part) :
    here.toEnd.run = .ok (some part) := by simp [toEnd, h]

/-- A slice between two places, and what is read after it. -/
theorem findsNone_upTo_bind (sound : Prop) (hle : here.position ≤ there.position)
    (hcount : there.position ≤ byteCount here.whole) (hf : ∀ part, FindsNone sound (f part)) :
    FindsNone (IsBoundary here.position here.whole ∧ IsBoundary there.position here.whole ∧ sound)
      (here.upTo there >>= f) where
  none h := by
    obtain ⟨part, hpart⟩ := (Text.slice_ok_iff hle hcount).2 ⟨h.1, h.2.1⟩
    exact ((hf part).after (run_upTo hpart)).none h.2.2
  fault h := by
    by_cases hcut : IsBoundary here.position here.whole ∧ IsBoundary there.position here.whole
    · obtain ⟨part, hpart⟩ := (Text.slice_ok_iff hle hcount).2 hcut
      exact ((hf part).after (run_upTo hpart)).fault fun hsound => h ⟨hcut.1, hcut.2, hsound⟩
    · obtain ⟨fault, hfault⟩ := Text.slice_error hle hcount hcut
      exact ⟨fault, run_bind_error (by simp [upTo, hfault])⟩

/-- The places around a field that a brace closes are boundaries. -/
def FieldSound (whole : List Char) (position : Nat) (rest : List Char) : Prop :=
  ∀ field after, rest = field ++ '\x7d' :: after → '\x7d' ∉ field →
    IsBoundary position whole ∧ IsBoundary (position + byteCount field) whole

/-- The places around a span that a brace ends, and around the field behind it, are boundaries. -/
def SpanSound (whole : List Char) (position : Nat) (rest : List Char) : Prop :=
  ∀ span after, rest = span ++ '\x7b' :: after → '\x7b' ∉ span →
    IsBoundary position whole ∧ IsBoundary (position + byteCount span) whole ∧
      FieldSound whole (position + byteCount span + 1) after

theorem find_none {p : Char → Bool} (hrest : ∀ c ∈ rest, p c = false) :
    find p ⟨whole, position, rest⟩ = ⟨whole, position + byteCount rest, []⟩ := by
  have hfind : find p ⟨whole, position, rest ++ []⟩ = ⟨whole, position + byteCount rest, []⟩ :=
    find_append hrest (by simp)
  rwa [List.append_nil] at hfind

theorem findsNone_fieldPart (d : Directive) (hcount : position + byteCount rest ≤ byteCount whole)
    (hopen : ']' ∉ rest) :
    FindsNone (FieldSound whole position rest) (fieldPart d ⟨whole, position, rest⟩) := by
  by_cases hclose : '\x7d' ∈ rest
  · obtain ⟨field, after, rfl, hfield⟩ := List.eq_append_cons_of_mem hclose
    have hfind : find (· == '\x7d') ⟨whole, position, field ++ '\x7d' :: after⟩ =
        ⟨whole, position + byteCount field, '\x7d' :: after⟩ :=
      find_append (fun c hc => by simpa using ne_of_mem_of_not_mem hc hfield) (by simp)
    have hnext : (next ⟨whole, position + byteCount field, '\x7d' :: after⟩).rest.head? ≠
        some ']' := by
      intro h
      have hmem : ']' ∈ after := List.mem_of_head? h
      simp [hmem] at hopen
    rw [Text.byteCount_append] at hcount
    unfold fieldPart
    rw [hfind]
    simp only [List.isEmpty_cons, Bool.false_eq_true, if_false, failure_bind]
    refine (findsNone_upTo_bind True (by simp) (by simp; omega) fun part => ?_).congr ?_
    · split
      · exact findsNone_failure
      · split <;> exact findsNone_failure
    · constructor
      · rintro ⟨hstart, hstop, -⟩ field' after' heq hfield'
        obtain ⟨rfl, -⟩ := Text.append_cons_inj hfield hfield' heq
        exact ⟨hstart, hstop⟩
      · intro h
        obtain ⟨hstart, hstop⟩ := h field after rfl hfield
        exact ⟨hstart, hstop, trivial⟩
  · have hfind : find (· == '\x7d') ⟨whole, position, rest⟩ =
        ⟨whole, position + byteCount rest, []⟩ :=
      find_none fun c hc => by simpa using ne_of_mem_of_not_mem hc hclose
    unfold fieldPart
    rw [hfind]
    simp only [List.isEmpty_nil, if_true, failure_bind]
    refine findsNone_failure.congr ⟨fun _ field after h => ?_, fun _ => trivial⟩
    exact absurd (by simp [h]) hclose

theorem findsNone_spanPart (d : Directive) (hcount : position + byteCount rest ≤ byteCount whole)
    (hopen : ']' ∉ rest) :
    FindsNone (SpanSound whole position rest) (spanPart d ⟨whole, position, rest⟩) := by
  have hne (c : Char) (hc : c ∈ rest) : c ≠ ']' := ne_of_mem_of_not_mem hc hopen
  by_cases hbrace : '\x7b' ∈ rest
  · obtain ⟨span, after, rfl, hspan⟩ := List.eq_append_cons_of_mem hbrace
    have hfind : find (fun c => c == ']' || c == '\x7b')
        ⟨whole, position, span ++ '\x7b' :: after⟩ =
          ⟨whole, position + byteCount span, '\x7b' :: after⟩ :=
      find_append (fun c hc => by
        simpa [hne c (List.mem_append_left _ hc)] using ne_of_mem_of_not_mem hc hspan) (by simp)
    rw [Text.byteCount_append_cons (by decide : Char.utf8Size '\x7b' = 1)] at hcount
    unfold spanPart
    rw [hfind]
    simp only [List.isEmpty_cons, Bool.false_eq_true, if_false, failure_bind]
    refine (findsNone_upTo_bind (FieldSound whole (position + byteCount span + 1) after) (by simp)
      (by simp; omega) fun part => ?_).congr ?_
    · rw [if_neg (by simp)]
      exact findsNone_fieldPart _ (by omega) fun h => hopen (by simp [h])
    · constructor
      · intro h span' after' heq hspan'
        obtain ⟨rfl, rfl⟩ := Text.append_cons_inj hspan hspan' heq
        exact h
      · exact fun h => h span after rfl hspan
  · have hfind : find (fun c => c == ']' || c == '\x7b') ⟨whole, position, rest⟩ =
        ⟨whole, position + byteCount rest, []⟩ :=
      find_none fun c hc => by simpa [hne c hc] using ne_of_mem_of_not_mem hc hbrace
    unfold spanPart
    rw [hfind]
    simp only [List.isEmpty_nil, if_true, failure_bind]
    refine findsNone_failure.congr ⟨fun _ span after h => ?_, fun _ => trivial⟩
    exact absurd (by simp [h]) hbrace

theorem directive_of_not_begins (hbegins : ¬Begins rest) (hopen : rest.head? ≠ some '[') :
    directive ⟨whole, position, rest⟩ = failure := by
  unfold directive
  split
  · rfl
  · next h =>
    obtain rfl : rest = _ := h
    simp at hopen
  · next first cs _ h =>
    obtain rfl : rest = first :: cs := h
    have hfirst : (!(isLeadingMark first || Text.isAlphanumeric first)) = true := by
      simpa [Begins] using hbegins
    rw [if_pos hfirst, failure_bind]

theorem find_unmarked (whole : List Char) (position : Nat) (hunmarked : Unmarked rest) :
    find (fun c => c == '=' || c == '[') ⟨whole, position, rest⟩ =
      ⟨whole, position + byteCount rest, []⟩ :=
  find_none fun c hc => by simpa using hunmarked c hc

theorem find_mark (whole rest : List Char) (position : Nat) {mark : Char}
    (hunmarked : Unmarked name) (hmark : mark = '=' ∨ mark = '[') :
    find (fun c => c == '=' || c == '[') ⟨whole, position, name ++ mark :: rest⟩ =
      ⟨whole, position + byteCount name, mark :: rest⟩ :=
  find_append (fun c hc => by simpa using hunmarked c hc) (by simpa using hmark)

theorem directive_limited (hbegins : Begins (name ++ '=' :: text)) (hunmarked : Unmarked name) :
    directive ⟨whole, 0, name ++ '=' :: text⟩ = (do
      let target ← upTo ⟨whole, 0, name ++ '=' :: text⟩ ⟨whole, byteCount name, '=' :: text⟩
      let limit ← limit ⟨whole, byteCount name + 1, text⟩
      return { target := some target, limit }) := by
  have hfind := find_mark whole text 0 hunmarked (.inl rfl)
  obtain ⟨c, cs, heq, hne, hleads⟩ := hbegins.exists_cons
  rw [Nat.zero_add] at hfind
  rw [heq] at hfind ⊢
  simp only [directive, hleads, hfind, Bool.false_eq_true, if_false, if_true]
  rfl

theorem directive_opened (hbegins : Begins (name ++ '[' :: rest)) (hunmarked : Unmarked name) :
    directive ⟨whole, 0, name ++ '[' :: rest⟩ = (do
      let target ← upTo ⟨whole, 0, name ++ '[' :: rest⟩ ⟨whole, byteCount name, '[' :: rest⟩
      spanPart { target := some target } ⟨whole, byteCount name + 1, rest⟩) := by
  have hfind := find_mark whole rest 0 hunmarked (.inr rfl)
  obtain ⟨c, cs, heq, hne, hleads⟩ := hbegins.exists_cons
  rw [Nat.zero_add] at hfind
  rw [heq] at hfind ⊢
  simp only [directive, hleads, hfind, Bool.false_eq_true, if_false]
  rfl

theorem directive_bare (hbegins : Begins rest) (hunmarked : Unmarked rest) :
    (directive ⟨whole, 0, rest⟩).run = .ok (some
      ((Limit.ofText? whole).elim { target := some whole } fun limit => { limit })) := by
  have hfind := find_unmarked whole 0 hunmarked
  obtain ⟨c, cs, heq, hne, hleads⟩ := hbegins.exists_cons
  rw [heq] at hfind ⊢
  have hwhole : (toEnd ⟨whole, 0, c :: cs⟩).run = .ok (some whole) :=
    run_toEnd (Text.sliceFrom_append [] whole)
  simp only [directive, hleads, hfind, Bool.false_eq_true, if_false]
  rw [run_bind_some hwhole]
  cases Limit.ofText? whole <;> rfl

end Place

theorem limitAfterEquals?_eq_some_iff {limit : Limit} :
    limitAfterEquals? text = some limit ↔
      text = [] ∧ limit = some .trace ∨ limit.Names text := by
  unfold limitAfterEquals?
  split
  · next h =>
    obtain rfl := List.isEmpty_iff.1 h
    have hnot : ¬limit.Names [] := fun h => h.mem.1 rfl
    simp [hnot, eq_comm]
  · next h =>
    have hne : text ≠ [] := fun heq => h (List.isEmpty_iff.2 heq)
    simp [hne, Limit.ofText?_eq_some_iff]

@[simp] theorem slice_name (name rest : List Char) :
    Text.slice 0 (byteCount name) (name ++ rest) = .ok name :=
  Text.slice_append [] name rest

theorem sliceFrom_limit (name text : List Char) :
    Text.sliceFrom (byteCount name + 1) (name ++ '=' :: text) = .ok text := by
  have h := Text.sliceFrom_append (name ++ ['=']) text
  rwa [Text.byteCount_append, List.append_assoc] at h

theorem Place.run_limit {here : Place} {part : List Char} {limit : Limit}
    (h : Text.sliceFrom here.position here.whole = .ok part)
    (hlimit : limitAfterEquals? part = some limit) : here.limit.run = .ok (some limit) := by
  unfold Place.limit
  rw [run_bind_some (run_toEnd h), hlimit]
  rfl

theorem ofText?_of_writes (h : Writes piece d) : ofText? piece = .ok (some d) := by
  unfold ofText?
  cases h with
  | @limit piece limit hbegins hnames =>
    rw [trim_of_names hnames, Place.directive_bare hbegins (unmarked_of_names hnames),
      Limit.ofText?_eq_some_iff.2 hnames]
    rfl
  | target hbegins hunmarked hnot =>
    have hnone : Limit.ofText? piece = none :=
      Option.eq_none_iff_forall_ne_some.2 fun limit h => hnot limit (Limit.names_of_ofText? h)
    rw [Place.directive_bare hbegins hunmarked.trim, hnone]
    rfl
  | @limited name text limit hbegins hfront hunmarked hlimit =>
    rw [← head?_of_begins hbegins ('=' :: text)] at hfront
    obtain ⟨text', after, htrim, rfl⟩ := trim_limited hfront
    rw [htrim, Place.directive_limited (begins_append hbegins _) hunmarked,
      run_bind_some (Place.run_upTo (slice_name name _)),
      run_bind_some (Place.run_limit (sliceFrom_limit name _)
        (limitAfterEquals?_eq_some_iff.2 hlimit))]
    rfl

theorem cuts_opened_iff (hname : Unmarked name) :
    (∀ before, Cuts (name ++ '[' :: rest) before → IsBoundary (byteCount before) whole) ↔
      IsBoundary (byteCount name) whole ∧ Place.SpanSound whole (byteCount name + 1) rest := by
  have hspanCount := Text.byteCount_append_cons (by decide : Char.utf8Size '[' = 1)
  have hfieldCount (name span cut : List Char) :
      byteCount (name ++ '[' :: (span ++ '\x7b' :: cut)) =
        byteCount name + 1 + byteCount span + 1 + byteCount cut := by
    rw [hspanCount, Text.byteCount_append_cons (by decide : Char.utf8Size '\x7b' = 1)]
    omega
  constructor
  · intro h
    refine ⟨h name (.target hname (.inr rfl)), ?_⟩
    rintro span after rfl hspan
    have hstart := h _ (.span hname hspan (.inl rfl))
    have hstop := h _ (.span hname hspan (.inr rfl))
    rw [hspanCount] at hstart hstop
    refine ⟨hstart, hstop, ?_⟩
    rintro field after rfl hfield
    have hstart := h _ (.field hname hspan hfield (.inl rfl))
    have hstop := h _ (.field hname hspan hfield (.inr rfl))
    rw [hfieldCount] at hstart hstop
    exact ⟨hstart, hstop⟩
  · rintro ⟨hstart, hsound⟩ before h
    generalize heq : name ++ '[' :: rest = piece at h
    cases h with
    | target hunmarked hmark =>
      rw [← (unmarked_append_cons_inj hname hunmarked (.inr rfl) hmark heq).1]
      exact hstart
    | limit hunmarked =>
      have hmark := (unmarked_append_cons_inj hname hunmarked (.inr rfl) (.inl rfl) heq).2.1
      contradiction
    | span hunmarked hspan hcut =>
      obtain ⟨rfl, -, rfl⟩ := unmarked_append_cons_inj hname hunmarked (.inr rfl) (.inr rfl) heq
      obtain ⟨hstart, hstop, -⟩ := hsound _ _ rfl hspan
      rw [hspanCount]
      rcases hcut with rfl | rfl
      · exact hstart
      · exact hstop
    | field hunmarked hspan hfield hcut =>
      obtain ⟨rfl, -, rfl⟩ := unmarked_append_cons_inj hname hunmarked (.inr rfl) (.inr rfl) heq
      obtain ⟨hstart, hstop⟩ := (hsound _ _ rfl hspan).2.2 _ _ rfl hfield
      rw [hfieldCount]
      rcases hcut with rfl | rfl
      · exact hstart
      · exact hstop

theorem Place.findsNone_limit_bind {α : Type} {here : Place} {f : Limit → Reading α}
    (hcount : here.position ≤ byteCount here.whole)
    (hnone : ∀ before part, here.whole = before ++ part → byteCount before = here.position →
      limitAfterEquals? part = none) :
    FindsNone (IsBoundary here.position here.whole) (here.limit >>= f) where
  none := by
    rintro ⟨before, part, hwhole, hposition⟩
    have hpart : here.toEnd.run = .ok (some part) := by
      apply run_toEnd
      simp [hwhole, ← hposition]
    apply run_bind_none
    unfold Place.limit
    rw [run_bind_some hpart, hnone before part hwhole hposition]
    rfl
  fault h := by
    obtain ⟨fault, hfault⟩ := Text.sliceFrom_error hcount h
    refine ⟨fault, run_bind_error (run_bind_error ?_)⟩
    simp [toEnd, hfault]

/-- Behind the place where a limit is expected no limit stands: it is not the text behind the equals
sign, or with blanks in front the place is before the sign. -/
theorem limitAfterEquals?_of_not_writes {blanks before part : List Char}
    (hblanks : ∀ c ∈ blanks, Text.isBlank c) (hbegins : Begins name)
    (hfront : ∀ c ∈ name.head?, Text.isBlank c = false) (hname : Unmarked name)
    (hnot : ∀ d, ¬Writes (blanks ++ (name ++ '=' :: text)) d)
    (hparts : before ++ part = blanks ++ (name ++ '=' :: text))
    (hcount : byteCount before = byteCount name + 1) : limitAfterEquals? part = none := by
  rw [Option.eq_none_iff_forall_ne_some]
  intro limit hlimit
  rw [limitAfterEquals?_eq_some_iff] at hlimit
  cases blanks with
  | nil =>
    have hparts : before ++ part = (name ++ ['=']) ++ text := by simpa using hparts
    obtain ⟨between, hbetween, rfl⟩ := Text.exists_append_of_byteCount_le hparts
      (by rw [hcount, Text.byteCount_append]; rfl)
    have hempty : byteCount between = 0 := by
      have h := congrArg byteCount hbetween
      rw [Text.byteCount_append_cons (by decide : Char.utf8Size '=' = 1), Text.byteCount_nil,
        Text.byteCount_append, hcount] at h
      omega
    obtain rfl := Text.byteCount_eq_zero_iff.1 hempty
    exact hnot _ (.limited hbegins hfront hname hlimit)
  | cons c blanks =>
    have hparts : before ++ part = (c :: blanks ++ name) ++ '=' :: text := by simpa using hparts
    obtain ⟨between, -, rfl⟩ := Text.exists_append_of_byteCount_le hparts (by
      have hsize := c.utf8Size_pos
      rw [hcount, Text.byteCount_append, Text.byteCount_cons]
      omega)
    rcases hlimit with ⟨hempty, -⟩ | hnames
    · simp at hempty
    · exact unmarked_of_names hnames '=' (by simp) (.inl rfl)

theorem findsNone_limited {blanks after : List Char} (hblanks : ∀ c ∈ blanks, Text.isBlank c)
    (hbegins : Begins name) (hfront : ∀ c ∈ name.head?, Text.isBlank c = false)
    (hname : Unmarked name) (hnot : ∀ d, ¬Writes (blanks ++ (name ++ '=' :: (text ++ after))) d) :
    FindsNone (∀ before, Cuts (name ++ '=' :: text) before →
        IsBoundary (byteCount before) (blanks ++ (name ++ '=' :: (text ++ after))))
      (Place.directive ⟨blanks ++ (name ++ '=' :: (text ++ after)), 0, name ++ '=' :: text⟩) := by
  have hcount : byteCount name + 1 ≤ byteCount (blanks ++ (name ++ '=' :: (text ++ after))) := by
    rw [Text.byteCount_append, Text.byteCount_append_cons (by decide : Char.utf8Size '=' = 1)]
    omega
  have hcountLimit : byteCount (name ++ ['=']) = byteCount name + 1 := by
    rw [Text.byteCount_append]
    rfl
  rw [Place.directive_limited (begins_append hbegins _) hname]
  refine (Place.findsNone_upTo_bind _ (Nat.zero_le _) (Nat.le_of_succ_le hcount) fun target =>
    Place.findsNone_limit_bind hcount fun before part hparts hcut =>
      limitAfterEquals?_of_not_writes hblanks hbegins hfront hname hnot hparts.symm hcut).congr ?_
  simp only [cuts_limited_iff hname, forall_eq_or_imp, forall_eq, hcountLimit]
  exact and_iff_right (Text.isBoundary_zero _)

theorem findsNone_opened (hleads : Begins (name ++ '[' :: rest) ∨ name = []) (hname : Unmarked name)
    (hcount : byteCount (name ++ '[' :: rest) ≤ byteCount whole) (hopen : ']' ∉ rest) :
    FindsNone (∀ before, Cuts (name ++ '[' :: rest) before → IsBoundary (byteCount before) whole)
      (Place.directive ⟨whole, 0, name ++ '[' :: rest⟩) := by
  rw [Text.byteCount_append_cons (by decide : Char.utf8Size '[' = 1)] at hcount
  rw [cuts_opened_iff hname]
  have hspan (d : Directive) : FindsNone (Place.SpanSound whole (byteCount name + 1) rest)
      (Place.spanPart d ⟨whole, byteCount name + 1, rest⟩) :=
    Place.findsNone_spanPart d (by omega) hopen
  rcases hleads with hbegins | rfl
  · rw [Place.directive_opened hbegins hname]
    have hle : byteCount name ≤ byteCount whole := by omega
    refine (Place.findsNone_upTo_bind _ (Nat.zero_le _) hle fun target => hspan _).congr ?_
    exact and_iff_right (Text.isBoundary_zero _)
  · exact (hspan {}).congr (and_iff_right (Text.isBoundary_zero _)).symm

/-- What no directive says is read as none, unless a cut splits a character. -/
theorem findsNone_of_not_writes (hspan : ¬HasSpan piece) (hnot : ∀ d, ¬Writes piece d) :
    FindsNone (¬Splits piece) (Place.directive { whole := piece, rest := Text.trim piece }) := by
  by_cases hleads : Begins (Text.trim piece) ∨ (Text.trim piece).head? = some '['
  · refine FindsNone.congr ?_ (not_splits_iff hleads)
    generalize htrim : Text.trim piece = trimmed at hleads ⊢
    obtain @⟨blanks, _, after, hblanks, hafter, hfirst, -⟩ := Text.trim_eq_iff.1 htrim
    have hblanks' := unmarked_of_isBlank hblanks
    rcases unmarked_or trimmed with hbare | ⟨name, mark, rest, rfl, hname, rfl | rfl⟩
    · have hbegins := hleads.resolve_right fun h => hbare '[' (List.mem_of_head? h) (.inr rfl)
      have hunmarked := (hblanks'.append hbare).append (unmarked_of_isBlank hafter)
      obtain ⟨d, hd⟩ := exists_writes_of_unmarked (by rwa [htrim]) hunmarked
      exact absurd hd (hnot d)
    · have hbegins : Begins name := by
        refine begins_of_append_mark (.inl rfl) (hleads.resolve_right fun h => ?_)
        cases name with
        | nil => simp at h
        | cons c name => exact hname '[' (List.mem_of_head? (by simpa using h)) (.inr rfl)
      rw [head?_of_begins hbegins] at hfirst
      rw [List.append_assoc, List.append_assoc, List.cons_append] at hnot ⊢
      exact findsNone_limited hblanks hbegins hfirst hname hnot
    · have hopen : ']' ∉ rest := by
        intro hclose
        obtain ⟨span, rest, rfl⟩ := List.append_of_mem hclose
        refine hspan ⟨blanks ++ name, span, rest ++ after, by simp, ?_⟩
        exact fun h => (hblanks'.append hname) '=' h (.inl rfl)
      refine findsNone_opened (hleads.imp_right fun h => ?_) hname ?_ hopen
      · cases name with
        | nil => rfl
        | cons c name =>
          exact absurd (.inr rfl) (hname '[' (List.mem_of_head? (by simpa using h)))
      · simp only [Text.byteCount_append]
        omega
  · rw [not_or] at hleads
    rw [Place.directive_of_not_begins hleads.1 hleads.2]
    exact findsNone_failure.congr ⟨fun _ h => (not_or.2 hleads) h.1, fun _ => trivial⟩

/-- The reader of a whole text. -/
def reading (piece : List Char) : Reading Directive := OptionT.mk (ofText? piece)

theorem run_reading (h : Writes piece d) : (reading piece).run = .ok (some d) := ofText?_of_writes h

theorem findsNone_reading (hspan : ¬HasSpan piece) (hnot : ∀ d, ¬Writes piece d) :
    FindsNone (¬Splits piece) (reading piece) :=
  ⟨(findsNone_of_not_writes hspan hnot).none, (findsNone_of_not_writes hspan hnot).fault⟩

end Planimeter.Directive
