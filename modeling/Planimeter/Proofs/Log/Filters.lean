import Planimeter.Log.Logger
import Planimeter.Proofs.Log.Reading
import Mathlib.Data.List.Forall2
import Mathlib.Data.List.Induction
/-!
# Filters

A text is a filter if each of its pieces says a directive. Of the texts that a logger may take its
filter from the first that is one counts, and of the directives in it the most specific one that an
event's target begins with decides about the event.
-/
namespace Planimeter

namespace Directive

variable {ds : List Directive} {d x : Directive} {e : Event}

/-- The target of an event begins as the directive says. -/
def Matches (d : Directive) (e : Event) : Prop := ∀ lead ∈ d.target, lead <+: e.target.toList

/-- How much of a target a directive tells: nothing, or so many characters and that it is told. -/
def reach (d : Directive) : Nat := d.target.elim 0 (·.length + 1)

/-- Among some directives, the one with the longest target that an event matches, and the last of
these if there are several. -/
def MostSpecific (ds : List Directive) (e : Event) (d : Directive) : Prop :=
  ∃ before after, ds = before ++ d :: after ∧ d.Matches e ∧
    (∀ d' ∈ before, d'.Matches e → d'.reach ≤ d.reach) ∧
    ∀ d' ∈ after, d'.Matches e → d'.reach < d.reach

/-- There is no span and there are no fields. -/
def IsPlain (d : Directive) : Prop := d.span = none ∧ d.fields = []

theorem Writes.isPlain {piece : List Char} (h : Writes piece d) : d.IsPlain := by
  cases h <;> exact ⟨rfl, rfl⟩

theorem IsPlain.applies_iff (h : d.IsPlain) : d.applies e ↔ d.Matches e := by
  obtain ⟨hspan, hfields⟩ := h
  cases htarget : d.target <;> simp [applies, isStatic, Matches, hspan, hfields, htarget]

theorem IsPlain.isAtMost_iff (h : d.IsPlain) (hx : x.IsPlain) :
    d.isAtMost x ↔ d.reach ≤ x.reach := by
  rcases d with ⟨target, span, fields, limit⟩
  rcases x with ⟨target', span', fields', limit'⟩
  obtain ⟨rfl, rfl⟩ := h
  obtain ⟨rfl, rfl⟩ := hx
  unfold isAtMost
  cases target <;> cases target' <;> simp [reach]
  omega

/-- The last directive decides if it matches and none before it reaches further; otherwise it has no
say. -/
theorem mostSpecific_append_iff : MostSpecific (ds ++ [d]) e x ↔
    (x = d ∧ d.Matches e ∧ ∀ d' ∈ ds, d'.Matches e → d'.reach ≤ d.reach) ∨
      MostSpecific ds e x ∧ (d.Matches e → d.reach < x.reach) := by
  constructor
  · rintro ⟨before, after, heq, hmatches, hbefore, hafter⟩
    rcases List.eq_nil_or_concat' after with rfl | ⟨after, last, rfl⟩
    · obtain ⟨rfl, hlast⟩ := List.append_inj' heq rfl
      obtain rfl := (List.cons.inj hlast).1
      exact .inl ⟨rfl, hmatches, hbefore⟩
    · rw [← List.cons_append, ← List.append_assoc] at heq
      obtain ⟨rfl, hlast⟩ := List.append_inj' heq rfl
      obtain rfl := (List.cons.inj hlast).1
      rw [List.forall_mem_append] at hafter
      exact .inr ⟨⟨before, after, rfl, hmatches, hbefore, hafter.1⟩,
        hafter.2 d List.mem_cons_self⟩
  · rintro (⟨rfl, hmatches, hbefore⟩ | ⟨⟨before, after, rfl, hmatches, hbefore, hafter⟩, hlast⟩)
    · exact ⟨ds, [], rfl, hmatches, hbefore, by simp⟩
    · refine ⟨before, after ++ [d], by simp, hmatches, hbefore, ?_⟩
      exact List.forall_mem_append.2 ⟨hafter, by simpa using hlast⟩

theorem MostSpecific.reach_le (h : MostSpecific ds e x) :
    ∀ d ∈ ds, d.Matches e → d.reach ≤ x.reach := by
  obtain ⟨before, after, rfl, -, hbefore, hafter⟩ := h
  simp only [List.forall_mem_append, List.forall_mem_cons]
  exact ⟨hbefore, fun _ => Nat.le_refl _, fun d hd hmatches => (hafter d hd hmatches).le⟩

theorem MostSpecific.mem (h : MostSpecific ds e x) : x ∈ ds ∧ x.Matches e := by
  obtain ⟨before, after, rfl, hmatches, -⟩ := h
  exact ⟨by simp, hmatches⟩

theorem exists_mostSpecific (hd : d ∈ ds) (hmatches : d.Matches e) :
    ∃ x, MostSpecific ds e x := by
  induction ds using List.reverseRecOn generalizing d with
  | nil => contradiction
  | append_singleton ds last ih =>
    simp only [mostSpecific_append_iff]
    by_cases hlast : last.Matches e
    · by_cases hall : ∀ d' ∈ ds, d'.Matches e → d'.reach ≤ last.reach
      · exact ⟨last, .inl ⟨rfl, hlast, hall⟩⟩
      · push Not at hall
        obtain ⟨d', hd', hmatches', hlt⟩ := hall
        obtain ⟨x, hx⟩ := ih hd' hmatches'
        exact ⟨x, .inr ⟨hx, fun _ => hlt.trans_le (hx.reach_le d' hd' hmatches')⟩⟩
    · have hmem : d ∈ ds := by
        refine (List.mem_append.1 hd).resolve_right fun h => ?_
        exact hlast (List.mem_singleton.1 h ▸ hmatches)
      obtain ⟨x, hx⟩ := ih hmem hmatches
      exact ⟨x, .inr ⟨hx, fun h => absurd h hlast⟩⟩

end Directive

namespace Filter

open Directive (MostSpecific)

variable {ds : List Directive} {d : Directive} {e : Event}

theorem decisive?_append (ds : List Directive) (d : Directive) (e : Event) :
    decisive? ⟨ds ++ [d]⟩ e =
      if d.applies e then
        match decisive? ⟨ds⟩ e with
        | some best => if best.isAtMost d then some d else some best
        | none => some d
      else decisive? ⟨ds⟩ e := by
  unfold decisive?
  simp only [List.filter_append, List.foldl_append]
  cases happlies : d.applies e
  · simp [happlies]
  · simp only [happlies, List.filter_cons_of_pos, List.filter_nil, List.foldl_cons, List.foldl_nil]
    rfl

/-- What decides is the most specific directive. The induction is on the directives from behind,
since a directive at the end decides for or against what the others have decided. -/
theorem decisive?_eq_some_iff (hplain : ∀ d ∈ ds, d.IsPlain) :
    decisive? ⟨ds⟩ e = some d ↔ MostSpecific ds e d := by
  induction ds using List.reverseRecOn generalizing d with
  | nil =>
    constructor
    · intro h
      contradiction
    · rintro ⟨before, after, h, -⟩
      simp at h
  | append_singleton ds last ih =>
    rw [List.forall_mem_append] at hplain
    have hlast := hplain.2 last List.mem_cons_self
    have ih (x : Directive) := ih (d := x) hplain.1
    rw [decisive?_append, Directive.mostSpecific_append_iff]
    by_cases hmatches : last.Matches e
    · rw [if_pos (hlast.applies_iff.2 hmatches)]
      cases hbest : decisive? ⟨ds⟩ e with
      | none =>
        have hnone (d' : Directive) (hd' : d' ∈ ds) : ¬d'.Matches e := fun hmatches' => by
          obtain ⟨x, hx⟩ := Directive.exists_mostSpecific hd' hmatches'
          rw [← ih, hbest] at hx
          contradiction
        have hnot : ¬MostSpecific ds e d := fun h => hnone d h.mem.1 h.mem.2
        simp only [Option.some.injEq, hmatches, hnot, false_and, or_false, true_and,
          eq_comm (a := d)]
        exact (and_iff_left fun d' hd' h => absurd h (hnone d' hd')).symm
      | some best =>
        have hmost := (ih best).1 hbest
        have hunique : MostSpecific ds e d ↔ best = d := by
          rw [← ih, hbest, Option.some.injEq]
        have hreach : (∀ d' ∈ ds, d'.Matches e → d'.reach ≤ last.reach) ↔
            best.reach ≤ last.reach :=
          ⟨fun h => h best hmost.mem.1 hmost.mem.2,
            fun h d' hd' hmatches' => (hmost.reach_le d' hd' hmatches').trans h⟩
        have hatMost := (hplain.1 best hmost.mem.1).isAtMost_iff hlast
        simp only [hatMost, hreach, hunique, hmatches, true_and, forall_const]
        split
        · next hle =>
          rw [Option.some.injEq, and_iff_left hle, eq_comm (a := d), or_iff_left]
          rintro ⟨rfl, hlt⟩
          omega
        · next hlt =>
          rw [Option.some.injEq, or_iff_right fun h => hlt h.2]
          refine (and_iff_left_of_imp ?_).symm
          rintro rfl
          omega
    · rw [if_neg (mt hlast.applies_iff.1 hmatches), ih]
      simp [hmatches]

/-- The filter that some directives are. Without any only errors pass. -/
def ofDirectives (ds : List Directive) : Filter := if ds.isEmpty then errors else ⟨ds⟩

/-- An event passes if the directive that decides about it admits its level. -/
theorem passes_ofDirectives_iff (hplain : ∀ d ∈ ds, d.IsPlain) :
    (ofDirectives ds).passes e ↔
      ∃ d, MostSpecific (ofDirectives ds).directives e d ∧ d.limit.admits e.level := by
  have hall : ∀ d ∈ (ofDirectives ds).directives, d.IsPlain := by
    unfold ofDirectives
    split
    · simp [errors, Directive.IsPlain]
    · exact hplain
  simp only [passes, Option.any_eq_true, ← decisive?_eq_some_iff hall]

/-- The pieces of a text between its commas, without the empty ones. -/
def listed (text : String) : List (List Char) := (text.toList.splitOn ',').filter (· ≠ [])

/-- The pieces of a text say some directives, each one. -/
def Lists (text : String) (ds : List Directive) : Prop :=
  List.Forall₂ Directive.Writes (listed text) ds

/-- A text that is there without a piece is a list of directives, which lets errors pass only. -/
example : Lists "" [] ∧ ofDirectives [] = errors := ⟨.nil, rfl⟩

/-- A piece of the text is cut inside a character, and all before it say directives. -/
def Breaks (text : String) : Prop :=
  ∃ before piece after ds, listed text = before ++ piece :: after ∧
    List.Forall₂ Directive.Writes before ds ∧ Directive.Splits piece

/-- A piece of the text has a span. -/
def HasSpan (text : String) : Prop := ∃ piece ∈ listed text, Directive.HasSpan piece

variable {text : String} {before after pieces : List (List Char)} {piece : List Char}

theorem not_hasSpan (h : ∀ piece ∈ listed text, '[' ∉ piece) : ¬HasSpan text := by
  rintro ⟨_, hpiece, name, span, rest, rfl, -⟩
  exact h _ hpiece (by simp)

theorem Lists.isPlain (h : Lists text ds) : ∀ d ∈ ds, d.IsPlain := by
  intro d hd
  obtain ⟨i, hi, rfl⟩ := List.getElem_of_mem hd
  exact (h.get (h.length_eq ▸ hi) hi).isPlain

theorem Lists.not_breaks (h : Lists text ds) : ¬Breaks text := by
  rintro ⟨before, piece, after, ds', hlisted, -, hsplits⟩
  obtain ⟨d, hd⟩ : ∃ d, Directive.Writes piece d := by
    obtain ⟨i, hi, rfl⟩ := List.getElem_of_mem (show piece ∈ listed text by simp [hlisted])
    exact ⟨_, h.get hi (h.length_eq ▸ hi)⟩
  exact Directive.not_splits_of_writes hd hsplits

theorem run_mapM (h : List.Forall₂ Directive.Writes pieces ds) :
    (pieces.mapM Directive.reading).run = .ok (some ds) := by
  induction h with
  | nil => rfl
  | cons hd hds ih =>
    rw [List.mapM_cons, Directive.run_bind_some (Directive.run_reading hd),
      Directive.run_bind_some ih]
    rfl

/-- Reading goes as far as the first piece that says nothing. -/
theorem findsNone_mapM {sound : Prop} (hbefore : List.Forall₂ Directive.Writes before ds)
    (h : Directive.FindsNone sound (Directive.reading piece)) (after : List (List Char)) :
    Directive.FindsNone sound ((before ++ piece :: after).mapM Directive.reading) := by
  induction hbefore with
  | nil =>
    rw [List.nil_append, List.mapM_cons]
    exact h.bind _
  | cons hd hds ih =>
    rw [List.cons_append, List.mapM_cons]
    exact (ih.bind _).after (Directive.run_reading hd)

theorem forall₂_writes_or (pieces : List (List Char)) :
    (∃ ds, List.Forall₂ Directive.Writes pieces ds) ∨
      ∃ before piece after ds, pieces = before ++ piece :: after ∧
        List.Forall₂ Directive.Writes before ds ∧ ∀ d, ¬Directive.Writes piece d := by
  induction pieces with
  | nil => exact .inl ⟨[], .nil⟩
  | cons piece pieces ih =>
    by_cases hpiece : ∃ d, Directive.Writes piece d
    · obtain ⟨d, hd⟩ := hpiece
      rcases ih with ⟨ds, hds⟩ | ⟨before, piece', after, ds, rfl, hds, hnot⟩
      · exact .inl ⟨d :: ds, .cons hd hds⟩
      · exact .inr ⟨piece :: before, piece', after, d :: ds, rfl, .cons hd hds, hnot⟩
    · exact .inr ⟨[], piece, pieces, [], rfl, .nil, not_exists.1 hpiece⟩

theorem ofText?_eq (text : String) : ofText? text = OptionT.run (do
    let ds ← (listed text).mapM Directive.reading
    return ofDirectives ds) := by
  have hlisted : (Text.pieces ',' text.toList).filter (fun piece => !piece.isEmpty) =
      listed text := by
    rw [Text.pieces_eq_splitOn, listed]
    exact List.filter_congr fun piece _ => by cases piece <;> simp
  rw [ofText?, hlisted]
  rfl

theorem ofText?_of_lists (h : Lists text ds) : ofText? text = .ok (some (ofDirectives ds)) := by
  rw [ofText?_eq, Directive.run_bind_some (run_mapM h)]
  rfl

/-- The first piece that says nothing decides what becomes of the text. -/
theorem findsNone_ofText? (hspan : ¬HasSpan text) (hlisted : listed text = before ++ piece :: after)
    (hbefore : List.Forall₂ Directive.Writes before ds) (hnot : ∀ d, ¬Directive.Writes piece d) :
    Directive.FindsNone (¬Directive.Splits piece) (OptionT.mk (ofText? text)) := by
  have hpiece : ¬Directive.HasSpan piece := fun h => hspan ⟨piece, by simp [hlisted], h⟩
  have hread := findsNone_mapM hbefore (Directive.findsNone_reading hpiece hnot) after
  rw [ofText?_eq, hlisted]
  exact hread.bind _

theorem ofText?_of_breaks (hspan : ¬HasSpan text) (h : Breaks text) :
    ∃ fault, ofText? text = .error fault := by
  obtain ⟨before, piece, after, ds, hlisted, hbefore, hsplits⟩ := h
  have hnot (d : Directive) : ¬Directive.Writes piece d := fun hd =>
    Directive.not_splits_of_writes hd hsplits
  exact (findsNone_ofText? hspan hlisted hbefore hnot).fault (not_not.2 hsplits)

theorem ofText?_eq_none (hspan : ¬HasSpan text) (hnot : ¬∃ ds, Lists text ds)
    (hbreaks : ¬Breaks text) : ofText? text = .ok none := by
  obtain ⟨before, piece, after, ds, hlisted, hbefore, hpiece⟩ :=
    (forall₂_writes_or (listed text)).resolve_left hnot
  refine (findsNone_ofText? hspan hlisted hbefore hpiece).none fun hsplits => ?_
  exact hbreaks ⟨before, piece, after, ds, hlisted, hbefore, hsplits⟩

/-- None of the sources before a text is a list of directives. -/
def Reached (sources : List String) (text : String) : Prop :=
  ∃ before after, sources = before ++ text :: after ∧ ∀ earlier ∈ before, ¬∃ ds, Lists earlier ds

@[simp] theorem reached_cons_iff {source : String} {sources : List String} :
    Reached (source :: sources) text ↔
      text = source ∨ (¬∃ ds, Lists source ds) ∧ Reached sources text := by
  constructor
  · rintro ⟨_ | ⟨earlier, before⟩, after, heq, hbefore⟩
    · exact .inl (List.cons.inj heq).1.symm
    · obtain ⟨rfl, rfl⟩ := List.cons.inj heq
      rw [List.forall_mem_cons] at hbefore
      exact .inr ⟨hbefore.1, before, after, rfl, hbefore.2⟩
  · rintro (rfl | ⟨hsource, before, after, rfl, hbefore⟩)
    · exact ⟨[], sources, rfl, by simp⟩
    · exact ⟨source :: before, after, rfl, List.forall_mem_cons.2 ⟨hsource, hbefore⟩⟩

/-- A filter is that of the first source that is a list of directives, and there is none exactly if
a source up to there is cut inside a character. -/
structure Settles (sources : List String) (r : Except Fault Filter) : Prop where
  fault_iff : (∃ fault, r = .error fault) ↔ ∃ text, Reached sources text ∧ Breaks text
  ok : ∀ f, r = .ok f → ∃ text ds, Reached sources text ∧ Lists text ds ∧ f = ofDirectives ds

theorem settles_of_lists (h : Lists text ds) (sources : List String) :
    Settles (text :: sources) (.ok (ofDirectives ds)) where
  fault_iff := by
    constructor
    · rintro ⟨fault, hfault⟩
      contradiction
    · rintro ⟨text', hreached, hbreaks⟩
      rcases reached_cons_iff.1 hreached with rfl | ⟨hnot, -⟩
      · exact absurd hbreaks h.not_breaks
      · exact absurd ⟨ds, h⟩ hnot
  ok f hf := by
    obtain rfl := Except.ok.inj hf
    exact ⟨text, ds, reached_cons_iff.2 (.inl rfl), h, rfl⟩

/-- One more source before the others. -/
theorem settles_cons {sources : List String} {r : Except Fault Filter} (hspan : ¬HasSpan text)
    (h : Settles sources r) : Settles (text :: sources) (do
      match ← ofText? text with
      | some f => return f
      | none => r) := by
  by_cases hlists : ∃ ds, Lists text ds
  · obtain ⟨ds, hds⟩ := hlists
    rw [ofText?_of_lists hds]
    exact settles_of_lists hds sources
  by_cases hbreaks : Breaks text
  · obtain ⟨fault, hfault⟩ := ofText?_of_breaks hspan hbreaks
    rw [hfault]
    refine ⟨iff_of_true ⟨fault, rfl⟩ ⟨text, reached_cons_iff.2 (.inl rfl), hbreaks⟩, fun f hf => ?_⟩
    contradiction
  · rw [ofText?_eq_none hspan hlists hbreaks]
    refine ⟨h.fault_iff.trans ⟨?_, ?_⟩, fun f hf => ?_⟩
    · rintro ⟨text', hreached, htext'⟩
      exact ⟨text', reached_cons_iff.2 (.inr ⟨hlists, hreached⟩), htext'⟩
    · rintro ⟨text', hreached, htext'⟩
      rcases reached_cons_iff.1 hreached with rfl | ⟨-, hreached⟩
      · exact absurd htext' hbreaks
      · exact ⟨text', hreached, htext'⟩
    · obtain ⟨text', ds, hreached, hds, rfl⟩ := h.ok f hf
      exact ⟨text', ds, reached_cons_iff.2 (.inr ⟨hlists, hreached⟩), hds, rfl⟩

theorem lists_info : Lists "info" [{ limit := some .info }] := by
  have hnames : Limit.Names "info".toList (some .info) := .inl (by decide)
  exact .cons (.limit ⟨'i', rfl, .inr (by decide)⟩ hnames) .nil

theorem choose_none (level : String) : choose none level = (do
    match ← ofText? level with
    | some f => return f
    | none => .ok default) := by
  rw [choose]
  rcases ofText? level with fault | _ | f <;> rfl

theorem choose_some (text level : String) : choose (some text) level = (do
    match ← ofText? text with
    | some f => return f
    | none => choose none level) := by
  simp only [choose]
  rcases ofText? text with fault | _ | f <;> rfl

theorem settles_choose {environment : Option String} {level : String}
    (henvironment : ∀ text ∈ environment, ¬HasSpan text) (hlevel : ¬HasSpan level) :
    Settles (environment.toList ++ [level, "info"]) (choose environment level) := by
  have hdefault : Settles ["info"] (.ok default) := settles_of_lists lists_info []
  have hnone : Settles [level, "info"] (choose none level) := by
    rw [choose_none]
    exact settles_cons hlevel hdefault
  cases environment with
  | none => exact hnone
  | some text =>
    rw [choose_some]
    exact settles_cons (henvironment text rfl) hnone

end Filter

namespace Logger

/-- The texts that a logger may take its filter from, in the order in which they are tried. -/
def sources (environment : List (String × String)) (c : Config) : List String :=
  (environment.reverse.lookup variableName).toList ++ [c.level, "info"]

/-- A logger takes its filter from the first source that is a list of directives, and there is one
unless a source that is tried is cut inside a character. An event passes exactly if the most
specific of the directives that its target begins with admits its level. -/
theorem passes_iff_most_specific (environment : List (String × String)) (c : Config)
    (hspan : ∀ text ∈ sources environment c, ¬Filter.HasSpan text) :
    ((∃ fault, ofConfig environment c = .error fault) ↔
      ∃ text, Filter.Reached (sources environment c) text ∧ Filter.Breaks text) ∧
    ∀ l, ofConfig environment c = .ok l → ∃ text ds,
      Filter.Reached (sources environment c) text ∧ Filter.Lists text ds ∧
      ∀ e, l.filter.passes e ↔
        ∃ d, Directive.MostSpecific (Filter.ofDirectives ds).directives e d ∧
          d.limit.admits e.level := by
  have hsettles : Filter.Settles (sources environment c)
      (Filter.choose (environment.reverse.lookup variableName) c.level) := by
    refine Filter.settles_choose (fun text h => hspan text ?_) (hspan c.level ?_)
    · exact List.mem_append_left _ (Option.mem_toList.2 h)
    · exact List.mem_append_right _ List.mem_cons_self
  unfold ofConfig
  generalize Filter.choose (environment.reverse.lookup variableName) c.level = r at hsettles ⊢
  cases r with
  | error fault =>
    refine ⟨(iff_of_true ⟨fault, rfl⟩ ⟨fault, rfl⟩).trans hsettles.fault_iff, fun l h => ?_⟩
    contradiction
  | ok f =>
    refine ⟨(iff_of_false ?_ ?_).trans hsettles.fault_iff, fun l h => ?_⟩
    · rintro ⟨fault, h⟩
      contradiction
    · rintro ⟨fault, h⟩
      contradiction
    · obtain rfl := Except.ok.inj h
      obtain ⟨text, ds, hreached, hds, rfl⟩ := hsettles.ok f rfl
      exact ⟨text, ds, hreached, hds, fun e => Filter.passes_ofDirectives_iff hds.isPlain⟩

/-- A variable with one directive that says nothing leaves the configured level to decide. -/
theorem passes_iff_most_specific_level :
    let environment := [("RUST_LOG", "debug,area_calculator=loud")]
    let c : Config := { level := "warn,area_calculator=INFO,,area_calculator::host=off" }
    let l : Logger := ⟨⟨[{ limit := some .warn },
      { target := some "area_calculator".toList, limit := some .info },
      { target := some "area_calculator::host".toList, limit := none }]⟩, .pretty⟩
    (∀ text ∈ sources environment c, ¬Filter.HasSpan text) ∧ ofConfig environment c = .ok l ∧
      (¬∃ text, Filter.Reached (sources environment c) text ∧ Filter.Breaks text) ∧
      ∃ text ds, Filter.Reached (sources environment c) text ∧ Filter.Lists text ds ∧
        ∀ e, l.filter.passes e ↔
          ∃ d, Directive.MostSpecific (Filter.ofDirectives ds).directives e d ∧
            d.limit.admits e.level := by
  intro environment c l
  have hspan : ∀ text ∈ sources environment c, ¬Filter.HasSpan text := by
    have hbracket : ∀ text ∈ sources environment c, ∀ piece ∈ Filter.listed text, '[' ∉ piece := by
      decide +kernel
    exact fun text htext => Filter.not_hasSpan (hbracket text htext)
  have hlogger : ofConfig environment c = .ok l := by decide +kernel
  obtain ⟨hfault, hpasses⟩ := passes_iff_most_specific environment c hspan
  refine ⟨hspan, hlogger, fun hbreaks => ?_, hpasses l hlogger⟩
  obtain ⟨fault, h⟩ := hfault.2 hbreaks
  rw [hlogger] at h
  contradiction

/-- A level with a blank in front has no logger if its first cut is inside a character. -/
theorem ofConfig_fault_behind_blank :
    let c : Config := { level := " é=info" }
    (∀ text ∈ sources [] c, ¬Filter.HasSpan text) ∧
      ofConfig [] c = .error (.splitCharacter .stop 2 'é' 1) := by
  intro c
  have hbracket : ∀ text ∈ sources [] c, ∀ piece ∈ Filter.listed text, '[' ∉ piece := by
    decide +kernel
  exact ⟨fun text htext => Filter.not_hasSpan (hbracket text htext), by decide +kernel⟩

end Logger

end Planimeter
