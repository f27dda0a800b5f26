import Planimeter.Command.Arguments
import Mathlib.Data.List.Basic
/-!
# Command lines that ask for areas

Arguments are read one after the other, so that a line is read by parts: what stands before the
command, its options, and the texts of shapes. A text of a shape begins with no hyphen and is
therefore never taken for an option.
-/
namespace Planimeter

theorem Text.exists_trim_cons {c : Char} (h : Text.isBlank c = false) (cs : List Char) :
    ∃ rest, Text.trim (c :: cs) = c :: rest := by
  have hend : (cs.reverse ++ [c]).dropWhile Text.isBlank =
      cs.reverse.dropWhile Text.isBlank ++ [c] := by
    rw [List.dropWhile_append]
    split <;> simp_all
  refine ⟨(cs.reverse.dropWhile Text.isBlank).reverse, ?_⟩
  rw [Text.trim, Text.trimBy, List.dropWhile_cons_of_neg (by simp [h]), List.reverse_cons, hend]
  simp

@[simp] theorem Kind.ofName?_hyphen (cs : List Char) :
    Kind.ofName? (Text.lower (String.ofList ('-' :: cs))) = none := by
  refine List.find?_eq_none.2 fun k _ hname => ?_
  have hchars : k.name.toList = '-' :: cs.map Char.toLower := by
    rw [beq_iff_eq.1 hname, Text.lower, String.toList_ofList, String.toList_ofList]
    rfl
  have hhead : k.name.toList.head? = some '-' := by rw [hchars]; rfl
  cases k <;> exact absurd hhead (by decide)

theorem Shape.head?_of_ofText {text : String} {shape : Shape} (h : ofText text = .ok shape) :
    text.toList.head? ≠ some '-' := by
  intro hhead
  obtain ⟨cs, htext⟩ : ∃ cs, text.toList = '-' :: cs := List.head?_eq_some_iff.1 hhead
  have hne : '-' ≠ '=' := by decide
  cases hcut : Text.cut? '=' cs with
  | none =>
    simp only [ofText, htext, Text.cut?, if_neg hne, hcut, Option.map_none] at h
    contradiction
  | some cut =>
    -- The name of a kind is sought in what stands before the first equals sign, and that still
    -- begins with the hyphen: trimming takes blanks only.
    obtain ⟨before, after⟩ := cut
    obtain ⟨name, hname⟩ := Text.exists_trim_cons (show Text.isBlank '-' = false by decide) before
    simp only [ofText, htext, Text.cut?, if_neg hne, hcut, Option.map_some, hname,
      Kind.ofName?_hyphen] at h
    contradiction

namespace Command

variable {scope : Scope} {r r' : Reading} {argument : String}

/-- Reads one argument that is neither a command nor two hyphens alone. -/
def Reading.take (scope : Scope) (r : Reading) (argument : String) :
    Except Interruption Reading :=
  match argument.toList with
  | '-' :: '-' :: body => r.long scope body
  | '-' :: c :: cs => Reading.short scope r (c :: cs)
  | _ =>
    match r.pending with
    | .option o none => .ok { r with pending := .option o (some argument) }
    | _ => r.positional scope false argument

/-- The command that an argument names for a scope. -/
def Reading.command? (scope : Scope) (r : Reading) (argument : String) : Option Scope :=
  if scope = .program ∧ !r.pending.awaitsValue then Scope.ofName? argument else none

theorem readScope_cons (hcommand : r.command? scope argument = none) (hhyphens : argument ≠ "--")
    (rest : List String) :
    readScope scope false r (argument :: rest) =
      r.take scope argument >>= fun r => readScope scope false r rest := by
  have hchars : argument.toList ≠ ['-', '-'] := fun h => hhyphens (String.toList_inj.1 h)
  rw [Reading.command?] at hcommand
  rw [readScope, Reading.take]
  simp only [Bool.false_eq_true, if_false, hcommand]
  generalize argument.toList = chars at hchars
  split
  · contradiction
  · rfl
  · simp only
  · simp only
    rcases r.pending with _ | ⟨o, _ | value⟩ | texts <;> rfl

/-- Arguments without two hyphens alone and without a command are read before what follows them. -/
theorem readScope_append {before : List String}
    (h : readScope scope false r before = .ok ⟨r', none⟩) (hhyphens : "--" ∉ before)
    (rest : List String) :
    readScope scope false r (before ++ rest) = readScope scope false r' rest := by
  induction before generalizing r with
  | nil =>
    rw [readScope] at h
    have hreading : r = r' := congrArg ScopeLine.reading (Except.ok.inj h)
    rw [List.nil_append, hreading]
  | cons argument before ih =>
    rw [List.mem_cons, not_or] at hhyphens
    cases hcommand : r.command? scope argument with
    | some command =>
      -- A command would end the reading, and there would be one.
      rw [Reading.command?] at hcommand
      simp only [readScope, Bool.false_eq_true, if_false, hcommand] at h
      exact absurd (congrArg ScopeLine.command (Except.ok.inj h)) (Option.some_ne_none _)
    | none =>
      rw [List.cons_append]
      rw [readScope_cons hcommand (Ne.symm hhyphens.1)] at h ⊢
      cases htake : r.take scope argument with
      | error interruption =>
        rw [htake] at h
        contradiction
      | ok next =>
        rw [htake] at h
        exact ih h hhyphens.2

theorem readScope_command {command : Scope} (h : r.command? scope argument = some command)
    (rest : List String) :
    readScope scope false r (argument :: rest) = .ok ⟨r, some (command, rest)⟩ := by
  rw [Reading.command?] at h
  simp only [readScope, Bool.false_eq_true, if_false, h]

variable {given : Given} {shape : Shape}

theorem Reading.awaitsValue_of_settled (h : r.settled = .ok given) :
    r.pending.awaitsValue = false := by
  rw [settled] at h
  rcases hpending : r.pending with _ | ⟨o, _ | value⟩ | texts
  · rfl
  · rw [hpending] at h
    contradiction
  · rfl
  · rfl

/-- A text behind others that are pending is read after them. -/
theorem Given.settle_append {g : Given} (texts : List String) {text : String}
    (htexts : g.settle (.shapes texts) = .ok given) (htext : Shape.ofText text = .ok shape) :
    g.settle (.shapes (texts ++ [text])) =
      .ok { given with shapes := given.shapes ++ [shape] } := by
  have hadd : given.addShape text = .ok { given with shapes := given.shapes ++ [shape] } := by
    rw [addShape, htext]
  rw [settle] at htexts ⊢
  rw [List.foldlM_append, htexts]
  simp only [bind, Except.bind, List.foldlM_cons, List.foldlM_nil, hadd]
  rfl

/-- The text of a shape is kept, and read when it is settled what is pending. -/
theorem Reading.take_text (hsettled : r.settled = .ok given) {text : String}
    (htext : Shape.ofText text = .ok shape) :
    ∃ next, r.take .calculate text = .ok next ∧
      next.settled = .ok { given with shapes := given.shapes ++ [shape] } := by
  have hhead := Shape.head?_of_ofText htext
  have htake : r.take .calculate text = r.positional .calculate false text := by
    rw [take]
    generalize text.toList = chars at hhead
    split
    · simp at hhead
    · simp at hhead
    · rcases hpending : r.pending with _ | ⟨o, _ | value⟩ | texts
      · rfl
      · simp [settled, hpending, Given.settle, wrong] at hsettled
      · rfl
      · rfl
  have hfirst : Given.settle given (.shapes [text]) =
      .ok { given with shapes := given.shapes ++ [shape] } := Given.settle_append [] rfl htext
  rw [htake]
  unfold positional
  rw [settled] at hsettled
  rcases hpending : r.pending with _ | ⟨o, _ | value⟩ | texts <;> rw [hpending] at hsettled
  · exact ⟨⟨given, .shapes [text]⟩, by simp only [settled, hpending, hsettled]; rfl, hfirst⟩
  · contradiction
  · exact ⟨⟨given, .shapes [text]⟩, by simp only [settled, hpending, hsettled]; rfl, hfirst⟩
  · exact ⟨_, rfl, Given.settle_append texts hsettled htext⟩

theorem exists_of_mapM_cons {ε α β : Type} {f : α → Except ε β} {a : α} {items : List α}
    {results : List β} (h : (a :: items).mapM f = .ok results) :
    ∃ b rest, f a = .ok b ∧ items.mapM f = .ok rest ∧ results = b :: rest := by
  rw [List.mapM_cons] at h
  cases ha : f a with
  | error e =>
    rw [ha] at h
    contradiction
  | ok b =>
    cases hrest : items.mapM f with
    | error e =>
      rw [ha, hrest] at h
      contradiction
    | ok rest =>
      rw [ha, hrest] at h
      exact ⟨b, rest, rfl, rfl, (Except.ok.inj h).symm⟩

/-- Texts of shapes at the end of the arguments add their shapes. -/
theorem readScope_texts {texts : List String} {shapes : List Shape}
    (hsettled : r.settled = .ok given) (htexts : texts.mapM Shape.ofText = .ok shapes) :
    ∃ last, readScope .calculate false r texts = .ok ⟨last, none⟩ ∧
      last.settled = .ok { given with shapes := given.shapes ++ shapes } := by
  induction texts generalizing r given shapes with
  | nil =>
    obtain rfl : [] = shapes := Except.ok.inj htexts
    exact ⟨r, by rw [readScope], by rw [hsettled, List.append_nil]⟩
  | cons text texts ih =>
    obtain ⟨shape, rest, hshape, hrest, rfl⟩ := exists_of_mapM_cons htexts
    obtain ⟨next, htake, hnext⟩ := Reading.take_text hsettled hshape
    obtain ⟨last, hlast, hgiven⟩ := ih hnext hrest
    have hhyphens : text ≠ "--" := by
      rintro rfl
      exact Shape.head?_of_ofText hshape rfl
    refine ⟨last, ?_, ?_⟩
    · rw [readScope_cons rfl hhyphens, htake]
      exact hlast
    · rw [hgiven, List.append_assoc]
      rfl

theorem Reading.take_multi (hsettled : r.settled = .ok given) (hmulti : given.multi = false) :
    r.take .calculate "--multi" = .ok ⟨{ given with multi := true }, .nothing⟩ := by
  have hmeet : r.take .calculate "--multi" = r.meet .calculate .multi none := by rfl
  rw [hmeet, meet, hsettled]
  simp only [Opt.takesValue, Opt.valueName?, Option.isSome_none, Bool.false_eq_true, if_false]
  simp [bind, Except.bind, pure, Except.pure, Given.setFlag, Given.has, hmulti]

/-- The arguments, none of which is two hyphens alone, give a scope what is given. -/
def ReadAs (scope : Scope) (arguments : List String) (given : Given) : Prop :=
  "--" ∉ arguments ∧
    ∃ r, readScope scope false {} arguments = .ok ⟨r, none⟩ ∧ r.settled = .ok given

/-- A command line that asks for areas: what stands before the command, the options of the command
but for the one that sends all shapes at once, and the texts of shapes. -/
structure AreaLine where
  before : List String
  outer : Given
  options : List String
  given : Given
  texts : List String
  shapes : List Shape
  before_read : ReadAs .program before outer
  options_read : ReadAs .calculate options given
  texts_read : texts.mapM Shape.ofText = .ok shapes
  printConfig_eq : outer.printConfig = false
  multi_eq : given.multi = false
  shapes_eq : given.shapes = []
  texts_ne_nil : texts ≠ []

namespace AreaLine

variable (l : AreaLine) (multi : Bool)

/-- The arguments, with all shapes sent at once or one by one. -/
def arguments : List String :=
  l.before ++ "calculate" :: (l.options ++ ((if multi then ["--multi"] else []) ++ l.texts))

def endpoint : String := (l.given.endpoint <|> Opt.endpoint.default?).getD ""

def invocation : Invocation where
  config := l.given.config <|> l.outer.config
  printConfig := false
  verbose := (l.given.verbose <|> l.outer.verbose).getD 0
  action := some (.calculate l.endpoint multi (l.given.timeout.getD defaultTimeout) l.shapes)

theorem shapes_ne_nil : l.shapes ≠ [] := by
  intro hnil
  obtain ⟨text, texts, htexts⟩ := List.exists_cons_of_ne_nil l.texts_ne_nil
  have hread := l.texts_read
  rw [htexts] at hread
  obtain ⟨shape, rest, -, -, hshapes⟩ := exists_of_mapM_cons hread
  rw [hnil] at hshapes
  contradiction

/-- The command reads its options and the shapes. -/
theorem readCommand_calculate :
    readCommand .calculate (l.options ++ ((if multi then ["--multi"] else []) ++ l.texts)) =
      .ok ({ l.given with multi, shapes := l.shapes }, (l.invocation multi).action) := by
  obtain ⟨hhyphens, r, hoptions, hsettled⟩ := l.options_read
  obtain ⟨last, hline, hgiven⟩ : ∃ last,
      readScope .calculate false r ((if multi then ["--multi"] else []) ++ l.texts) =
        .ok ⟨last, none⟩ ∧ last.settled = .ok { l.given with multi, shapes := l.shapes } := by
    cases multi with
    | false =>
      obtain ⟨last, hline, hgiven⟩ := readScope_texts hsettled l.texts_read
      exact ⟨last, hline, by rw [hgiven, l.shapes_eq, ← l.multi_eq, List.nil_append]⟩
    | true =>
      have hflag : Reading.settled ⟨{ l.given with multi := true }, .nothing⟩ =
          .ok { l.given with multi := true } := rfl
      obtain ⟨last, hline, hgiven⟩ := readScope_texts hflag l.texts_read
      refine ⟨last, ?_, by rw [hgiven, l.shapes_eq, List.nil_append]⟩
      rw [if_pos rfl, List.singleton_append, readScope_cons rfl (by decide),
        Reading.take_multi hsettled l.multi_eq]
      exact hline
  have hshapes : l.shapes.isEmpty = false := List.isEmpty_eq_false_iff.2 l.shapes_ne_nil
  simp only [readCommand, reduceCtorEq, if_false, readScope_append hoptions hhyphens, hline, hgiven,
    bind, Except.bind, pure, Except.pure, hshapes, Bool.false_eq_true]
  rfl

theorem ofArguments : Invocation.ofArguments (l.arguments multi) = .ok (l.invocation multi) := by
  obtain ⟨hhyphens, r, hbefore, hsettled⟩ := l.before_read
  have hcommand : r.command? .program "calculate" = some .calculate := by
    rw [Reading.command?, Reading.awaitsValue_of_settled hsettled]
    rfl
  rw [Invocation.ofArguments, arguments, readScope_append hbefore hhyphens,
    readScope_command hcommand]
  simp only [bind, Except.bind, readCommand_calculate, hsettled, l.printConfig_eq]
  rfl

end AreaLine

end Command

end Planimeter
