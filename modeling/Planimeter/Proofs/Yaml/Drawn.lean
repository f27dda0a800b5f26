import Planimeter.Proofs.Yaml.Readers
import Planimeter.Proofs.Yaml.Steps
/-!
# Where the texts of events come from

The text of every scalar among the events of a document is that of a scalar among the tokens, or it
is empty, where a node is not written. What holds of those texts is carried from the tokens to the
events, and over the aliases.
-/
namespace Planimeter.Yaml

theorem texts_of_suffix {ls ls' : List Lexeme} (h : ls <:+ ls') {x : List Char}
    (hx : x ∈ texts ls) : x ∈ texts ls' := by
  obtain ⟨front, rfl⟩ := h
  rw [texts_append]
  exact List.mem_append_right _ hx

namespace Event

variable {ref : Type} {P : List Char → Prop}

/-- The text of a scalar satisfies `P`. -/
def Drawn (P : List Char → Prop) : Event ref → Prop
  | .scalar _ text _ => P text
  | _ => True

/-- The texts of what was made of some tokens and of those that are left satisfy `P`. -/
structure Move.Drawn (P : List Char → Prop) (m : Move) : Prop where
  events : ∀ e ∈ m.events, e.1.Drawn P
  tokens : ∀ x ∈ texts m.tokens, P x

section

variable {tokens : List Lexeme}

theorem yields_peek : Yields (fun front => ∃ rest, tokens = front :: rest) (peek tokens) := by
  cases tokens with
  | nil => exact Yields.error
  | cons l rest => exact Yields.ok ⟨rest, rfl⟩

theorem properties_suffix (tokens : List Lexeme) : (properties tokens).2.2 <:+ tokens := by
  unfold properties
  split
  · exact (List.suffix_cons _ _).trans (List.suffix_cons _ _)
  · exact List.suffix_cons _ _
  · exact (List.suffix_cons _ _).trans (List.suffix_cons _ _)
  · exact List.suffix_cons _ _
  · exact List.suffix_refl _

variable (hP : ∀ x ∈ texts tokens, P x) (hnil : P [])

include hP

/-- A move that makes no scalar. -/
theorem Move.drawn {events : List (PlacedEvent (List Char))} {next : List Expected}
    {handles : Handles} {rest : List Lexeme} (hrest : rest <:+ tokens)
    (hevents : ∀ e ∈ events, e.1.Drawn P) : Move.Drawn P ⟨events, next, handles, rest⟩ :=
  ⟨hevents, fun x hx => hP x (texts_of_suffix hrest hx)⟩

include hnil

theorem drawn_nodeMove (block unindented : Bool) (handles : Handles) :
    Yields (Move.Drawn P) (nodeMove block unindented handles tokens) := by
  refine Yields.after fun first => ?_
  dsimp only
  split
  · next name m rest => exact Yields.ok (Move.drawn hP (List.suffix_cons _ _) (by simp [Drawn]))
  · have hsuffix := properties_suffix tokens
    obtain ⟨⟨anchor, tag, rest⟩, hproperties⟩ : ∃ r, properties tokens = r := ⟨_, rfl⟩
    rw [hproperties] at hsuffix ⊢
    dsimp only at hsuffix ⊢
    refine Yields.bind yields_peek fun front ⟨tail, hfront⟩ => Yields.after fun tag => ?_
    have htail : rest.tail <:+ tokens := (List.tail_suffix rest).trans hsuffix
    split
    · next text style hscalar =>
      refine Yields.ok (Move.drawn hP htail ?_)
      have htext : text ∈ texts tokens := by
        refine texts_of_suffix hsuffix ?_
        rw [hfront]
        exact List.mem_filterMap.2 ⟨front, List.mem_cons_self, by rw [hscalar]; rfl⟩
      simpa [Drawn] using hP text htext
    · exact Yields.ok (Move.drawn hP htail (by simp [Drawn]))
    · exact Yields.ok (Move.drawn hP htail (by simp [Drawn]))
    · refine Yields.ite (fun _ => Yields.ok (Move.drawn hP hsuffix (by simp [Drawn]))) fun _ => ?_
      refine Yields.ite (fun _ => Yields.ok (Move.drawn hP htail (by simp [Drawn]))) fun _ => ?_
      refine Yields.ite (fun _ => Yields.ok (Move.drawn hP htail (by simp [Drawn]))) fun _ => ?_
      exact Yields.ite (fun _ => Yields.ok (Move.drawn hP hsuffix (by simpa [Drawn] using hnil)))
        fun _ => Yields.error

theorem drawn_nodeUnless {rest : List Lexeme} (hrest : rest <:+ tokens) (ends : List Token)
    (block unindented : Bool) (next : List Expected) (handles : Handles) :
    Yields (Move.Drawn P) (nodeUnless ends block unindented next handles rest) := by
  refine Yields.after fun front => Yields.ite (fun _ => ?_) fun _ => ?_
  · exact Yields.ok (Move.drawn hP hrest (by simpa [emptyScalar, Drawn] using hnil))
  · exact Yields.ok (Move.drawn hP hrest (by simp))

omit hP hnil in
theorem suffix_directives (hasVersion : Bool) (handles : Handles) (tokens : List Lexeme) :
    Yields (fun r => r.2 <:+ tokens) (directives hasVersion handles tokens) := by
  fun_induction directives hasVersion handles tokens with
  | case1 | case2 | case4 => exact Yields.error
  | case3 _ _ _ _ _ _ _ _ ih => exact Yields.mono ih fun _ h => h.trans (List.suffix_cons _ _)
  | case5 _ _ _ _ _ _ _ ih => exact Yields.mono ih fun _ h => h.trans (List.suffix_cons _ _)
  | case6 => exact Yields.ok (List.suffix_refl _)

omit hP hnil in
theorem suffix_separator (context : Context) (problem : Problem) (start : Mark) (isFirst : Bool)
    (tokens : List Lexeme) :
    Yields (· <:+ tokens) (separator context problem start isFirst tokens) := by
  refine Yields.ite (fun _ => Yields.ok (List.suffix_refl _)) fun _ => Yields.after fun front => ?_
  exact Yields.ite (fun _ => Yields.ok (List.tail_suffix _)) fun _ => Yields.error

omit hnil in
theorem drawn_documentMove (isFirst : Bool) :
    Yields (Move.Drawn P) (documentMove isFirst tokens) := by
  have hskip : (if isFirst then tokens
      else tokens.dropWhile fun l => l.token = .documentEnd) <:+ tokens := by
    split
    · exact List.suffix_refl _
    · exact List.dropWhile_suffix _
  refine Yields.after fun front => Yields.ite (fun _ => ?_) fun _ => ?_
  · exact Yields.ok ⟨by simp, by simp⟩
  · refine Yields.ite (fun _ => Yields.ok (Move.drawn hP hskip (by simp))) fun _ => ?_
    refine Yields.bind (suffix_directives false [] _) fun (handles, rest) hrest => ?_
    refine Yields.after fun front => Yields.ite (fun _ => Yields.error) fun _ => ?_
    exact Yields.ok (Move.drawn hP (((List.tail_suffix rest).trans hrest).trans hskip) (by simp))

theorem drawn_valueMove (ends : List Token) (block : Bool) (handles : Handles) :
    Yields (Move.Drawn P) (valueMove ends block handles tokens) := by
  refine Yields.after fun front => Yields.ite (fun _ => ?_) fun _ => ?_
  · exact drawn_nodeUnless hP hnil (List.tail_suffix tokens) _ _ _ _ _
  · exact Yields.ok
      (Move.drawn hP (List.suffix_refl tokens) (by simpa [emptyScalar, Drawn] using hnil))

/-- What is expected does not matter: each move makes no scalar, or an empty one, or that of a
node. -/
theorem drawn_step (handles : Handles) (expected : Expected) :
    Yields (Move.Drawn P) (step handles tokens expected) := by
  have hrefl := List.suffix_refl tokens
  have htail := List.tail_suffix tokens
  have hsame {events next} (hevents : ∀ e ∈ events, e.1.Drawn P) :
      Yields (Move.Drawn P) (.ok ⟨events, next, handles, tokens⟩ : Except Halt Move) :=
    Yields.ok (Move.drawn hP hrefl hevents)
  have hnext {events next} (hevents : ∀ e ∈ events, e.1.Drawn P) :
      Yields (Move.Drawn P) (.ok ⟨events, next, handles, tokens.tail⟩ : Except Halt Move) :=
    Yields.ok (Move.drawn hP htail hevents)
  have hempty (m : Mark) : ∀ e ∈ [emptyScalar m], e.1.Drawn P := by
    simpa [emptyScalar, Drawn] using hnil
  have hunless (ends : List Token) (block unindented : Bool) (next : List Expected) :=
    drawn_nodeUnless hP hnil htail ends block unindented next handles
  cases expected with
  | document isFirst => exact drawn_documentMove hP isFirst
  | documentContent =>
    refine Yields.after fun front => Yields.ite (fun _ => hsame (hempty _)) fun _ => ?_
    exact hsame (by simp)
  | documentEnd =>
    refine Yields.after fun front => Yields.ok ?_
    refine Move.drawn hP ?_ (by simp [Drawn])
    split
    · exact htail
    · exact hrefl
  | node block unindented => exact drawn_nodeMove hP hnil block unindented handles
  | blockEntry start =>
    refine Yields.after fun front => ?_
    split
    · exact hunless _ _ _ _
    · exact hnext (by simp [Drawn])
    · exact Yields.error
  | unindentedEntry =>
    refine Yields.after fun front => Yields.ite (fun _ => hunless _ _ _ _) fun _ => ?_
    exact hsame (by simp [Drawn])
  | blockKey start =>
    refine Yields.after fun front => ?_
    split
    · exact hunless _ _ _ _
    · exact hnext (by simp [Drawn])
    · exact Yields.error
  | blockValue => exact drawn_valueMove hP hnil _ _ _
  | flowEntry start isFirst =>
    refine Yields.after fun front => Yields.ite (fun _ => hnext (by simp [Drawn])) fun _ => ?_
    refine Yields.bind (suffix_separator _ _ start isFirst tokens) fun rest hrest => ?_
    refine Yields.after fun front => ?_
    have htail := (List.tail_suffix rest).trans hrest
    split
    · exact Yields.ok (Move.drawn hP htail (by simp [Drawn]))
    · exact Yields.ok (Move.drawn hP htail (by simp [Drawn]))
    · exact Yields.ok (Move.drawn hP hrest (by simp))
  | pairKey =>
    refine Yields.after fun front => ?_
    split
    · exact hnext (hempty _)
    · exact hnext (hempty _)
    · exact hnext (hempty _)
    · exact hsame (by simp)
  | pairValue => exact drawn_valueMove hP hnil _ _ _
  | pairEnd => exact Yields.after fun front => hsame (by simp [Drawn])
  | flowKey start isFirst =>
    refine Yields.after fun front => Yields.ite (fun _ => hnext (by simp [Drawn])) fun _ => ?_
    refine Yields.bind (suffix_separator _ _ start isFirst tokens) fun rest hrest => ?_
    refine Yields.after fun front => ?_
    have htail := (List.tail_suffix rest).trans hrest
    split
    · exact drawn_nodeUnless hP hnil htail _ _ _ _ _
    · exact Yields.ok (Move.drawn hP htail (by simp [Drawn]))
    · exact Yields.ok (Move.drawn hP hrest (by simp))
  | flowValue isEmpty =>
    exact Yields.after fun front => Yields.ite (fun _ => hsame (hempty _)) fun _ =>
      drawn_valueMove hP hnil _ _ _

end

/-- By induction on the steps. -/
theorem drawn_run (hnil : P []) (steps : Nat) (events : List (PlacedEvent (List Char)))
    (stack : List Expected) (handles : Handles) (tokens : List Lexeme)
    (hevents : ∀ e ∈ events, e.1.Drawn P) (htokens : ∀ x ∈ texts tokens, P x) :
    ∀ e ∈ (run steps events stack handles tokens).1, e.1.Drawn P := by
  have hreverse : ∀ e ∈ events.reverse, e.1.Drawn P := by simpa using hevents
  fun_induction run steps events stack handles tokens with
  | case1 | case2 => exact hreverse
  | case3 => exact hreverse
  | case4 steps events expected stack handles tokens m hstep ih =>
    have hmove := (drawn_step htokens hnil handles expected).of_eq hstep
    have hmore : ∀ e ∈ m.events.reverse ++ events, e.1.Drawn P := by
      intro e he
      rcases List.mem_append.1 he with he | he
      · exact hmove.events e (List.mem_reverse.1 he)
      · exact hevents e he
    exact ih hmore hmove.tokens fun e he => hmore e (List.mem_reverse.1 he)

theorem drawn_ofTokens (hnil : P []) {tokens : List Lexeme} (htokens : ∀ x ∈ texts tokens, P x)
    (failure : Option SyntaxError) : ∀ e ∈ (ofTokens tokens failure).1, e.1.Drawn P := by
  have hrun := drawn_run hnil (8 * tokens.length + 8) [] [.document true] defaultHandles tokens
    (by simp) htokens
  rw [ofTokens]
  generalize run _ _ _ _ _ = r at hrun ⊢
  obtain ⟨events, _ | _⟩ := r <;> exact hrun

end Event

namespace Document

variable {P : List Char → Prop}

/-- Resolving aliases leaves the texts. -/
theorem drawn_resolve (failure : Option SyntaxError) (a : Anchors)
    (events : List (PlacedEvent Nat)) (placed : List (PlacedEvent (List Char)))
    (hevents : ∀ e ∈ events, e.1.Drawn P) (hplaced : ∀ e ∈ placed, e.1.Drawn P) :
    ∀ e ∈ (resolve failure a events placed).1.events, e.1.Drawn P := by
  induction placed generalizing a events with
  | nil => simpa [resolve] using hevents
  | cons e placed ih =>
    obtain ⟨event, mark⟩ := e
    obtain ⟨hevent, hrest⟩ := List.forall_mem_cons.1 hplaced
    have hreverse : ∀ e ∈ events.reverse, e.1.Drawn P := by simpa using hevents
    have hadd (a : Anchors) {event : Event Nat} (h : event.Drawn P) :
        ∀ e ∈ (resolve failure a ((event, mark) :: events) placed).1.events, e.1.Drawn P :=
      ih a _ (List.forall_mem_cons.2 ⟨h, hevents⟩) hrest
    cases event with
    | documentEnd => exact hreverse
    | aliasOf name =>
      rw [resolve]
      dsimp only
      split
      · exact hadd _ trivial
      · exact hreverse
    | scalar p text style => exact hadd _ hevent
    | sequenceStart p => exact hadd _ trivial
    | sequenceEnd => exact hadd _ trivial
    | mappingStart p => exact hadd _ trivial
    | mappingEnd => exact hadd _ trivial

end Document

theorem drawn_ofSource {P : String → Prop} (hempty : P "") (source : Source)
    (htexts : ∀ x ∈ texts (tokens source).1, P (String.ofList x)) :
    ∀ e ∈ (Stream.ofSource source).first.events, e.1.Drawn fun cs => P (String.ofList cs) := by
  have hevents := Event.drawn_ofTokens (P := fun cs => P (String.ofList cs)) hempty htexts
    (tokens source).2
  exact Document.drawn_resolve _ {} [] _ (by simp) hevents

end Planimeter.Yaml
