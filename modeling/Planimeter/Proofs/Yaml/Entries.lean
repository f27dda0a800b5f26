import Planimeter.Proofs.Config.Layers
import Planimeter.Proofs.Yaml.File
import Planimeter.Proofs.Yaml.Lines
/-!
# Tables in block style

A document without references whose tokens are those of a mapping in block style is read as a table.
Places do not matter: the events and values of entries are told from their tokens alone, one entry
after the other.
-/
namespace Planimeter.Yaml

/-- The name of an entry, which needs no quotes. -/
structure Name where
  chars : List Char
  goesOn : GoesOn chars
  ne_nil : chars ≠ []
  isName : ∀ c ∈ chars, Yaml.isName c
  length_le : 4 * chars.length ≤ keyLength

theorem Name.goesOn_append (n : Name) (rest : List Char) : GoesOn (n.chars ++ rest) := by
  obtain ⟨c, cs, hcs⟩ := List.exists_cons_of_ne_nil n.ne_nil
  have halpha := n.goesOn
  rw [hcs] at halpha ⊢
  exact halpha

theorem Name.ne_of_not_goesOn (n : Name) {key : String} (h : ¬GoesOn key.toList) :
    String.ofList n.chars ≠ key := by
  rintro rfl
  rw [String.toList_ofList] at h
  exact h n.goesOn

/-- An event that refers to nothing is one of any kind of reference. -/
def Event.lift {ref : Type} : Event Empty → Event ref
  | .scalar p text style => .scalar p text style
  | .sequenceStart p => .sequenceStart p
  | .sequenceEnd => .sequenceEnd
  | .mappingStart p => .mappingStart p
  | .mappingEnd => .mappingEnd
  | .documentEnd => .documentEnd

abbrev PlacedEvent.lift {ref : Type} (e : PlacedEvent Empty) : PlacedEvent ref := (e.1.lift, e.2)

/-- The event does not end the document, and nothing can refer to it. -/
def Event.IsInner : Event Empty → Prop
  | .scalar p _ _ | .sequenceStart p | .mappingStart p => p.anchor = none
  | .sequenceEnd | .mappingEnd => True
  | .documentEnd => False

/-- Resolving references leaves the events of a document that has none as they are. -/
theorem Document.resolve_inner (failure : Option SyntaxError) (placed : List (PlacedEvent Empty))
    (hinner : ∀ e ∈ placed, e.1.IsInner) (events : List (PlacedEvent Nat)) (m : Mark)
    (rest : List (PlacedEvent (List Char))) :
    resolve failure {} events (placed.map PlacedEvent.lift ++ (.documentEnd, m) :: rest) =
      (⟨events.reverse ++ placed.map PlacedEvent.lift, [], none⟩, rest) := by
  induction placed generalizing events with
  | nil => simp [resolve]
  | cons e placed ih =>
    obtain ⟨event, mark⟩ := e
    have hevent := hinner (event, mark) List.mem_cons_self
    have hplaced := ih (fun e he => hinner e (List.mem_cons_of_mem _ he))
      ((event.lift, mark) :: events)
    rw [List.reverse_cons, List.append_assoc] at hplaced
    cases event with
    | aliasOf target => exact target.elim
    | scalar p text style | sequenceStart p | mappingStart p =>
      obtain ⟨_, tag⟩ := p
      obtain rfl := hevent
      exact hplaced
    | sequenceEnd | mappingEnd => exact hplaced
    | documentEnd => exact hevent.elim

/-- An entry of a mapping: its name, and the events and the value of the node behind it. -/
structure Entry where
  name : Name
  node : List (Event Empty)
  value : Value

namespace Entry

variable {entries : List Entry}

def events (e : Entry) : List (Event Empty) := .scalar {} e.name.chars .plain :: e.node

/-- The table of some entries, of which the later count. -/
def table (entries : List Entry) : List (String × Value) :=
  entries.foldl (fun table e => setEntry table (String.ofList e.name.chars) e.value) []

/-- The entry whose value is a mapping of others. -/
def mapping (name : Name) (entries : List Entry) : Entry :=
  ⟨name, .mappingStart {} :: entries.flatMap events ++ [.mappingEnd], .table (table entries)⟩

theorem isInner_events (h : ∀ e ∈ entries, ∀ event ∈ e.node, event.IsInner) :
    ∀ event ∈ entries.flatMap events, event.IsInner := by
  intro event hevent
  obtain ⟨e, he, hmem⟩ := List.mem_flatMap.1 hevent
  rcases List.mem_cons.1 hmem with rfl | hmem
  · rfl
  · exact h e he event hmem

theorem isInner_mapping (name : Name) (h : ∀ e ∈ entries, ∀ event ∈ e.node, event.IsInner) :
    ∀ event ∈ (mapping name entries).node, event.IsInner := by
  intro event hevent
  rw [mapping, List.mem_append, List.mem_cons] at hevent
  rcases hevent with (rfl | hevent) | hevent
  · rfl
  · exact isInner_events h event hevent
  · rw [List.mem_singleton.1 hevent]
    trivial

/-- The table of some entries has their names only. -/
theorem lookup_table {key : String} (h : ∀ e ∈ entries, String.ofList e.name.chars ≠ key) :
    (table entries).lookup key = none := by
  suffices ∀ below : List (String × Value), below.lookup key = none →
      (entries.foldl (fun table e => setEntry table (String.ofList e.name.chars) e.value)
        below).lookup key = none from this [] rfl
  induction entries with
  | nil => exact fun below hbelow => hbelow
  | cons e entries ih =>
    intro below hbelow
    refine ih (fun e he => h e (List.mem_cons_of_mem _ he)) _ ?_
    rw [lookup_setEntry, if_neg (h e List.mem_cons_self).symm, hbelow]

theorem length_le_placed {placed : List (PlacedEvent Empty)}
    (hplaced : placed.map Prod.fst = entries.flatMap events) :
    entries.length ≤ placed.length := by
  have hlength : placed.length = (entries.flatMap events).length := by
    rw [← hplaced, List.length_map]
  rw [hlength]
  clear hplaced hlength
  induction entries with
  | nil => exact Nat.le_refl 0
  | cons e entries ih =>
    simp only [List.flatMap_cons, events, List.length_append, List.length_cons]
    omega

end Entry

namespace Event

/-- Tokens, at whatever places, are entries of a mapping in block style: one step for each token
leads to their events. -/
def Entries (tokens : List Token) (new : List (Event Empty)) : Prop :=
  ∀ lexemes : List Lexeme, lexemes.map Lexeme.token = tokens →
    ∃ placed : List (PlacedEvent Empty), placed.map Prod.fst = new ∧
      ∀ steps events start stack handles rest,
        run (lexemes.length + steps) events (.blockKey start :: stack) handles (lexemes ++ rest) =
          run steps ((placed.map PlacedEvent.lift).reverse ++ events) (.blockKey start :: stack)
            handles rest

variable {tokens tokens' : List Token} {new new' : List (Event Empty)}

theorem entries_nil : Entries [] [] := by
  intro lexemes hlexemes
  obtain rfl := List.map_eq_nil_iff.1 hlexemes
  refine ⟨[], rfl, fun steps events start stack handles rest => ?_⟩
  rw [List.length_nil, Nat.zero_add]
  rfl

theorem Entries.append (h : Entries tokens new) (h' : Entries tokens' new') :
    Entries (tokens ++ tokens') (new ++ new') := by
  intro lexemes hlexemes
  obtain ⟨first, second, rfl, hfirst, hsecond⟩ := List.map_eq_append_iff.1 hlexemes
  obtain ⟨placed, rfl, hrun⟩ := h first hfirst
  obtain ⟨placed', rfl, hrun'⟩ := h' second hsecond
  refine ⟨placed ++ placed', List.map_append, fun steps events start stack handles rest => ?_⟩
  rw [List.length_append, List.append_assoc, Nat.add_assoc, hrun, hrun', List.map_append,
    List.reverse_append, List.append_assoc]

theorem entries_flatMap {α : Type} {tokens : α → List Token} {new : α → List (Event Empty)}
    (h : ∀ a, Entries (tokens a) (new a)) (as : List α) :
    Entries (as.flatMap tokens) (as.flatMap new) := by
  induction as with
  | nil => exact entries_nil
  | cons a as ih => exact (h a).append ih

/-- An entry whose value is a scalar. -/
theorem entries_scalar (name text : List Char) (style : Style) :
    Entries [.key, .scalar name .plain, .value, .scalar text style]
      [.scalar {} name .plain, .scalar {} text style] := by
  intro lexemes hlexemes
  simp only [List.map_eq_cons_iff, List.map_eq_nil_iff] at hlexemes
  obtain ⟨⟨_, m₁⟩, _, rfl, rfl, ⟨_, m₂⟩, _, rfl, rfl, ⟨_, m₃⟩, _, rfl, rfl, ⟨_, m₄⟩, _, rfl, rfl,
    rfl⟩ := hlexemes
  refine ⟨[(_, m₂), (_, m₄)], rfl, fun steps events start stack handles rest => ?_⟩
  rw [Nat.add_comm]
  rfl

/-- An entry whose value is a mapping of entries. -/
theorem entries_mapping (name : List Char) (h : Entries tokens new) :
    Entries ([.key, .scalar name .plain, .value, .blockMappingStart] ++ tokens ++ [.blockEnd])
      ([.scalar {} name .plain, .mappingStart {}] ++ new ++ [.mappingEnd]) := by
  intro lexemes hlexemes
  obtain ⟨front, last, rfl, hfront, hlast⟩ := List.map_eq_append_iff.1 hlexemes
  obtain ⟨front, inner, rfl, hfront, hinner⟩ := List.map_eq_append_iff.1 hfront
  simp only [List.map_eq_cons_iff, List.map_eq_nil_iff] at hfront hlast
  obtain ⟨⟨_, m₁⟩, _, rfl, rfl, ⟨_, m₂⟩, _, rfl, rfl, ⟨_, m₃⟩, _, rfl, rfl, ⟨_, m₄⟩, _, rfl, rfl,
    rfl⟩ := hfront
  obtain ⟨⟨_, m₅⟩, _, rfl, rfl, rfl⟩ := hlast
  obtain ⟨placed, rfl, hrun⟩ := h inner hinner
  refine ⟨[(.scalar {} name .plain, m₂), (.mappingStart {}, m₄)] ++ placed ++ [(.mappingEnd, m₅)],
    by simp, fun steps events start stack handles rest => ?_⟩
  have hinside := hrun (1 + steps)
    ((.mappingStart {}, m₄) :: (.scalar {} name .plain, m₂) :: events) m₄ (.blockKey start :: stack)
    handles (⟨.blockEnd, m₅⟩ :: rest)
  have hsteps : ([⟨.key, m₁⟩, ⟨.scalar name .plain, m₂⟩, ⟨.value, m₃⟩, ⟨.blockMappingStart, m₄⟩] ++
      inner ++ [⟨.blockEnd, m₅⟩] : List Lexeme).length + steps =
        inner.length + (1 + steps) + 4 := by
    simp
    omega
  have hend : run (1 + steps) ((placed.map PlacedEvent.lift).reverse ++
      ((.mappingStart {}, m₄) :: (.scalar {} name .plain, m₂) :: events))
      (.blockKey m₄ :: .blockKey start :: stack) handles (⟨.blockEnd, m₅⟩ :: rest) =
        run steps ((.mappingEnd, m₅) :: ((placed.map PlacedEvent.lift).reverse ++
          ((.mappingStart {}, m₄) :: (.scalar {} name .plain, m₂) :: events)))
          (.blockKey start :: stack) handles rest := by
    rw [Nat.add_comm]
    rfl
  rw [hsteps, List.append_assoc, List.append_assoc]
  refine Eq.trans ?_ (hinside.trans (hend.trans ?_))
  · rfl
  · simp [PlacedEvent.lift, lift]

/-- The events of a document of entries. -/
theorem ofTokens_entries (h : Entries tokens new) {lexemes : List Lexeme}
    (hlexemes : lexemes.map Lexeme.token = .blockMappingStart :: tokens ++ [.blockEnd, .finish]) :
    ∃ placed : List (PlacedEvent Empty),
      placed.map Prod.fst = .mappingStart {} :: new ++ [.mappingEnd] ∧
      ∃ m, ofTokens lexemes none = (placed.map PlacedEvent.lift ++ [(.documentEnd, m)], none) := by
  obtain ⟨front, last, rfl, hfront, hlast⟩ := List.map_eq_append_iff.1 hlexemes
  simp only [List.map_eq_cons_iff, List.map_eq_nil_iff] at hfront hlast
  obtain ⟨⟨_, m₁⟩, entries, rfl, rfl, hentries⟩ := hfront
  obtain ⟨⟨_, m₂⟩, _, rfl, rfl, ⟨_, m₃⟩, _, rfl, rfl, rfl⟩ := hlast
  obtain ⟨placed, rfl, hrun⟩ := h entries hentries
  refine ⟨(.mappingStart {}, m₁) :: placed ++ [(.mappingEnd, m₂)], by simp, m₃, ?_⟩
  have hsteps : 8 * (⟨.blockMappingStart, m₁⟩ :: entries ++
      [⟨.blockEnd, m₂⟩, ⟨.finish, m₃⟩] : List Lexeme).length + 8 =
        entries.length + (7 * entries.length + 30) + 2 := by
    simp
    omega
  have hstart : run (entries.length + (7 * entries.length + 30) + 2) [] [.document true]
      defaultHandles (⟨.blockMappingStart, m₁⟩ :: entries ++ [⟨.blockEnd, m₂⟩, ⟨.finish, m₃⟩]) =
        run (entries.length + (7 * entries.length + 30)) [(.mappingStart {}, m₁)]
          [.blockKey m₁, .documentEnd, .document false] defaultHandles
          (entries ++ [⟨.blockEnd, m₂⟩, ⟨.finish, m₃⟩]) := rfl
  have hinside := hrun (7 * entries.length + 30) [(.mappingStart {}, m₁)] m₁
    [.documentEnd, .document false] defaultHandles [⟨.blockEnd, m₂⟩, ⟨.finish, m₃⟩]
  have hend : run (7 * entries.length + 30)
      ((placed.map PlacedEvent.lift).reverse ++ [(.mappingStart {}, m₁)])
      [.blockKey m₁, .documentEnd, .document false] defaultHandles
      [⟨.blockEnd, m₂⟩, ⟨.finish, m₃⟩] =
        (((.documentEnd, m₃) :: (.mappingEnd, m₂) ::
          ((placed.map PlacedEvent.lift).reverse ++ [(.mappingStart {}, m₁)])).reverse,
          .ok ()) := rfl
  rw [ofTokens, hsteps, hstart, hinside, hend]
  simp [PlacedEvent.lift, lift]

end Event

namespace Document

variable {d : Document} {node : Path → Events → Reader (Value × Events)} {isInside : Bool}
  {entries : List Entry}

/-- The reader of nodes reads the value of an entry from its events, at whatever places. -/
def Reads (node : Path → Events → Reader (Value × Events)) (e : Entry) : Prop :=
  ∀ placed : List (PlacedEvent Empty), placed.map Prod.fst = e.node → ∀ path rest n,
    (node path (placed.map PlacedEvent.lift ++ rest)).run n = .ok ((e.value, rest), n)

theorem entries_cons (path : Path) (name : Name) (table : List (String × Value)) (steps : Nat)
    (m : Mark) (events : Events) :
    d.entries isInside node path table (steps + 1) ((.scalar {} name.chars .plain, m) :: events) =
      node (.entry path (String.ofList name.chars)) events >>= fun read =>
        d.entries isInside node path (setEntry table (String.ofList name.chars) read.1) steps
          read.2 := by
  have hnumber : ¬GoesOn numberKey.toList := by decide
  change (if isInside ∧ String.ofList name.chars = numberKey then _ else _) = _
  rw [if_neg fun h => name.ne_of_not_goesOn hnumber h.2]
  rfl

/-- Entries are read one by one, each over the table of those before it. -/
theorem run_entries (isInside : Bool) (h : ∀ e ∈ entries, Reads node e)
    {placed : List (PlacedEvent Empty)}
    (hplaced : placed.map Prod.fst = entries.flatMap Entry.events) (path : Path)
    (table : List (String × Value)) {steps : Nat} (hsteps : entries.length ≤ steps) (m : Mark)
    (rest : Events) (n : Nat) :
    (d.entries isInside node path table steps
        (placed.map PlacedEvent.lift ++ (.mappingEnd, m) :: rest)).run n =
      .ok ((entries.foldl (fun table e => setEntry table (String.ofList e.name.chars) e.value)
        table, rest), n) := by
  induction entries generalizing placed table steps with
  | nil =>
    obtain rfl := List.map_eq_nil_iff.1 hplaced
    cases steps <;> rfl
  | cons e entries ih =>
    obtain ⟨steps, rfl⟩ :=
      Nat.exists_eq_add_of_le' (Nat.le_trans (Nat.succ_pos entries.length) hsteps)
    obtain ⟨⟨_, mark⟩, placed, rfl, rfl, hbehind⟩ := List.map_eq_cons_iff.1 hplaced
    obtain ⟨front, back, rfl, hfront, hback⟩ := List.map_eq_append_iff.1 hbehind
    have hnode := h e List.mem_cons_self front hfront (.entry path (String.ofList e.name.chars))
      (back.map PlacedEvent.lift ++ (.mappingEnd, m) :: rest) n
    have hrest := ih (fun e' he' => h e' (List.mem_cons_of_mem e he')) hback
      (setEntry table (String.ofList e.name.chars) e.value) (Nat.le_of_succ_le_succ hsteps)
    rw [List.map_cons, List.cons_append, List.map_append, List.append_assoc]
    refine (congrArg (StateT.run · n) (entries_cons path e.name table steps mark _)).trans ?_
    rw [StateT.run_bind, hnode]
    exact hrest

/-- The events of a mapping of entries, from its start to its end. -/
theorem exists_placed_mapping {placed : List (PlacedEvent Empty)}
    (hplaced : placed.map Prod.fst =
      .mappingStart {} :: entries.flatMap Entry.events ++ [.mappingEnd]) (rest : Events) :
    ∃ (inner : List (PlacedEvent Empty)) (m m' : Mark),
      inner.map Prod.fst = entries.flatMap Entry.events ∧
      entries.length ≤ (inner.map PlacedEvent.lift ++ (.mappingEnd, m') :: rest : Events).length ∧
      placed.map PlacedEvent.lift ++ rest =
        (.mappingStart {}, m) :: (inner.map PlacedEvent.lift ++ (.mappingEnd, m') :: rest) := by
  obtain ⟨front, last, rfl, hfront, hlast⟩ := List.map_eq_append_iff.1 hplaced
  obtain ⟨⟨_, m⟩, inner, rfl, rfl, hinner⟩ := List.map_eq_cons_iff.1 hfront
  simp only [List.map_eq_cons_iff, List.map_eq_nil_iff] at hlast
  obtain ⟨⟨_, m'⟩, _, rfl, rfl, rfl⟩ := hlast
  have hlength := Entry.length_le_placed hinner
  refine ⟨inner, m, m', hinner, ?_, by simp [PlacedEvent.lift, Event.lift]⟩
  rw [List.length_append, List.length_map]
  omega

/-- A mapping of entries is read as the table of them. -/
theorem reads_mapping (name : Name) {depth : Nat} (h : ∀ e ∈ entries, Reads (d.value depth) e) :
    Reads (d.value (depth + 1)) (.mapping name entries) := by
  intro placed hplaced path rest n
  obtain ⟨inner, m, m', hinner, hlength, hwhole⟩ := exists_placed_mapping hplaced rest
  have hentries := run_entries (d := d) true h hinner path [] hlength m' rest n
  have hsubstitute : ¬GoesOn substituteKey.toList := by decide
  have hnone : (Entry.table entries).lookup substituteKey = none :=
    Entry.lookup_table fun e _ => e.name.ne_of_not_goesOn hsubstitute
  rw [hwhole]
  change StateT.run (d.entries true (d.value depth) path [] _ _ >>= _) n = _
  rw [StateT.run_bind, hentries]
  change Except.ok ((((Entry.table entries).lookup substituteKey).getD _, rest), n) = _
  rw [hnone]
  rfl

/-- A document of entries is read as the table of them. -/
theorem run_table (h : ∀ e ∈ entries, Reads (d.value (depthLimit - 1)) e)
    {placed : List (PlacedEvent Empty)} (hevents : d.events = placed.map PlacedEvent.lift)
    (hplaced : placed.map Prod.fst =
      .mappingStart {} :: entries.flatMap Entry.events ++ [.mappingEnd]) (n : Nat) :
    d.table.run n = .ok (Entry.table entries, n) := by
  obtain ⟨inner, m, m', hinner, hlength, hwhole⟩ := exists_placed_mapping hplaced []
  have hentries := run_entries (d := d) false h hinner .root [] hlength m' [] n
  rw [List.append_nil] at hwhole
  rw [table, hevents, hwhole]
  change StateT.run (d.entries false (d.value (depthLimit - 1)) .root [] _ _ >>= _) n = _
  rw [StateT.run_bind, hentries]
  rfl

end Document

@[simp] theorem firstForbidden?_eq_none_iff {cs : List Char} (offset : Nat) :
    firstForbidden? offset cs = none ↔ ∀ c ∈ cs, isForbidden c = false := by
  induction cs generalizing offset with
  | nil => simp [firstForbidden?]
  | cons c cs ih =>
    rw [firstForbidden?, List.forall_mem_cons]
    cases isForbidden c with
    | false => simpa using ih _
    | true => simp

/-- A text whose tokens are those of a mapping of entries is read as the table of them. -/
theorem read_entries {entries : List Entry} {inner : List Token} {lexemes : List Lexeme}
    (hentries : Event.Entries inner (entries.flatMap Entry.events))
    (hinner : ∀ e ∈ entries, ∀ event ∈ e.node, event.IsInner)
    (hreads : ∀ (d : Document), ∀ e ∈ entries, Document.Reads (d.value (depthLimit - 1)) e)
    (hlexemes : lexemes.map Lexeme.token = .blockMappingStart :: inner ++ [.blockEnd, .finish])
    {cs : List Char} (hforbidden : ∀ c ∈ cs, isForbidden c = false)
    (htokens : tokens (.ofText cs) = (lexemes, none)) :
    read (String.ofList cs) = .ok (Entry.table entries) := by
  obtain ⟨placed, hplaced, m, hevents⟩ := Event.ofTokens_entries hentries hlexemes
  have hplacedInner : ∀ e ∈ placed, e.1.IsInner := by
    intro e he
    have hmem : e.1 ∈ placed.map Prod.fst := List.mem_map_of_mem he
    rw [hplaced, List.mem_append, List.mem_cons] at hmem
    rcases hmem with (heq | hmem) | hmem
    · rw [heq]
      rfl
    · exact Entry.isInner_events hinner _ hmem
    · rw [List.mem_singleton.1 hmem]
      trivial
  have hresolve := Document.resolve_inner none placed hplacedInner [] m []
  have hstream : Stream.ofSource (.ofText cs) =
      ⟨⟨placed.map PlacedEvent.lift, [], none⟩, false⟩ := by
    simp only [Stream.ofSource, htokens, hevents, hresolve]
    rfl
  rw [read_eq_ok_iff, String.toList_ofList, hstream]
  exact ⟨(firstForbidden?_eq_none_iff 0).2 hforbidden,
    ⟨0, Document.run_table (hreads _) rfl hplaced 0⟩, rfl, rfl⟩

end Planimeter.Yaml
