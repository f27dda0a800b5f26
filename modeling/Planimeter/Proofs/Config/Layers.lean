import Planimeter.Config.Layer
import Mathlib.Data.List.Basic
/-!
# What layers hold at a path

A path of names leads through tables to a value. Laid over each other, the layers hold at a path
what the highest of those holds that hold anything there, as long as no layer ends the path early
with a value or goes on beyond it with a table. The step is one layer over another, by induction on
the path; a whole pile is the induction over its layers.
-/
namespace Planimeter

section

variable {α : Type}

@[simp] theorem lookup_cons_eq (name : String) (a : α) (entries : List (String × α))
    (other : String) :
    ((name, a) :: entries).lookup other =
      if other = name then some a else entries.lookup other := by
  by_cases h : other = name
  · rw [if_pos h, h, List.lookup_cons_self]
  · rw [if_neg h, List.lookup_cons, beq_eq_false_iff_ne.2 h]

theorem mem_of_lookup {entries : List (String × α)} {name : String} {a : α}
    (h : entries.lookup name = some a) : (name, a) ∈ entries := by
  obtain ⟨before, after, rfl, -⟩ := List.lookup_eq_some_iff.1 h
  exact List.mem_append_right _ List.mem_cons_self

@[simp] theorem lookup_setEntry (entries : List (String × α)) (name : String) (a : α)
    (other : String) :
    (setEntry entries name a).lookup other =
      if other = name then some a else entries.lookup other := by
  induction entries with
  | nil => rw [setEntry, lookup_cons_eq]
  | cons e rest ih =>
    obtain ⟨first, b⟩ := e
    rw [setEntry, lookup_cons_eq first b]
    split
    · next hfirst =>
      subst hfirst
      rw [lookup_cons_eq]
      split <;> rfl
    · next hfirst =>
      rw [lookup_cons_eq, ih]
      by_cases h : other = first
      · rw [if_pos h, if_neg fun hname => hfirst (h ▸ hname), if_pos h]
      · rw [if_neg h, if_neg h]

@[simp] theorem names_setEntry (entries : List (String × α)) (name : String) (a : α) :
    (setEntry entries name a).map Prod.fst =
      if name ∈ entries.map Prod.fst then entries.map Prod.fst
      else entries.map Prod.fst ++ [name] := by
  induction entries with
  | nil => simp [setEntry]
  | cons e rest ih =>
    obtain ⟨first, b⟩ := e
    by_cases hfirst : first = name
    · simp [setEntry, hfirst]
    · by_cases hrest : name ∈ rest.map Prod.fst
      · simp only [setEntry, if_neg hfirst, List.map_cons, ih, if_pos hrest,
          if_pos (List.mem_cons_of_mem first hrest)]
      · have hname : name ∉ first :: rest.map Prod.fst := by
          simp only [List.mem_cons, not_or]
          exact ⟨Ne.symm hfirst, hrest⟩
        simp only [setEntry, if_neg hfirst, List.map_cons, ih, if_neg hrest, if_neg hname,
          List.cons_append]

theorem nodup_setEntry {entries : List (String × α)} (h : (entries.map Prod.fst).Nodup)
    (name : String) (a : α) : ((setEntry entries name a).map Prod.fst).Nodup := by
  rw [names_setEntry]
  split
  · exact h
  · next hname => exact List.nodup_append.2 ⟨h, by simp, by grind⟩

theorem mem_setEntry {entries : List (String × α)} {name : String} {a : α} {e : String × α}
    (h : e ∈ setEntry entries name a) : e = (name, a) ∨ e ∈ entries := by
  induction entries with
  | nil => simpa [setEntry] using h
  | cons first rest ih =>
    rw [setEntry] at h
    split at h
    · exact (List.mem_cons.1 h).imp_right (List.mem_cons_of_mem _)
    · rcases List.mem_cons.1 h with rfl | h
      · exact .inr List.mem_cons_self
      · exact (ih h).imp_right (List.mem_cons_of_mem _)

end

namespace Value

/-- What a path of names leads to. -/
def at? : List String → Value → Option Value
  | [], v => some v
  | name :: path, table entries => (entries.lookup name).bind (at? path)
  | _ :: _, _ => none

/-- The value behind a path of names. -/
def under (v : Value) (path : List String) : Value :=
  path.foldr (fun name v => table [(name, v)]) v

/-- Every table names each of its entries differently. -/
inductive Distinct : Value → Prop where
  | table (entries : List (String × Value)) (names : (entries.map Prod.fst).Nodup)
      (values : ∀ e ∈ entries, Distinct e.2) : Distinct (table entries)
  | other (v : Value) (notTable : ∀ entries, v ≠ table entries) : Distinct v

/-- A path, as far as it goes, leads through tables and not to one. -/
def Fits : List String → Value → Prop
  | [], v => ∀ entries, v ≠ table entries
  | name :: path, table entries => ∀ v, entries.lookup name = some v → Fits path v
  | _ :: _, _ => False

end Value

namespace Setting

/-- What a path of names leads to. -/
def at? : List String → Setting → Option Setting
  | [], s => some s
  | name :: path, table _ entries => (entries.lookup name).bind (at? path)
  | _ :: _, value _ _ => none

inductive Distinct : Setting → Prop where
  | table (o : Origin) (entries : List (String × Setting)) (names : (entries.map Prod.fst).Nodup)
      (settings : ∀ e ∈ entries, Distinct e.2) : Distinct (table o entries)
  | value (o : Origin) (v : Value) : Distinct (value o v)

def Fits : List String → Setting → Prop
  | [], value _ _ => True
  | [], table _ _ => False
  | name :: path, table _ entries => ∀ s, entries.lookup name = some s → Fits path s
  | _ :: _, value _ _ => False

theorem ofValue_of_ne_table {v : Value} (h : ∀ entries, v ≠ .table entries) (o : Origin) :
    ofValue o v = value o v := by
  cases v with
  | table entries => exact absurd rfl (h entries)
  | _ => simp [ofValue]

theorem ofEntries_eq_map (o : Origin) (entries : List (String × Value)) :
    ofEntries o entries = entries.map fun e => (e.1, ofValue o e.2) := by
  induction entries with
  | nil => simp [ofEntries]
  | cons e rest ih => simp [ofEntries, ih]

@[simp] theorem lookup_ofEntries (o : Origin) (entries : List (String × Value)) (name : String) :
    (ofEntries o entries).lookup name = (entries.lookup name).map (ofValue o) := by
  rw [ofEntries_eq_map]
  induction entries with
  | nil => rfl
  | cons e rest ih =>
    rw [List.map_cons, lookup_cons_eq, ih, lookup_cons_eq e.1 e.2]
    split <;> rfl

@[simp] theorem at?_ofValue (path : List String) (o : Origin) (v : Value) :
    (ofValue o v).at? path = (v.at? path).map (ofValue o) := by
  induction path generalizing v with
  | nil => simp [at?, Value.at?]
  | cons name path ih =>
    cases v with
    | table entries =>
      rw [ofValue, at?, Value.at?, lookup_ofEntries]
      cases entries.lookup name with
      | none => rfl
      | some v => exact ih v
    | _ => simp [ofValue, at?, Value.at?]

theorem Fits.ofValue {path : List String} {v : Value} (h : v.Fits path) (o : Origin) :
    (ofValue o v).Fits path := by
  induction path generalizing v with
  | nil =>
    rw [ofValue_of_ne_table h]
    trivial
  | cons name path ih =>
    cases v with
    | table entries =>
      rw [Setting.ofValue]
      intro s hs
      rw [lookup_ofEntries] at hs
      obtain ⟨v, hv, rfl⟩ := Option.map_eq_some_iff.1 hs
      exact ih (h v hv)
    | _ => exact h.elim

theorem Distinct.ofValue {v : Value} (h : v.Distinct) (o : Origin) : (ofValue o v).Distinct := by
  induction h with
  | table entries names values ih =>
    rw [Setting.ofValue, ofEntries_eq_map]
    refine .table o _ ?_ fun e he => ?_
    · rwa [List.map_map]
    · obtain ⟨e, hmem, rfl⟩ := List.mem_map.1 he
      exact ih e hmem
  | other v notTable =>
    rw [ofValue_of_ne_table notTable]
    exact .value o v

theorem atPath_eq_ofValue (o : Origin) (v : Value) (path : List String) :
    atPath o v path = ofValue o (v.under path) := by
  induction path with
  | nil => rfl
  | cons name path ih =>
    rw [Value.under, List.foldr_cons, ← Value.under, Setting.ofValue, ofEntries, ofEntries, ← ih]
    rfl

/-- A named setting over others is laid over the one of its name. -/
theorem lookup_overlayEntries (below entries : List (String × Setting))
    (hnames : (entries.map Prod.fst).Nodup) (name : String) :
    (overlayEntries below entries).lookup name =
      match entries.lookup name, below.lookup name with
      | some s, some lower => some (overlay lower s)
      | some s, none => some s
      | none, lower => lower := by
  induction entries generalizing below with
  | nil => simp [overlayEntries]
  | cons e rest ih =>
    obtain ⟨first, s⟩ := e
    rw [List.map_cons, List.nodup_cons] at hnames
    rw [overlayEntries, ih _ hnames.2, lookup_setEntry]
    by_cases h : name = first
    · subst h
      have hrest : rest.lookup name = none := by
        refine List.lookup_eq_none_iff.2 fun e he => bne_iff_ne.2 fun heq => hnames.1 ?_
        exact List.mem_map.2 ⟨e, he, heq.symm⟩
      rw [hrest, lookup_cons_eq, if_pos rfl, if_pos rfl]
      cases below.lookup name <;> rfl
    · rw [lookup_cons_eq, if_neg h, if_neg h]

/-- The upper of two layers decides about a path if it holds anything there. -/
theorem at?_overlay {path : List String} {lower upper : Setting} (hlower : lower.Fits path)
    (hupper : upper.Fits path) (hdistinct : upper.Distinct) :
    (overlay lower upper).at? path = (upper.at? path).or (lower.at? path) ∧
      (overlay lower upper).Fits path := by
  induction path generalizing lower upper with
  | nil =>
    cases upper with
    | value o v =>
      rw [overlay]
      · exact ⟨rfl, trivial⟩
      · simp
    | table o entries => exact hupper.elim
  | cons name path ih =>
    cases hdistinct with
    | value o v => exact hupper.elim
    | table o entries names settings =>
      cases lower with
      | value o' v => exact hlower.elim
      | table o' below =>
        have hlookup := lookup_overlayEntries below entries names name
        simp only [overlay, at?, Fits]
        simp only [Fits] at hlower hupper
        cases hs : entries.lookup name with
        | none =>
          rw [hs] at hlookup
          rw [hlookup]
          exact ⟨rfl, hlower⟩
        | some s =>
          have hmem : (name, s) ∈ entries := mem_of_lookup hs
          cases hb : below.lookup name with
          | none =>
            rw [hs, hb] at hlookup
            rw [hlookup]
            refine ⟨by simp, fun s' hs' => ?_⟩
            obtain rfl := Option.some.inj hs'
            exact hupper s hs
          | some b =>
            rw [hs, hb] at hlookup
            obtain ⟨hat, hfits⟩ := ih (hlower b hb) (hupper s hs) (settings (name, s) hmem)
            rw [hlookup]
            refine ⟨hat, fun s' hs' => ?_⟩
            obtain rfl := Option.some.inj hs'
            exact hfits

theorem Distinct.overlayEntries {below entries : List (String × Setting)}
    (hnames : (below.map Prod.fst).Nodup) (hbelow : ∀ e ∈ below, e.2.Distinct)
    (hentries : ∀ e ∈ entries, e.2.Distinct ∧ ∀ lower : Setting, lower.Distinct →
      (overlay lower e.2).Distinct) :
    ((overlayEntries below entries).map Prod.fst).Nodup ∧
      ∀ e ∈ overlayEntries below entries, e.2.Distinct := by
  induction entries generalizing below with
  | nil =>
    rw [Setting.overlayEntries]
    exact ⟨hnames, hbelow⟩
  | cons e rest ih =>
    obtain ⟨name, s⟩ := e
    rw [List.forall_mem_cons] at hentries
    rw [Setting.overlayEntries]
    refine ih (nodup_setEntry hnames _ _) (fun e he => ?_) hentries.2
    rcases mem_setEntry he with rfl | he
    · cases hb : below.lookup name with
      | none => exact hentries.1.1
      | some b => exact hentries.1.2 b (hbelow (name, b) (mem_of_lookup hb))
    · exact hbelow e he

theorem Distinct.overlay {lower upper : Setting} (hlower : lower.Distinct)
    (hupper : upper.Distinct) : (overlay lower upper).Distinct := by
  induction hupper generalizing lower with
  | value o v =>
    rw [Setting.overlay]
    · exact .value o v
    · simp
  | table o entries names settings ih =>
    cases hlower with
    | value o' v =>
      rw [Setting.overlay]
      exact .table o entries names settings
    | table o' below names' settings' =>
      obtain ⟨hnodup, hall⟩ := Distinct.overlayEntries names' settings' fun e he =>
        ⟨settings e he, fun _ h => ih e he h⟩
      rw [Setting.overlay]
      exact .table o _ hnodup hall

/-- The highest layer that holds anything at a path decides about it. -/
theorem at?_foldl_overlay {path : List String} {lowest : Setting} (hlowest : lowest.Fits path)
    (layers : List Setting) (h : ∀ s ∈ layers, s.Fits path ∧ s.Distinct) :
    (layers.foldl overlay lowest).at? path =
        (layers.reverse.findSome? (at? path)).or (lowest.at? path) ∧
      (layers.foldl overlay lowest).Fits path := by
  induction layers generalizing lowest with
  | nil => exact ⟨rfl, hlowest⟩
  | cons s layers ih =>
    rw [List.forall_mem_cons] at h
    obtain ⟨hat, hfits⟩ := at?_overlay hlowest h.1.1 h.1.2
    obtain ⟨hfold, hfits⟩ := ih hfits h.2
    refine ⟨?_, hfits⟩
    rw [List.foldl_cons, hfold, hat, List.reverse_cons, List.findSome?_append, Option.or_assoc]
    simp

theorem Distinct.foldl_overlay {lowest : Setting} (hlowest : lowest.Distinct)
    (layers : List Setting) (h : ∀ s ∈ layers, s.Distinct) :
    (layers.foldl Setting.overlay lowest).Distinct := by
  induction layers generalizing lowest with
  | nil => exact hlowest
  | cons s layers ih =>
    rw [List.forall_mem_cons] at h
    exact ih (hlowest.overlay h.1) h.2

end Setting

end Planimeter
