import Planimeter.Proofs.Config.Winners
import Planimeter.Proofs.Yaml.Drawn
/-!
# Where the texts of a configuration come from

Loading makes up no text: each of a configuration is found in the defaults, in the file, or in a
variable, at whatever depth. The texts of a file are those of scalars among its tokens.
-/
namespace Planimeter

/-- The text is found in a value; a character is a text of one. -/
inductive Value.Has (t : String) : Value → Prop
  | text : Has t (.text t)
  | char {c : Char} (h : c.toString = t) : Has t (.char c)
  | list {items : List Value} {v : Value} (hv : v ∈ items) (h : Has t v) : Has t (.list items)
  | table {entries : List (String × Value)} {e : String × Value} (he : e ∈ entries)
    (h : Has t e.2) : Has t (.table entries)

namespace Value

variable {t : String}

@[simp] theorem has_text {u : String} : (text u).Has t ↔ t = u := by
  constructor
  · rintro ⟨⟩
    rfl
  · rintro rfl
    exact .text

@[simp] theorem has_table {entries : List (String × Value)} :
    (table entries).Has t ↔ ∃ e ∈ entries, e.2.Has t := by
  constructor
  · rintro ⟨⟩
    exact ⟨_, ‹_›, ‹_›⟩
  · rintro ⟨e, he, h⟩
    exact .table he h

end Value

/-- The text is found in a setting. -/
inductive Setting.Has (t : String) : Setting → Prop
  | value {o : Origin} {v : Value} (h : v.Has t) : Has t (.value o v)
  | table {o : Origin} {entries : List (String × Setting)} {e : String × Setting}
    (he : e ∈ entries) (h : Has t e.2) : Has t (.table o entries)

theorem Value.Has.of_setting {t : String} {o : Origin} {v : Value}
    (h : (Setting.ofValue o v).Has t) : v.Has t := by
  generalize hs : Setting.ofValue o v = s at h
  induction h generalizing v with
  | value h =>
    cases v with
    | table entries => simp [Setting.ofValue] at hs
    | _ =>
      obtain ⟨-, rfl⟩ := Setting.value.inj hs
      exact h
  | table he h ih =>
    cases v with
    | table entries =>
      obtain ⟨-, rfl⟩ := Setting.table.inj hs
      rw [Setting.ofEntries_eq_map] at he
      obtain ⟨e, hmem, rfl⟩ := List.mem_map.1 he
      exact .table hmem (ih rfl)
    | _ => simp [Setting.ofValue] at hs

namespace Setting

variable {t : String}

mutual

/-- Laying a setting over another makes no text. -/
theorem Has.of_overlay {lower : Setting} : (s : Setting) → (overlay lower s).Has t →
    lower.Has t ∨ s.Has t
  | .value _ _, h => .inr h
  | .table o entries, h => by
    cases lower with
    | value o' v => exact .inr h
    | table o' below =>
      obtain ⟨e, he, ht⟩ : ∃ e ∈ overlayEntries below entries, e.2.Has t := by
        cases h with
        | table he h => exact ⟨_, he, h⟩
      rcases Has.of_overlayEntries entries ⟨e, he, ht⟩ with ⟨e, he, ht⟩ | ⟨e, he, ht⟩
      · exact .inl (.table he ht)
      · exact .inr (.table he ht)

theorem Has.of_overlayEntries {below : List (String × Setting)} :
    (entries : List (String × Setting)) → (∃ e ∈ overlayEntries below entries, e.2.Has t) →
      (∃ e ∈ below, e.2.Has t) ∨ ∃ e ∈ entries, e.2.Has t
  | [], h => .inl h
  | (name, s) :: rest, h => by
    rw [overlayEntries] at h
    rcases Has.of_overlayEntries rest h with ⟨e, he, ht⟩ | ⟨e, he, ht⟩
    · rcases mem_setEntry he with rfl | he
      · cases hb : below.lookup name with
        | none => exact .inr ⟨(name, s), List.mem_cons_self, by simpa [hb] using ht⟩
        | some b =>
          rw [hb] at ht
          exact (Has.of_overlay s ht).imp (fun ht => ⟨(name, b), mem_of_lookup hb, ht⟩)
            fun ht => ⟨(name, s), List.mem_cons_self, ht⟩
      · exact .inl ⟨e, he, ht⟩
    · exact .inr ⟨e, List.mem_cons_of_mem _ he, ht⟩

end

theorem Has.of_foldl_overlay {lowest : Setting} {layers : List Setting}
    (h : (layers.foldl overlay lowest).Has t) : lowest.Has t ∨ ∃ s ∈ layers, s.Has t := by
  induction layers generalizing lowest with
  | nil => exact .inl h
  | cons s layers ih =>
    rcases ih h with hlower | ⟨s', hs', ht⟩
    · exact (Has.of_overlay s hlower).imp_right fun ht => ⟨s, List.mem_cons_self, ht⟩
    · exact .inr ⟨s', List.mem_cons_of_mem _ hs', ht⟩

theorem Has.of_toSection {path : List String} {wanted : Wanted} {s : Setting} {sec : Section}
    (hs : s.toSection path wanted = .ok sec) {name : String} {index : Nat} {e : String × Setting}
    (he : sec.field name index = some e) (h : e.2.Has t) : s.Has t := by
  unfold toSection at hs
  split at hs
  · obtain rfl := Except.ok.inj hs
    obtain ⟨s, hlookup, rfl⟩ := Option.map_eq_some_iff.1 he
    exact .table (mem_of_lookup hlookup) h
  · obtain rfl := Except.ok.inj hs
    obtain ⟨v, hv, rfl⟩ := Option.map_eq_some_iff.1 he
    exact .value (.list (List.mem_of_getElem? hv) (.of_setting h))
  · contradiction

theorem yields_toText {path : List String} {s : Setting} :
    Yields (fun t => s.Has t) (s.toText path) := by
  unfold toText
  split
  · exact Yields.ok (.value .text)
  · exact Yields.ok (.value (.char rfl))
  · exact Yields.error

end Setting

namespace Config

open Setting

variable {P : String → Prop}

theorem yields_readField {path : List String} {default : String} (hdefault : P default)
    {f : Field} (hf : ∀ e ∈ f, ∀ t, e.2.Has t → P t) :
    Yields P (readField toText path default f) := by
  cases f with
  | none => exact Yields.ok hdefault
  | some e => exact Yields.mono yields_toText (hf e rfl)

/-- The texts of a configuration satisfy `P`. -/
structure Texts (P : String → Prop) (c : Config) : Prop where
  listenAddr : P c.listenAddr
  level : P c.level

theorem yields_readSection {name : String} {wanted : Wanted}
    {read : Section → Config → Except SettingError Config} {entries : List (String × Setting)}
    (hentries : ∀ e ∈ entries, ∀ t, e.2.Has t → P t) {c : Config} (hc : c.Texts P)
    (hread : ∀ s : Section, (∀ name index, ∀ e ∈ s.field name index, ∀ t, e.2.Has t → P t) →
      Yields (Texts P) (read s c)) :
    Yields (Texts P) (readSection name wanted read entries c) := by
  unfold readSection
  split
  · exact Yields.ok hc
  · next s hs =>
    cases hsection : s.toSection [name] wanted with
    | error e => exact Yields.error
    | ok sec =>
      refine hread sec fun name' index e he t ht => ?_
      exact hentries _ (mem_of_lookup hs) t (.of_toSection hsection he ht)

/-- A configuration has no texts but those of its settings and the defaults. -/
theorem yields_ofEntries {entries : List (String × Setting)}
    (hentries : ∀ e ∈ entries, ∀ t, e.2.Has t → P t) (hdefaults : Texts P {}) :
    Yields (Texts P) (ofEntries entries) := by
  refine Yields.bind (yields_readSection hentries hdefaults fun s hs => ?_) fun c hc =>
    yields_readSection hentries hc fun s hs => ?_
  · have hlevel : Yields P (readField toText ["logging"] _ (s.field "level" 0)) :=
      yields_readField hdefaults.level (hs "level" 0)
    unfold readLogging
    dsimp only
    split
    · exact Yields.after fun format => Yields.bind hlevel fun level h =>
        Yields.ok ⟨hdefaults.listenAddr, h⟩
    · exact Yields.bind hlevel fun level h => Yields.after fun format =>
        Yields.ok ⟨hdefaults.listenAddr, h⟩
  · exact Yields.bind (yields_readField hc.listenAddr (hs "listen_addr" 0)) fun listenAddr h =>
      Yields.ok ⟨h, hc.level⟩

variable {file : Option ConfigFile} {environment : List (String × String)} {below : List Sourced}
  {assigned : List (List String × Value)}

@[simp] theorem has_settings {c : Config} {t : String} : (Value.table c.settings).Has t ↔
    (t = c.format.name ∨ t = c.level) ∨ t = c.listenAddr := by
  simp [settings]

theorem exists_source_of_pile {t : String} (h : (pile below assigned).Has t) :
    ∃ s ∈ Sourced.builtin :: below ++ assigned.map .ofAssignment, s.value.Has t := by
  have hsource {s : Sourced} (h : s.setting.Has t) : s.value.Has t := .of_setting h
  rcases Has.of_overlay _ h with h | h <;> rcases Has.of_foldl_overlay h with h | ⟨s, hs, h⟩
  · exact ⟨_, List.mem_cons_self, hsource h⟩
  · obtain ⟨s, hmem, rfl⟩ := List.mem_map.1 hs
    exact ⟨s, List.mem_append_left _ (List.mem_cons_of_mem _ hmem), hsource h⟩
  · cases h with
    | table he => contradiction
  · obtain ⟨a, ha, rfl⟩ := List.mem_map.1 hs
    exact ⟨_, List.mem_append_right _ (List.mem_map_of_mem ha), hsource h⟩

/-- No text of a configuration is made up. -/
theorem exists_source_of_load (hfile : fileSource file = .ok below)
    (hassigned : Environment.assignments environment = .ok assigned) {c : Config}
    (h : load file environment = .ok (.ok c)) :
    c.Texts fun t => ∃ s ∈ Sourced.builtin :: below ++ assigned.map .ofAssignment,
      s.value.Has t := by
  have hdefaults : Texts (fun t => ∃ s ∈ Sourced.builtin :: below ++ assigned.map .ofAssignment,
      s.value.Has t) {} :=
    ⟨⟨.builtin, List.mem_cons_self, has_settings.2 (.inr rfl)⟩,
      ⟨.builtin, List.mem_cons_self, has_settings.2 (.inl (.inr rfl))⟩⟩
  replace h := Except.ok.inj ((load_eq hfile hassigned).symm.trans h)
  split at h
  · next o entries hpile =>
    have hentries : ∀ e ∈ entries, ∀ t, e.2.Has t →
        ∃ s ∈ Sourced.builtin :: below ++ assigned.map .ofAssignment, s.value.Has t :=
      fun e he t ht => exists_source_of_pile (hpile ▸ .table he ht)
    cases hread : ofEntries entries with
    | error e =>
      rw [hread] at h
      contradiction
    | ok c' =>
      rw [hread] at h
      obtain rfl := Except.ok.inj h
      exact (yields_ofEntries hentries hdefaults).of_eq hread
  · obtain rfl := Except.ok.inj h
    exact hdefaults

end Config

namespace Yaml

namespace Document

variable {text t : String} {v : Value}

theorem not_has_of_integer? {cs : List Char} (h : Schema.integer? cs = some v) : ¬v.Has t := by
  rcases Schema.integer?_cases h with ⟨w, n, rfl⟩ | ⟨w, n, rfl⟩ <;> exact nofun

theorem eq_of_has_schemaValue (h : (Schema.value text).Has t) : t = text := by
  unfold Schema.value at h
  split at h
  · nomatch h
  · split at h
    · nomatch h
    · next hv => exact absurd h (not_has_of_integer? hv)
    · split at h
      · exact Value.has_text.1 h
      · split at h
        · nomatch h
        · exact Value.has_text.1 h

/-- A scalar stands for no text but its own. -/
theorem yields_scalar (tag : Option Octets) (text : String) (style : Style) :
    Yields (fun v => ∀ t, v.Has t → t = text) (scalar tag text style) := by
  have htext : ∀ t, (Value.text text).Has t → t = text := fun t => Value.has_text.1
  refine Yields.ite (fun _ => Yields.ok ?_) fun _ => ?_
  · split
    · exact fun t => eq_of_has_schemaValue
    · exact htext
  · unfold tagged
    split
    · split
      · exact Yields.ok nofun
      · exact Yields.error
    · split
      · next hv => exact Yields.ok fun t ht => absurd ht (not_has_of_integer? hv)
      · exact Yields.error
    · split
      · exact Yields.ok nofun
      · exact Yields.error
    · exact Yields.ite (fun _ => Yields.ok nofun) fun _ => Yields.error
    · exact Yields.ok htext

end Document

theorem Document.builds_has (P : String → Prop) :
    Builds (Event.Drawn fun cs => P (String.ofList cs)) (fun v => ∀ t, v.Has t → P t) where
  scalar htext h t ht := by
    rw [(yields_scalar _ _ _).of_eq h t ht]
    exact htext
  list hitems t ht := by
    cases ht with
    | list hv ht => exact hitems _ hv t ht
  nil t ht := by
    cases ht with
    | table he ht => contradiction
  entry htable hv t ht := by
    cases ht with
    | table he ht =>
      rcases mem_setEntry he with rfl | he
      · exact hv t ht
      · exact htable t (.table he ht)
  lookup htable hv t ht := htable t (.table (mem_of_lookup hv) ht)

/-- What holds of the texts of scalars, and of the empty text, holds of all that is read. -/
theorem forall_has_of_read {P : String → Prop} (hempty : P "") {text : String}
    {table : List (String × Value)} (h : read text = .ok table)
    (htexts : ∀ x ∈ texts (tokens (.ofText text.toList)).1, P (String.ofList x)) :
    ∀ t, (Value.table table).Has t → P t :=
  builds_read (Document.builds_has P) h (drawn_ofSource hempty _ htexts)

end Yaml

end Planimeter
