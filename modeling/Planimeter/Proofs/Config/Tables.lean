import Planimeter.Config.Load
import Planimeter.Proofs.Config.Layers
import Planimeter.Proofs.Yaml.Readers
import Planimeter.Proofs.Yaml.Untyped
/-!
# Tables that are read

Readers build tables by setting one entry after the other, so that no table names two of its entries
alike, at whatever depth it lies.
-/
namespace Planimeter

namespace Value

theorem distinct_setEntry {entries : List (String × Value)} (h : (table entries).Distinct)
    (name : String) {v : Value} (hv : v.Distinct) : (table (setEntry entries name v)).Distinct := by
  cases h with
  | other _ notTable => exact absurd rfl (notTable entries)
  | table _ names values =>
    refine .table _ (nodup_setEntry names name v) fun e he => ?_
    rcases mem_setEntry he with rfl | he
    · exact hv
    · exact values e he

theorem distinct_nil : (table []).Distinct := .table [] (by simp) (by simp)

theorem distinct_lookup {entries : List (String × Value)} (h : (table entries).Distinct)
    {name : String} {v : Value} (hv : entries.lookup name = some v) : v.Distinct := by
  cases h with
  | other _ notTable => exact absurd rfl (notTable entries)
  | table _ names values => exact values (name, v) (mem_of_lookup hv)

theorem distinct_singleton (name : String) {v : Value} (hv : v.Distinct) :
    (table [(name, v)]).Distinct := distinct_setEntry distinct_nil name hv

theorem distinct_under {v : Value} (hv : v.Distinct) (path : List String) :
    (v.under path).Distinct := by
  induction path with
  | nil => exact hv
  | cons name path ih => exact distinct_singleton name ih

end Value

namespace Environment

theorem yields_orElse {α : Type} {P : α → Prop} {r s : ValueReader α} (hr : Yields P r)
    (hs : Yields P s) : Yields P (r <|> s) := by
  obtain ⟨r, rfl⟩ := hr
  obtain ⟨s, rfl⟩ := hs
  refine ⟨r <|> s, funext fun cs => ?_⟩
  change (r cs <|> s cs) >>= _ = ((r cs >>= _) <|> (s cs >>= _))
  generalize r cs = x
  cases x with
  | error fault => rfl
  | ok found =>
    cases found with
    | none => rfl
    | some found => rfl

theorem yields_failure {α : Type} {P : α → Prop} : Yields P (failure : ValueReader α) :=
  ⟨failure, rfl⟩

theorem yields_items {α : Type} {P : α → Prop} {read : ValueReader α} (hread : Yields P read)
    (closing : Char) (steps : Nat) : Yields (∀ a ∈ ·, P a) (items read closing steps) := by
  induction steps with
  | zero => exact yields_failure
  | succ steps ih =>
    rw [items]
    refine Yields.after fun c => ?_
    split
    · exact Yields.after fun _ => Yields.pure (by simp)
    · refine Yields.bind hread fun a ha => Yields.after fun c => ?_
      split
      · refine Yields.after fun _ => Yields.bind ih fun rest hrest => Yields.pure ?_
        exact List.forall_mem_cons.2 ⟨ha, hrest⟩
      · exact Yields.after fun _ => Yields.pure (by simpa using ha)

theorem yields_bracketed {α : Type} {P : α → Prop} {read : ValueReader α} (hread : Yields P read)
    (opening closing : Char) : Yields (∀ a ∈ ·, P a) (bracketed opening closing read) := by
  refine Yields.after fun _ => ?_
  choose y hy using yields_items hread closing
  exact ⟨fun cs => y (cs.length + 1) cs, funext fun cs => congrFun (hy (cs.length + 1)) cs⟩

theorem yields_entry {value : ValueReader Value} (hvalue : Yields Value.Distinct value) :
    Yields (fun e : String × Value => e.2.Distinct) (entry value) :=
  Yields.after fun _ => Yields.after fun _ => Yields.bind hvalue fun _ hv => Yields.pure hv

theorem distinct_foldl_setEntry {entries : List (String × Value)}
    (h : ∀ e ∈ entries, e.2.Distinct) {table : List (String × Value)}
    (htable : (Value.table table).Distinct) :
    (Value.table
      (entries.foldl (fun table (name, v) => setEntry table name v) table)).Distinct := by
  induction entries generalizing table with
  | nil => exact htable
  | cons e entries ih =>
    rw [List.forall_mem_cons] at h
    exact ih h.2 (Value.distinct_setEntry htable e.1 h.1)

theorem distinct_plain (text : String) : (plain text).Distinct := by
  refine .other _ fun entries => ?_
  unfold plain
  grind

theorem yields_other {value : ValueReader Value} (hvalue : Yields Value.Distinct value) :
    Yields Value.Distinct (other value) := by
  refine Yields.after fun c => ?_
  split
  · refine Yields.bind (yields_bracketed (yields_entry hvalue) _ _) fun entries h => ?_
    exact Yields.pure (distinct_foldl_setEntry h Value.distinct_nil)
  · exact Yields.after fun _ => Yields.pure (.other _ fun _ => by simp)
  · exact Yields.after fun _ => Yields.pure (.other _ fun _ => by simp)
  · exact Yields.after fun _ => Yields.pure (.other _ fun _ => by simp)
  · exact Yields.after fun _ => Yields.pure (distinct_plain _)

theorem yields_value (depth : Nat) : Yields Value.Distinct (value depth) := by
  induction depth with
  | zero => exact yields_failure
  | succ depth ih =>
    refine Yields.after fun _ => Yields.bind (yields_orElse ?_ (yields_other ih)) fun v hv =>
      Yields.after fun _ => Yields.pure hv
    exact yields_orElse (Yields.after fun _ => Yields.pure (.other _ fun _ => by simp))
      (Yields.after fun _ => Yields.pure (.other _ fun _ => by simp))

/-- What is known of the values a reader yields holds of a value that was read. -/
theorem of_yields {α : Type} {P : α → Prop} {r : ValueReader α} (hr : Yields P r)
    {cs rest : List Char} {a : α} (h : (r cs).run = .ok (some (a, rest))) : P a := by
  obtain ⟨r, rfl⟩ := hr
  change (r cs >>= _) = _ at h
  generalize r cs = x at h
  cases x with
  | error fault => contradiction
  | ok found =>
    cases found with
    | none => exact nomatch (Except.ok.inj h : none = some (a, rest))
    | some found =>
      obtain ⟨⟨a', ha'⟩, rest'⟩ := found
      obtain ⟨rfl, rfl⟩ := Prod.mk.inj (Option.some.inj (Except.ok.inj h))
      exact ha'

theorem distinct_valueOf {text : String} {v : Value} (h : valueOf text = .ok v) : v.Distinct := by
  have htext : (Value.text text).Distinct := .other _ fun _ => by simp
  rw [valueOf] at h
  cases hread : OptionT.run (value (text.length + 1) text.toList) with
  | error fault =>
    rw [hread] at h
    contradiction
  | ok found =>
    rw [hread] at h
    rcases found with _ | ⟨read, _ | _⟩
    case some.nil =>
      obtain rfl := Except.ok.inj h
      exact of_yields (yields_value _) hread
    all_goals
      obtain rfl := Except.ok.inj h
      exact htext

end Environment

namespace Yaml

namespace Document

theorem integer?_ne_table {cs : List Char} {entries : List (String × Value)} :
    Schema.integer? cs ≠ some (.table entries) := by
  intro h
  rcases Schema.integer?_cases h with ⟨_, _, heq⟩ | ⟨_, _, heq⟩ <;> contradiction

theorem schemaValue_ne_table {text : String} {entries : List (String × Value)} :
    Schema.value text ≠ .table entries := by
  rcases Schema.value_cases text with htext | ⟨-, -, hne⟩
  · simp [htext]
  · exact hne entries

/-- A scalar stands for no table. -/
theorem distinct_scalar {tag : Option Octets} {text : String} {style : Style} {v : Value}
    (h : scalar tag text style = .ok v) : v.Distinct := by
  refine .other v fun entries => ?_
  rintro rfl
  unfold scalar tagged at h
  grind [integer?_ne_table, schemaValue_ne_table]

theorem builds_distinct : Builds (fun _ => True) Value.Distinct where
  scalar _ h := distinct_scalar h
  list _ := .other _ (by simp)
  nil := Value.distinct_nil
  entry htable hv := Value.distinct_setEntry htable _ hv
  lookup htable hv := Value.distinct_lookup htable hv

end Document

theorem distinct_read {text : String} {table : List (String × Value)} (h : read text = .ok table) :
    (Value.table table).Distinct :=
  builds_read Document.builds_distinct h fun _ _ => trivial

theorem distinct_readFile {bytes : ByteArray} {table : List (String × Value)}
    (h : readFile bytes = .ok table) : (Value.table table).Distinct := by
  unfold readFile at h
  split at h
  · exact distinct_read h
  · contradiction

end Yaml

end Planimeter
