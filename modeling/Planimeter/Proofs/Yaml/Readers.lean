import Planimeter.Proofs.Yaml.File
import Planimeter.Proofs.Yields
/-!
# What readers of documents build

Readers build values from the events of a document, and whatever tables and lists hand on from what
they are made of holds of all that is read if it holds of scalars. What is yielded is followed
through the steps of the readers once, for all such properties; the depth is the induction.
-/
namespace Planimeter.Yaml

theorem yields_stop {α : Type} {P : α → Prop} (e : ReadError) : Yields P (stop e : Reader α) :=
  ⟨stop e, rfl⟩

/-- What is known of the values a reader yields holds of a value that was read. -/
theorem of_yields {α : Type} {P : α → Prop} {r : Reader α} (hr : Yields P r) {n n' : Nat} {a : α}
    (h : r.run n = .ok (a, n')) : P a := by
  obtain ⟨r, rfl⟩ := hr
  change (r n >>= _) = _ at h
  generalize r n = x at h
  cases x with
  | error e => contradiction
  | ok found =>
    obtain ⟨⟨a', ha'⟩, rest'⟩ := found
    obtain ⟨rfl, rfl⟩ := Prod.mk.inj (Except.ok.inj h)
    exact ha'

namespace Document

/-- Values that are built from events of a kind have a property. -/
structure Builds (E : Event Nat → Prop) (Q : Value → Prop) : Prop where
  scalar {p : Properties} {text : List Char} {style : Style} {v : Value} :
    E (.scalar p text style) → scalar p.tag (String.ofList text) style = .ok v → Q v
  list {items : List Value} : (∀ v ∈ items, Q v) → Q (.list items)
  nil : Q (.table [])
  entry {entries : List (String × Value)} {name : String} {v : Value} :
    Q (.table entries) → Q v → Q (.table (setEntry entries name v))
  lookup {entries : List (String × Value)} {name : String} {v : Value} :
    Q (.table entries) → entries.lookup name = some v → Q v

variable {E : Event Nat → Prop} {Q : Value → Prop}

/-- Some events are of the kind. -/
abbrev Among (E : Event Nat → Prop) (events : Events) : Prop := ∀ e ∈ events, E e.1

/-- What is read of events has a property, and the rest is of the kind. -/
abbrev ReadsAmong (E : Event Nat → Prop) {α : Type} (P : α → Prop) (r : Reader (α × Events)) :
    Prop :=
  Yields (fun r => P r.1 ∧ Among E r.2) r

theorem Builds.behindTag (h : Builds E Q) (tag : Option Octets) {v : Value} (hv : Q v) :
    Q (behindTag tag v) := by
  rw [Document.behindTag]
  split
  · exact hv
  · next name _ =>
    induction namesOfTag name with
    | nil => exact hv
    | cons name names ih => exact h.entry h.nil ih

variable {d : Document} {path : Path} {events : Events}

theorem yields_breakOff {α : Type} {P : α → Prop} : Yields P (d.breakOff : Reader α) :=
  yields_stop _

theorem yields_orStop {mark : Mark} {P : Value → Prop} {r : Except Mismatch Value}
    (h : ∀ v, r = .ok v → P v) : Yields P (orStop path mark r) := by
  cases r with
  | ok v => exact Yields.pure (h v rfl)
  | error m => exact yields_stop _

theorem reads_key (h : Among E events) : ReadsAmong E (fun _ => True) (d.key path events) := by
  have hshown {events : Events} (h : Among E events) :
      ReadsAmong E (fun _ => True) (key.shown d path events) := by
    unfold key.shown
    split
    · exact Yields.pure ⟨trivial, (List.forall_mem_cons.1 h).2⟩
    · exact yields_stop _
    · exact yields_stop _
    · exact yields_breakOff
  unfold key
  split
  · exact yields_breakOff
  · refine Yields.after fun there => Yields.after fun (text, _) => Yields.pure ?_
    exact ⟨trivial, (List.forall_mem_cons.1 h).2⟩
  · exact hshown h

theorem yields_tableNumber (h : Among E events) :
    Yields (Among E) (d.tableNumber path events) := by
  have hshown {events : Events} (h : Among E events) :
      Yields (Among E) (tableNumber.shown d path events) := by
    unfold tableNumber.shown
    split
    · refine Yields.after fun v => ?_
      split
      · exact Yields.pure (List.forall_mem_cons.1 h).2
      · exact yields_stop _
    · exact yields_stop _
    · exact yields_stop _
    · exact yields_breakOff
  unfold tableNumber
  split
  · exact yields_breakOff
  · exact Yields.after fun there => Yields.after fun _ => Yields.pure (List.forall_mem_cons.1 h).2
  · exact hshown h

namespace Builds

variable (hb : Builds E Q)

section

variable {node : Path → Events → Reader (Value × Events)}
  (hnode : ∀ path events, Among E events → ReadsAmong E Q (node path events))

include hnode

theorem items (steps index : Nat) (h : Among E events) :
    ReadsAmong E (∀ v ∈ ·, Q v) (d.items node path steps index events) := by
  induction steps generalizing index events with
  | zero =>
    rw [Document.items.eq_def]
    split
    · exact Yields.pure ⟨by simp, (List.forall_mem_cons.1 h).2⟩
    · exact yields_breakOff
    · exact yields_breakOff
    · contradiction
  | succ steps ih =>
    rw [Document.items.eq_def]
    split
    · exact Yields.pure ⟨by simp, (List.forall_mem_cons.1 h).2⟩
    · contradiction
    · exact yields_breakOff
    · next steps' heq _ _ =>
      obtain rfl := Nat.succ.inj heq
      refine Yields.bind (hnode _ _ h) fun (v, rest) ⟨hv, hrest⟩ => ?_
      refine Yields.bind (ih _ hrest) fun (vs, rest') ⟨hvs, hrest'⟩ => Yields.pure ?_
      exact ⟨List.forall_mem_cons.2 ⟨hv, hvs⟩, hrest'⟩

include hb

theorem entries (isInside : Bool) {table : List (String × Value)} (htable : Q (.table table))
    (steps : Nat) (h : Among E events) :
    ReadsAmong E (fun table => Q (.table table))
      (d.entries isInside node path table steps events) := by
  induction steps generalizing table events with
  | zero =>
    rw [Document.entries.eq_def]
    split
    · exact Yields.pure ⟨htable, (List.forall_mem_cons.1 h).2⟩
    · exact yields_breakOff
    · exact yields_breakOff
    · contradiction
  | succ steps ih =>
    rw [Document.entries.eq_def]
    split
    · exact Yields.pure ⟨htable, (List.forall_mem_cons.1 h).2⟩
    · contradiction
    · exact yields_breakOff
    · next steps' heq _ _ =>
      obtain rfl := Nat.succ.inj heq
      refine Yields.bind (reads_key h) fun (key, rest) ⟨_, hrest⟩ => ?_
      dsimp only
      split
      · exact Yields.bind (yields_tableNumber hrest) fun rest' hrest' => ih htable hrest'
      · exact Yields.bind (hnode _ _ hrest) fun (v, rest') ⟨hv, hrest'⟩ =>
          ih (hb.entry htable hv) hrest'

end

include hb

theorem content {inside : Option (Path → Events → Reader (Value × Events))}
    (hinside : ∀ node ∈ inside, ∀ path events, Among E events →
      ReadsAmong E Q (node path events)) (h : Among E events) :
    ReadsAmong E Q (d.content inside path events) := by
  unfold Document.content
  split
  · obtain ⟨hscalar, hrest⟩ := List.forall_mem_cons.1 h
    exact Yields.bind (yields_orStop fun v hv => hb.scalar hscalar hv) fun v hv =>
      Yields.pure ⟨hb.behindTag _ hv, hrest⟩
  · have hrest := (List.forall_mem_cons.1 h).2
    cases inside with
    | none => exact yields_stop _
    | some node =>
      exact Yields.bind (items (hinside node rfl) _ 0 hrest) fun (vs, rest) ⟨hvs, hr⟩ =>
        Yields.pure ⟨hb.behindTag _ (hb.list hvs), hr⟩
  · have hrest := (List.forall_mem_cons.1 h).2
    cases inside with
    | none => exact yields_stop _
    | some node =>
      refine Yields.bind (hb.entries (hinside node rfl) true hb.nil _ hrest)
        fun (table, rest) ⟨htable, hr⟩ => Yields.pure ⟨hb.behindTag _ ?_, hr⟩
      dsimp only at htable ⊢
      cases hv : table.lookup substituteKey with
      | none => exact htable
      | some v => exact hb.lookup htable hv
  · exact yields_breakOff

variable (hd : Among E d.events)

include hd

/-- A node may be an alias of another one. -/
theorem aliasOrContent {inside : Option (Path → Events → Reader (Value × Events))}
    (hinside : ∀ node ∈ inside, ∀ path events, Among E events →
      ReadsAmong E Q (node path events)) (path : Path) (events : Events) :
    Among E events → ReadsAmong E Q (match events with
      | (.aliasOf number, _) :: rest => do
        let (v, _) ← d.content inside path (← d.follow number)
        return (v, rest)
      | _ => d.content inside path events : Reader (Value × Events)) := by
  have hfollow (number : Nat) : Yields (Among E) (d.follow number) := by
    refine Yields.after fun followed => Yields.ite (fun _ => yields_stop _) fun _ => Yields.pure ?_
    exact fun e he => hd e (List.mem_of_mem_drop he)
  intro h
  split
  · refine Yields.bind (hfollow _) fun there hthere => ?_
    exact Yields.bind (hb.content hinside hthere) fun (v, _) ⟨hv, _⟩ =>
      Yields.pure ⟨hv, (List.forall_mem_cons.1 h).2⟩
  · exact hb.content hinside h

theorem value (depth : Nat) (path : Path) (events : Events) :
    Among E events → ReadsAmong E Q (d.value depth path events) := by
  induction depth generalizing path events with
  | zero => exact hb.aliasOrContent hd (by simp) path events
  | succ depth ih =>
    refine hb.aliasOrContent hd (fun node hnode path events => ?_) path events
    obtain rfl := Option.some.inj hnode
    exact ih path events

theorem table : Yields (fun table => Q (.table table)) d.table := by
  unfold Document.table
  split
  · next heq =>
    have hrest := fun e he => hd e (heq ▸ List.mem_cons_of_mem _ he)
    exact Yields.bind (hb.entries (fun _ _ => hb.value hd _ _ _) false hb.nil _ hrest)
      fun _ h => Yields.pure h.1
  · exact yields_stop _
  · split
    · exact Yields.pure hb.nil
    · exact Yields.after fun _ => yields_stop _
  · split
    · exact Yields.pure hb.nil
    · exact yields_breakOff

end Builds

end Document

/-- What readers build holds of a table that is read. -/
theorem builds_read {E : Event Nat → Prop} {Q : Value → Prop} (hb : Document.Builds E Q)
    {text : String} {table : List (String × Value)} (h : read text = .ok table)
    (hE : Document.Among E (Stream.ofSource (.ofText text.toList)).first.events) :
    Q (.table table) := by
  obtain ⟨-, ⟨followed, htable⟩, -⟩ := read_eq_ok_iff.1 h
  exact of_yields (hb.table hE) htable

end Planimeter.Yaml
