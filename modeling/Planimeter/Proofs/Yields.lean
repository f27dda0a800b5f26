import Mathlib.Tactic.Choose
/-!
# What computations yield

A reader may fail, and what it yields if it does not is followed through its steps by one predicate
for all readers.
-/
namespace Planimeter

/-- Whatever a computation yields satisfies `P`. -/
def Yields {m : Type → Type} [Functor m] {α : Type} (P : α → Prop) (x : m α) : Prop :=
  ∃ y : m (Subtype P), Subtype.val <$> y = x

namespace Yields

variable {m : Type → Type} [Monad m] [LawfulMonad m] {α β : Type} {P : α → Prop} {Q : β → Prop}

theorem pure {a : α} (h : P a) : Yields P (Pure.pure a : m α) :=
  ⟨Pure.pure ⟨a, h⟩, by simp⟩

theorem bind {x : m α} {f : α → m β} (hx : Yields P x) (hf : ∀ a, P a → Yields Q (f a)) :
    Yields Q (x >>= f) := by
  obtain ⟨y, rfl⟩ := hx
  choose g hg using hf
  refine ⟨y >>= fun a => g a.1 a.2, ?_⟩
  simp [hg]

omit [LawfulMonad m] in
theorem ite {p : Prop} [Decidable p] {x y : m α} (hx : p → Yields P x) (hy : ¬p → Yields P y) :
    Yields P (if p then x else y) := by
  split
  · exact hx ‹_›
  · exact hy ‹_›

/-- Nothing need be known of what comes first. -/
theorem after {x : m α} {f : α → m β} (hf : ∀ a, Yields Q (f a)) : Yields Q (x >>= f) :=
  bind (P := fun _ => True) ⟨(⟨·, trivial⟩) <$> x, by simp⟩ fun a _ => hf a

end Yields

namespace Yields

variable {ε α : Type} {P Q : α → Prop}

theorem ok {a : α} (h : P a) : Yields P (.ok a : Except ε α) := Yields.pure h

theorem error {e : ε} : Yields P (.error e : Except ε α) := ⟨.error e, rfl⟩

/-- What is known of whatever is yielded holds of what is. -/
theorem of_eq {x : Except ε α} (hx : Yields P x) {a : α} (h : x = .ok a) : P a := by
  obtain ⟨y, rfl⟩ := hx
  cases y with
  | error e => contradiction
  | ok b =>
    obtain rfl := Except.ok.inj h
    exact b.2

theorem of_forall {x : Except ε α} (h : ∀ a, x = .ok a → P a) : Yields P x := by
  cases x with
  | error e => exact error
  | ok a => exact ok (h a rfl)

theorem and {x : Except ε α} (hP : Yields P x) (hQ : Yields Q x) :
    Yields (fun a => P a ∧ Q a) x :=
  of_forall fun _ h => ⟨hP.of_eq h, hQ.of_eq h⟩

theorem mono {m : Type → Type} [Functor m] [LawfulFunctor m] {x : m α} (hx : Yields P x)
    (h : ∀ a, P a → Q a) : Yields Q x := by
  obtain ⟨y, rfl⟩ := hx
  exact ⟨(fun a => ⟨a.1, h a.1 a.2⟩) <$> y, by simp⟩

end Yields

end Planimeter
