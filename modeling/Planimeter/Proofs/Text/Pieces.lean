import Planimeter.Proofs.Shape.RoundTrip
import Mathlib.Data.List.Basic
/-!
# What is cut and trimmed

Cutting a text at a separator and trimming it, each said of the text that is taken apart and the
parts that are left, without the order in which they are found.
-/
namespace Planimeter.Text

variable {separator : Char} {cs before after piece rest : List Char} {p : Char → Bool}

@[simp] theorem cut?_eq_none_iff : cut? separator cs = none ↔ separator ∉ cs := by
  induction cs with
  | nil => simp [cut?]
  | cons c cs ih =>
    by_cases hc : c = separator
    · simp [cut?, hc]
    · simp [cut?, hc, Ne.symm hc, ih]

/-- The cut is at the first separator. -/
theorem cut?_eq_some_iff : cut? separator cs = some (before, after) ↔
    cs = before ++ separator :: after ∧ separator ∉ before := by
  constructor
  · intro h
    induction cs generalizing before with
    | nil => contradiction
    | cons c cs ih =>
      rw [cut?] at h
      split at h
      · next hc =>
        obtain ⟨rfl, rfl⟩ := Prod.mk.inj (Option.some.inj h)
        exact ⟨by rw [hc]; rfl, List.not_mem_nil⟩
      · next hc =>
        obtain ⟨⟨before, rest⟩, hcut, heq⟩ := Option.map_eq_some_iff.1 h
        obtain ⟨rfl, rfl⟩ := Prod.mk.inj heq
        obtain ⟨rfl, hnot⟩ := ih hcut
        exact ⟨rfl, List.not_mem_cons_of_ne_of_not_mem (Ne.symm hc) hnot⟩
  · rintro ⟨rfl, hnot⟩
    exact cut?_append after hnot

/-- There is only one first separator. -/
theorem append_cons_inj {before' after' : List Char} (hbefore : separator ∉ before)
    (hbefore' : separator ∉ before')
    (h : before ++ separator :: after = before' ++ separator :: after') :
    before = before' ∧ after = after' := by
  have hcut := cut?_eq_some_iff.2 ⟨h, hbefore'⟩
  rw [cut?_append after hbefore] at hcut
  simpa using hcut

/-- The pieces are those of the library, which cuts at every separator. -/
theorem pieces_eq_splitOn (separator : Char) (cs : List Char) :
    pieces separator cs = cs.splitOn separator := by
  induction cs with
  | nil => rfl
  | cons c cs ih =>
    rw [pieces, ih, List.splitOn, List.splitOn, List.splitOnP_cons_eq_if_modifyHead]
    by_cases hc : c = separator
    · simp [hc]
    · cases hpieces : List.splitOnP (· == separator) cs with
      | nil => exact absurd hpieces (List.splitOnP_ne_nil _ cs)
      | cons piece rest => simp [hc]

/-- What satisfies a predicate and what begins with something that does not are told apart. -/
theorem span_append (hbefore : ∀ c ∈ before, p c) (hrest : ∀ c ∈ rest.head?, p c = false) :
    (before ++ rest).takeWhile p = before ∧ (before ++ rest).dropWhile p = rest := by
  rw [List.takeWhile_append_of_pos hbefore, List.dropWhile_append_of_pos hbefore]
  cases rest with
  | nil => simp
  | cons c rest => simp [hrest c rfl]

theorem head_dropWhile (p : Char → Bool) (cs : List Char) :
    ∀ c ∈ (cs.dropWhile p).head?, p c = false := by
  intro c hc
  have hstop := List.head?_dropWhile_not p cs
  rw [hc] at hstop
  simpa using hstop

/-- A text without the blanks at its ends. -/
inductive Trimmed : List Char → List Char → Prop where
  | mk {before piece after : List Char} (hbefore : ∀ c ∈ before, isBlank c)
      (hafter : ∀ c ∈ after, isBlank c) (hfirst : ∀ c ∈ piece.head?, isBlank c = false)
      (hlast : ∀ c ∈ piece.getLast?, isBlank c = false) : Trimmed (before ++ piece ++ after) piece

theorem trimmed_trim (cs : List Char) : Trimmed cs (trim cs) := by
  have hback : cs.dropWhile isBlank =
      trim cs ++ ((cs.dropWhile isBlank).reverse.takeWhile isBlank).reverse := by
    rw [trim, trimBy, ← List.reverse_append, List.takeWhile_append_dropWhile, List.reverse_reverse]
  have hfirst : ∀ c ∈ (trim cs).head?, isBlank c = false := by
    intro c hc
    refine head_dropWhile isBlank cs c ?_
    rw [hback, List.head?_append, hc]
    rfl
  have hlast : ∀ c ∈ (trim cs).getLast?, isBlank c = false := by
    rw [trim, trimBy, List.getLast?_reverse]
    exact head_dropWhile isBlank _
  have hbefore : ∀ c ∈ cs.takeWhile isBlank, isBlank c := fun _ => List.mem_takeWhile_imp
  have hafter : ∀ c ∈ ((cs.dropWhile isBlank).reverse.takeWhile isBlank).reverse, isBlank c := by
    intro c hc
    exact List.mem_takeWhile_imp (List.mem_reverse.1 hc)
  have htrimmed := Trimmed.mk hbefore hafter hfirst hlast
  rwa [List.append_assoc, ← hback, List.takeWhile_append_dropWhile] at htrimmed

theorem trim_of_trimmed (h : Trimmed cs piece) : trim cs = piece := by
  cases h with
  | @mk before piece after hbefore hafter hfirst hlast =>
    -- An empty piece has no first character to stop the trimming: all is dropped from the front.
    by_cases hpiece : piece = []
    · have hall : (before ++ piece ++ after).dropWhile isBlank = [] := by
        rw [List.dropWhile_eq_nil_iff, hpiece, List.append_nil]
        exact List.forall_mem_append.2 ⟨hbefore, hafter⟩
      rw [trim, trimBy, hall, hpiece]
      rfl
    · have hhead : (piece ++ after).head? = piece.head? := List.head?_append_of_ne_nil _ hpiece
      have hfront : (before ++ piece ++ after).dropWhile isBlank = piece ++ after := by
        rw [List.append_assoc, (span_append hbefore (by rwa [hhead])).2]
      have hback : (piece ++ after).reverse.dropWhile isBlank = piece.reverse := by
        rw [List.reverse_append, (span_append (by simpa using hafter) (by simpa using hlast)).2]
      rw [trim, trimBy, hfront, hback, List.reverse_reverse]

theorem trim_eq_iff : trim cs = piece ↔ Trimmed cs piece :=
  ⟨fun h => h ▸ trimmed_trim cs, trim_of_trimmed⟩

end Planimeter.Text
