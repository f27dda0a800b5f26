import Planimeter.Text.Slice
import Mathlib.Data.List.Basic
/-!
# Slices

A text can be sliced at a position if that position is between two of its characters. At any other
position within the text a slice does not come to be.
-/
namespace Planimeter.Text

variable {cs before part after : List Char} {start stop position : Nat}

@[simp] theorem byteCount_nil : byteCount [] = 0 := rfl

@[simp] theorem byteCount_cons (c : Char) (cs : List Char) :
    byteCount (c :: cs) = c.utf8Size + byteCount cs := rfl

@[simp] theorem byteCount_append (cs cs' : List Char) :
    byteCount (cs ++ cs') = byteCount cs + byteCount cs' := by
  induction cs with
  | nil => simp
  | cons c cs ih => simp [ih, Nat.add_assoc]

/-- A character of one byte between two parts. -/
theorem byteCount_append_cons {c : Char} (hc : c.utf8Size = 1) (before after : List Char) :
    byteCount (before ++ c :: after) = byteCount before + 1 + byteCount after := by
  simp [hc, Nat.add_assoc]

@[simp] theorem byteCount_eq_zero_iff : byteCount cs = 0 ↔ cs = [] := by
  cases cs with
  | nil => simp
  | cons c cs =>
    have hsize := c.utf8Size_pos
    rw [byteCount_cons]
    simp only [List.cons_ne_nil, iff_false]
    omega

/-- Of two parts in front of one text the one with fewer bytes is in front of the other. -/
theorem exists_append_of_byteCount_le {before' after' : List Char}
    (h : before ++ after = before' ++ after') (hle : byteCount before ≤ byteCount before') :
    ∃ between, before' = before ++ between ∧ after = between ++ after' := by
  rcases List.append_eq_append_iff.1 h with ⟨between, hbefore, hafter⟩ | ⟨extra, rfl, rfl⟩
  · exact ⟨between, hbefore, hafter⟩
  · rw [byteCount_append] at hle
    obtain rfl := byteCount_eq_zero_iff.1 (show byteCount extra = 0 by omega)
    exact ⟨[], by simp, rfl⟩

/-- A position between two characters, or at an end. -/
def IsBoundary (position : Nat) (cs : List Char) : Prop :=
  ∃ before after, cs = before ++ after ∧ byteCount before = position

theorem isBoundary_byteCount (before after : List Char) :
    IsBoundary (byteCount before) (before ++ after) :=
  ⟨before, after, rfl, rfl⟩

theorem isBoundary_zero (cs : List Char) : IsBoundary 0 cs := ⟨[], cs, rfl, rfl⟩

/-- A position behind a first character is one in what follows it. -/
theorem isBoundary_cons (c : Char) (hposition : 0 < position) :
    IsBoundary position (c :: cs) ↔
      c.utf8Size ≤ position ∧ IsBoundary (position - c.utf8Size) cs := by
  constructor
  · rintro ⟨_ | ⟨c', before⟩, after, heq, hcount⟩
    · rw [byteCount_nil] at hcount
      omega
    · obtain ⟨rfl, rfl⟩ := List.cons.inj heq
      rw [byteCount_cons] at hcount
      exact ⟨by omega, before, after, rfl, by omega⟩
  · rintro ⟨hle, before, after, rfl, hcount⟩
    exact ⟨c :: before, after, rfl, by rw [byteCount_cons]; omega⟩

/-- A position behind a part of the text is one in what follows the part. -/
@[simp] theorem isBoundary_append (before after : List Char) :
    IsBoundary (byteCount before + position) (before ++ after) ↔ IsBoundary position after := by
  induction before with
  | nil => simp
  | cons c before ih =>
    have hsize := c.utf8Size_pos
    rw [byteCount_cons, List.cons_append, isBoundary_cons c (by omega), ← ih,
      show c.utf8Size + byteCount before + position - c.utf8Size =
        byteCount before + position by omega]
    exact and_iff_right (by omega)

@[simp] theorem splitBytes_append (n : Nat) (before after : List Char) :
    splitBytes n (byteCount before) (before ++ after) = .ok (before, after) := by
  induction before generalizing n with
  | nil => cases after <;> simp [splitBytes]
  | cons c before ih =>
    have hsize := c.utf8Size_pos
    rw [byteCount_cons, List.cons_append, splitBytes, if_neg (by omega), if_neg (by omega),
      Nat.add_sub_cancel_left, ih]
    rfl

theorem splitBytes_error (n : Nat) (hle : position ≤ byteCount cs) (h : ¬IsBoundary position cs) :
    ∃ e, splitBytes n position cs = .error e := by
  induction cs generalizing n position with
  | nil =>
    rw [byteCount_nil, Nat.le_zero] at hle
    exact absurd (hle ▸ isBoundary_zero []) h
  | cons c cs ih =>
    rcases Nat.eq_zero_or_pos position with rfl | hpos
    · exact absurd (isBoundary_zero _) h
    · rw [splitBytes, if_neg (by omega)]
      split
      · exact ⟨_, rfl⟩
      · next hsize =>
        rw [isBoundary_cons c hpos] at h
        rw [byteCount_cons] at hle
        obtain ⟨e, he⟩ := ih (n + c.utf8Size) (by omega) fun hrest => h ⟨by omega, hrest⟩
        exact ⟨e, by rw [he]; rfl⟩

@[simp] theorem sliceFrom_append (before after : List Char) :
    sliceFrom (byteCount before) (before ++ after) = .ok after := by
  simp [sliceFrom]

theorem sliceFrom_error (hle : start ≤ byteCount cs) (h : ¬IsBoundary start cs) :
    ∃ fault, sliceFrom start cs = .error fault := by
  obtain ⟨e, he⟩ := splitBytes_error 0 hle h
  exact ⟨_, by rw [sliceFrom, he]⟩

@[simp] theorem slice_append (before part after : List Char) :
    slice (byteCount before) (byteCount (before ++ part)) (before ++ (part ++ after)) =
      .ok part := by
  rw [slice, sliceFrom_append, byteCount_append, Nat.add_sub_cancel_left]
  simp only [bind, Except.bind, splitBytes_append]

theorem slice_error (hstart : start ≤ stop) (hstop : stop ≤ byteCount cs)
    (h : ¬(IsBoundary start cs ∧ IsBoundary stop cs)) :
    ∃ fault, slice start stop cs = .error fault := by
  by_cases hb : IsBoundary start cs
  · obtain ⟨before, rest, rfl, rfl⟩ := hb
    have hrest : ¬IsBoundary (stop - byteCount before) rest := by
      rw [← isBoundary_append before rest, Nat.add_sub_cancel' hstart]
      exact fun hstop => h ⟨isBoundary_byteCount _ _, hstop⟩
    rw [byteCount_append] at hstop
    obtain ⟨e, he⟩ := splitBytes_error (byteCount before) (by omega) hrest
    refine ⟨.splitCharacter .stop stop e.1 e.2, ?_⟩
    rw [slice, sliceFrom_append]
    simp only [bind, Except.bind, he]
  · obtain ⟨fault, hfault⟩ := sliceFrom_error (by omega) hb
    exact ⟨fault, by rw [slice, hfault]; rfl⟩

/-- There is a slice exactly between two boundaries. -/
theorem slice_ok_iff (hstart : start ≤ stop) (hstop : stop ≤ byteCount cs) :
    (∃ part, slice start stop cs = .ok part) ↔ IsBoundary start cs ∧ IsBoundary stop cs := by
  constructor
  · rintro ⟨part, hpart⟩
    by_contra h
    obtain ⟨fault, hfault⟩ := slice_error hstart hstop h
    rw [hpart] at hfault
    contradiction
  · rintro ⟨⟨before, rest, rfl, rfl⟩, hbstop⟩
    rw [← Nat.add_sub_cancel' hstart, isBoundary_append] at hbstop
    obtain ⟨part, after, rfl, hpart⟩ := hbstop
    have hcount : byteCount (before ++ part) = stop := by rw [byteCount_append]; omega
    exact ⟨part, hcount ▸ slice_append before part after⟩

end Planimeter.Text
