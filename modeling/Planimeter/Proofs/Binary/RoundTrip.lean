import Planimeter.Binary.Decimal
import Planimeter.Proofs.Binary.Rounding
import Mathlib.Data.List.TakeWhile
/-!
# Reading decimal text back

A written magnitude is a point of a decimal grid that lies in the cell of its rank, laid out as
digits with at most one point. Reading the layout gives a numeral of the same value, and rounding
finds the rank of the cell again. The main statement is that reading the text of a datum gives the
datum back, and the NaN without sign and payload for every NaN.
-/
namespace Planimeter

namespace Format

variable {F : Format} {rank : Nat}

theorem readsBack_iff (F : Format) (rank point : Nat) :
    F.readsBack rank point = true ↔ F.InCell rank point (5 ^ F.scale) := by
  simp only [readsBack, InCell, Nat.pow_eq]
  split <;> simp only [Bool.and_eq_true, decide_eq_true_eq]

theorem inCell_mul (num den : Nat) {scale : Nat} (hscale : 0 < scale) :
    F.InCell rank (num * scale) (den * scale) ↔ F.InCell rank num den := by
  simp only [InCell, ← Nat.mul_assoc, Nat.mul_le_mul_right_iff hscale,
    Nat.mul_lt_mul_right hscale]

/-- Only the quotient counts, not how it is written. -/
theorem inCell_congr {num den num' den' : Nat} (hden : 0 < den) (hden' : 0 < den')
    (h : num * den' = num' * den) : F.InCell rank num den ↔ F.InCell rank num' den' := by
  rw [← inCell_mul num den hden', ← inCell_mul num' den' hden, h, Nat.mul_comm den]

/-- A magnitude other than zero lies in the cell of its rank. -/
theorem inCell_units {den : Nat} (hrank : rank ≠ 0) (hden : 0 < den) :
    F.InCell rank (F.units rank * den) den := by
  have hprev : F.units (rank - 1) * den < F.units rank * den :=
    Nat.mul_lt_mul_of_pos_right (F.units_strictMono (by omega)) hden
  have hnext : F.units rank * den < F.units (rank + 1) * den :=
    Nat.mul_lt_mul_of_pos_right (F.units_lt_succ rank) hden
  simp only [InCell, Nat.add_mul]
  split <;> omega

/-- The search for the coarsest grid ends at a point of the cell. -/
theorem coarsest_inCell (hrank : rank ≠ 0) (places : Nat) :
    ∃ grid : Nat, (F.coarsest rank places).exponent = grid - F.scale ∧
      F.InCell rank ((F.coarsest rank places).digits * 10 ^ grid) (5 ^ F.scale) := by
  induction places with
  | zero =>
    refine ⟨0, by simp [coarsest], ?_⟩
    simpa [coarsest] using inCell_units hrank (Nat.pow_pos (by decide))
  | succ places ih =>
    rw [coarsest]
    split
    · next hbelow habove =>
      refine ⟨places + 1, rfl, ?_⟩
      rw [readsBack_iff] at hbelow habove
      dsimp only
      split
      · exact hbelow
      · exact habove
    · next hbelow habove => exact ⟨places + 1, rfl, (readsBack_iff _ _ _).1 hbelow⟩
    · next hbelow habove => exact ⟨places + 1, rfl, (readsBack_iff _ _ _).1 habove⟩
    · exact ih

end Format

namespace Binary

variable {F : Format}

/-- A decimal whose value lies in the cell of a finite rank is read as that rank. -/
theorem ofDecimal_eq (hF : 0 < F.fractionBits) {rank : Nat} (hrank : rank < F.infinity)
    (negative : Bool) {digits grid : Nat} {exponent : Int} (hexponent : exponent = grid - F.scale)
    (hcell : F.InCell rank (digits * 10 ^ grid) (5 ^ F.scale)) :
    ofDecimal negative digits exponent =
      ⟨negative, rank, Nat.lt_trans hrank F.infinity_lt⟩ := by
  have hcell' : F.InCell rank (digits * Nat.pow 10 exponent.toNat * Nat.pow 2 F.scale)
      (Nat.pow 10 (-exponent).toNat) := by
    refine (Format.inCell_congr (Nat.pow_pos (by decide)) (Nat.pow_pos (by decide)) ?_).1 hcell
    have hsum : grid + (-exponent).toNat = exponent.toNat + F.scale := by omega
    calc digits * 10 ^ grid * 10 ^ (-exponent).toNat
        = digits * 10 ^ (exponent.toNat + F.scale) := by
          rw [Nat.mul_assoc, ← Nat.pow_add, hsum]
      _ = digits * 10 ^ exponent.toNat * 2 ^ F.scale * 5 ^ F.scale := by
          rw [Nat.pow_add, Nat.mul_assoc, Nat.mul_assoc, ← Nat.mul_pow]
  have hnearest : F.nearest (digits * Nat.pow 10 exponent.toNat * Nat.pow 2 F.scale)
      (Nat.pow 10 (-exponent).toNat) = rank :=
    (Format.nearest_eq_iff hF (Nat.pow_pos (by decide)) hrank).2 hcell'
  simp only [ofDecimal, rounded, hnearest]

end Binary

namespace Numeral

variable {whole fraction : List Char}

@[simp] theorem ofDigits_toDigits (n : Nat) : ofDigits (Nat.toDigits 10 n) = n :=
  Nat.ofDigitChars_ten_toDigits

theorem ofDigits_append_zeros (cs : List Char) (count : Nat) :
    ofDigits (cs ++ List.replicate count '0') = 10 ^ count * ofDigits cs := by
  change Nat.ofDigitChars 10 (cs ++ _) 0 = 10 ^ count * Nat.ofDigitChars 10 cs 0
  rw [Nat.ofDigitChars_append, Nat.ofDigitChars_replicate_zero]

@[simp] theorem ofDigits_zeros_append (cs : List Char) (count : Nat) :
    ofDigits (List.replicate count '0' ++ cs) = ofDigits cs := by
  change Nat.ofDigitChars 10 (_ ++ cs) 0 = Nat.ofDigitChars 10 cs 0
  rw [Nat.ofDigitChars_append, Nat.ofDigitChars_replicate_zero, Nat.mul_zero]

theorem decimal?_whole (hne : whole ≠ []) (hwhole : ∀ c ∈ whole, c.isDigit) :
    decimal? whole = some (.decimal (ofDigits whole) 0) := by
  have htake : whole.takeWhile Char.isDigit = whole := List.takeWhile_eq_self_iff.2 hwhole
  have hdrop : whole.dropWhile Char.isDigit = [] := List.dropWhile_eq_nil_iff.2 hwhole
  simp [decimal?, htake, hdrop, hne, exponent?]

theorem decimal?_point (hne : whole ≠ []) (hwhole : ∀ c ∈ whole, c.isDigit)
    (hfraction : ∀ c ∈ fraction, c.isDigit) :
    decimal? (whole ++ '.' :: fraction) =
      some (.decimal (ofDigits (whole ++ fraction)) (-fraction.length)) := by
  have htake : fraction.takeWhile Char.isDigit = fraction :=
    List.takeWhile_eq_self_iff.2 hfraction
  have hdrop : fraction.dropWhile Char.isDigit = [] := List.dropWhile_eq_nil_iff.2 hfraction
  simp [decimal?, List.takeWhile_append_of_pos hwhole, List.dropWhile_append_of_pos hwhole,
    htake, hdrop, hne, exponent?]

end Numeral

namespace Decimal

theorem isDigit_of_mem_digits {d : Decimal} {c : Char} (h : c ∈ Nat.toDigits 10 d.digits) :
    c.isDigit :=
  Nat.isDigit_of_mem_toDigits (by decide) (by decide) h

/-- A layout is digits, at least one, or such digits before a point and further digits. -/
theorem exists_layout (d : Decimal) : ∃ whole fraction : List Char,
    whole ≠ [] ∧ (∀ c ∈ whole, c.isDigit) ∧ (∀ c ∈ fraction, c.isDigit) ∧
      (d.layout = whole ∧ 0 ≤ d.exponent ∧
          Numeral.ofDigits whole = 10 ^ d.exponent.toNat * d.digits ∨
        d.layout = whole ++ '.' :: fraction ∧ d.exponent = -fraction.length ∧
          Numeral.ofDigits (whole ++ fraction) = d.digits) := by
  generalize hdigits : Nat.toDigits 10 d.digits = digits
  have hvalue : Numeral.ofDigits digits = d.digits := hdigits ▸ Numeral.ofDigits_toDigits _
  have hdigit : ∀ c ∈ digits, c.isDigit := fun c hc => isDigit_of_mem_digits (hdigits ▸ hc)
  have hzero (count : Nat) : ∀ c ∈ List.replicate count '0', c.isDigit := by
    intro c hc
    rw [List.eq_of_mem_replicate hc]
    rfl
  have hne : digits ≠ [] := hdigits ▸ Nat.toDigits_ne_nil
  simp only [layout, hdigits]
  split
  · next hplaces =>
    refine ⟨digits ++ List.replicate d.exponent.toNat '0', [], by simp [hne], ?_, by simp,
      .inl ⟨rfl, by omega, ?_⟩⟩
    · intro c hc
      exact (List.mem_append.1 hc).elim (hdigit c) (hzero _ c)
    · rw [Numeral.ofDigits_append_zeros, hvalue]
  · next hplaces =>
    split
    · next hlt =>
      refine ⟨digits.take (digits.length - (-d.exponent).toNat),
        digits.drop (digits.length - (-d.exponent).toNat), ?_, ?_, ?_, .inr ⟨rfl, ?_, ?_⟩⟩
      · exact List.ne_nil_of_length_pos (by rw [List.length_take]; omega)
      · exact fun c hc => hdigit c (List.mem_of_mem_take hc)
      · exact fun c hc => hdigit c (List.mem_of_mem_drop hc)
      · rw [List.length_drop]
        omega
      · rw [List.take_append_drop, hvalue]
    · next hge =>
      refine ⟨['0'], List.replicate ((-d.exponent).toNat - digits.length) '0' ++ digits,
        by simp, by simp, ?_, .inr ⟨rfl, ?_, ?_⟩⟩
      · intro c hc
        exact (List.mem_append.1 hc).elim (hzero _ c) (hdigit c)
      · rw [List.length_append, List.length_replicate]
        omega
      · change Numeral.ofDigits (List.replicate 1 '0' ++ _) = _
        rw [Numeral.ofDigits_zeros_append, Numeral.ofDigits_zeros_append, hvalue]

/-- The numeral that a layout reads as has the value of the decimal. -/
theorem decimal?_layout (d : Decimal) : ∃ numeral, Numeral.decimal? d.layout = some numeral ∧
    ∀ (F : Format) (negative : Bool), Binary.ofNumeral (F := F) negative numeral =
      Binary.ofDecimal negative d.digits d.exponent := by
  obtain ⟨whole, fraction, hne, hwhole, hfraction, ⟨hlayout, hexponent, hvalue⟩ |
    ⟨hlayout, hexponent, hvalue⟩⟩ := d.exists_layout
  · refine ⟨.decimal (Numeral.ofDigits whole) 0,
      by rw [hlayout, Numeral.decimal?_whole hne hwhole], fun F negative => ?_⟩
    have hneg : (-d.exponent).toNat = 0 := by omega
    simp [Binary.ofNumeral, Binary.ofDecimal, hvalue, hneg, Nat.mul_comm (10 ^ _)]
  · refine ⟨.decimal (Numeral.ofDigits (whole ++ fraction)) (-fraction.length),
      by rw [hlayout, Numeral.decimal?_point hne hwhole hfraction], fun F negative => ?_⟩
    rw [Binary.ofNumeral, hvalue, hexponent]

/-- A layout begins with a digit. -/
theorem exists_head_layout (d : Decimal) : ∃ c cs, d.layout = c :: cs ∧ c.isDigit := by
  obtain ⟨whole, fraction, hne, hwhole, -, h⟩ := d.exists_layout
  obtain ⟨c, cs, rfl⟩ := List.exists_cons_of_ne_nil hne
  have hc : c.isDigit := hwhole c List.mem_cons_self
  rcases h with ⟨h, -, -⟩ | ⟨h, -, -⟩
  · exact ⟨c, cs, h, hc⟩
  · exact ⟨c, cs ++ '.' :: fraction, h, hc⟩

theorem isDigit_or_eq_point_of_mem_layout {d : Decimal} {c : Char} (h : c ∈ d.layout) :
    c.isDigit ∨ c = '.' := by
  obtain ⟨whole, fraction, -, hwhole, hfraction, ⟨hlayout, -, -⟩ | ⟨hlayout, -, -⟩⟩ :=
    d.exists_layout
  · exact .inl (hwhole c (hlayout ▸ h))
  · rw [hlayout, List.mem_append, List.mem_cons] at h
    rcases h with h | h | h
    · exact .inl (hwhole c h)
    · exact .inr h
    · exact .inl (hfraction c h)

end Decimal

namespace Numeral

theorem toLower_of_isDigit {c : Char} (h : c.isDigit) : c.toLower = c := by
  simp only [Char.isDigit, Bool.and_eq_true, decide_eq_true_eq] at h
  refine dif_neg ?_
  rintro ⟨hupper, -⟩
  exact absurd (UInt32.le_trans hupper h.2) (by decide)

/-- What begins with a digit is no name. -/
theorem ofChars?_of_isDigit {c : Char} (h : c.isDigit) (cs : List Char) :
    ofChars? (c :: cs) = decimal? (c :: cs) := by
  have hne (d : Char) (rest : List Char) (hd : d.isDigit = false) :
      String.ofList ((c :: cs).map Char.toLower) ≠ String.ofList (d :: rest) := by
    intro heq
    have hhead := List.head_eq_of_cons_eq (String.ofList_injective heq)
    rw [toLower_of_isDigit h] at hhead
    rw [hhead, hd] at h
    contradiction
  unfold ofChars?
  split
  · next heq => exact absurd heq (hne 'i' ['n', 'f'] rfl)
  · next heq => exact absurd heq (hne 'i' ['n', 'f', 'i', 'n', 'i', 't', 'y'] rfl)
  · next heq => exact absurd heq (hne 'n' ['a', 'n'] rfl)
  · rfl

end Numeral

namespace Binary

variable {F : Format}

/-- A sign is taken off a text, and what is left has none of its own. -/
theorem ofText_of_ofChars? (negative : Bool) {c : Char} {cs : List Char} {numeral : Numeral}
    (hminus : c ≠ '-') (hplus : c ≠ '+') (h : Numeral.ofChars? (c :: cs) = some numeral) :
    ofText (F := F) (String.ofList (if negative then '-' :: c :: cs else c :: cs)) =
      .ok (ofNumeral negative numeral) := by
  have hsplit : Numeral.splitSign (if negative then '-' :: c :: cs else c :: cs) =
      (negative, c :: cs) := by
    cases negative with
    | true => rfl
    | false => simp [Numeral.splitSign, hminus, hplus]
  have hempty : (String.ofList (if negative then '-' :: c :: cs else c :: cs)).isEmpty = false := by
    cases negative <;> simp
  simp only [ofText, String.toList_ofList, hsplit, hempty, h, Bool.false_eq_true, if_false]

/-- Reading a layout finds the datum whose cell holds the decimal. -/
theorem ofText_layout (hF : 0 < F.fractionBits) {x : Binary F} (hrank : x.rank < F.infinity)
    {d : Decimal} {grid : Nat} (hexponent : d.exponent = grid - F.scale)
    (hcell : F.InCell x.rank (d.digits * 10 ^ grid) (5 ^ F.scale)) :
    ofText (String.ofList (if x.negative then '-' :: d.layout else d.layout)) = .ok x := by
  obtain ⟨c, cs, hlayout, hc⟩ := d.exists_head_layout
  obtain ⟨numeral, hnumeral, hvalue⟩ := d.decimal?_layout
  rw [hlayout] at hnumeral ⊢
  have hchars : Numeral.ofChars? (c :: cs) = some numeral := by
    rw [Numeral.ofChars?_of_isDigit hc, hnumeral]
  have hsign {sign : Char} (hsign : sign.isDigit = false) : c ≠ sign := by
    rintro rfl
    simp [hsign] at hc
  rw [ofText_of_ofChars? x.negative (hsign rfl) (hsign rfl) hchars, hvalue,
    ofDecimal_eq hF hrank x.negative hexponent hcell]

/-- Reading the text of a datum gives the datum back, save that every NaN becomes the one without
sign and payload. -/
theorem ofText_text (hF : 0 < F.fractionBits) (x : Binary F) : ofText x.text = .ok x.canonical := by
  unfold text canonical
  split
  · have hchars : Numeral.ofChars? ['N', 'a', 'N'] = some .notANumber := rfl
    exact ofText_of_ofChars? false (by decide) (by decide) hchars
  · next hnan =>
    simp only [isNaN, decide_eq_true_eq] at hnan
    split
    · next hinf =>
      simp only [isInfinite, beq_iff_eq] at hinf
      have hchars : Numeral.ofChars? ['i', 'n', 'f'] = some .infinite := rfl
      have hread := ofText_of_ofChars? (F := F) x.negative (by decide) (by decide) hchars
      rw [hread]
      simp only [ofNumeral, infinite, ← hinf]
    · next hinf =>
      simp only [isInfinite, beq_iff_eq] at hinf
      have hrank : x.rank < F.infinity := by omega
      split
      · next hzero =>
        simp only [isZero, beq_iff_eq] at hzero
        have hexponent : (⟨0, 0⟩ : Decimal).exponent = F.scale - F.scale := by simp
        refine ofText_layout hF hrank hexponent ?_
        simp [hzero, Format.InCell, Format.units]
      · next hzero =>
        simp only [isZero, beq_iff_eq] at hzero
        obtain ⟨grid, hexponent, hcell⟩ := Format.coarsest_inCell hzero _
        exact ofText_layout hF hrank hexponent hcell

/-- A text is made of digits, a point, a sign and the letters of the two names. -/
theorem mem_text {x : Binary F} {c : Char} (h : c ∈ x.text.toList) :
    c.isDigit ∨ c ∈ ['.', '-', 'N', 'a', 'i', 'n', 'f'] := by
  unfold text at h
  split at h
  · have hname : c ∈ ['N', 'a', 'N'] := h
    right
    simp only [List.mem_cons, List.not_mem_nil] at hname ⊢
    tauto
  · simp only [String.toList_ofList] at h
    have hsigned : c = '-' ∨ c ∈ if x.isInfinite then ['i', 'n', 'f'] else if x.isZero then ['0']
        else (F.shortest x.rank).layout := by
      split at h
      · exact List.mem_cons.1 h
      · exact .inr h
    rcases hsigned with rfl | hmagnitude
    · simp
    · split at hmagnitude
      · right
        simp only [List.mem_cons, List.not_mem_nil] at hmagnitude ⊢
        tauto
      · split at hmagnitude
        · left
          rw [List.mem_singleton.1 hmagnitude]
          rfl
        · exact (Decimal.isDigit_or_eq_point_of_mem_layout hmagnitude).imp_right (by simp [·])

theorem not_mem_text {x : Binary F} {c : Char} (hdigit : c.isDigit = false)
    (hother : c ∉ ['.', '-', 'N', 'a', 'i', 'n', 'f']) : c ∉ x.text.toList := by
  intro h
  rcases mem_text h with h | h
  · rw [hdigit] at h
    contradiction
  · exact hother h

end Binary

end Planimeter
