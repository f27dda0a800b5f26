import Planimeter.Proofs.Binary.Shortest
import Mathlib.Data.Nat.Log
/-!
# Plain texts of data

The digits of a decimal are laid out with at most one point and no exponent. If the last digit is
not zero, then there is no zero at the end of a fraction, nor one in front but before a point. The
text laid out still writes the decimal, so that what is printed for a finite datum other than zero
is the shortest decimal that reads back to it, and of those the nearest one.
-/
namespace Planimeter

open Numeral (IsSign Writes Signed)

/-- Digits with at most one point, without a zero in front save before a point, and without a zero
at the end of a fraction. -/
inductive Plain : List Char → Prop where
  | whole {digits : List Char} (hdigits : ∀ c ∈ digits, c.isDigit) (hne : digits ≠ [])
      (hlead : digits.head? ≠ some '0') : Plain digits
  | pointed {whole fraction : List Char} (hwhole : ∀ c ∈ whole, c.isDigit)
      (hlead : whole = ['0'] ∨ whole ≠ [] ∧ whole.head? ≠ some '0')
      (hfraction : ∀ c ∈ fraction, c.isDigit) (hne : fraction ≠ [])
      (htrail : fraction.getLast? ≠ some '0') : Plain (whole ++ '.' :: fraction)

namespace Decimal

variable {n : Nat} {d : Decimal}

theorem digitChar_ne_zero : ∀ n < 10, n ≠ 0 → Nat.digitChar n ≠ '0' := by decide

theorem getLast?_toDigits (n : Nat) :
    (Nat.toDigits 10 n).getLast? = some (Nat.digitChar (n % 10)) := by
  rw [Nat.toDigits_eq_if (by decide)]
  split
  · next h => rw [Nat.mod_eq_of_lt h, List.getLast?_singleton]
  · rw [List.getLast?_append, List.getLast?_singleton, Option.some_or]

theorem head?_toDigits_ne (h : n ≠ 0) : (Nat.toDigits 10 n).head? ≠ some '0' := by
  induction n using Nat.strong_induction_on with
  | _ n ih =>
    rw [Nat.toDigits_eq_if (by decide)]
    split
    · next hn =>
      rw [List.head?_singleton]
      exact fun hzero => digitChar_ne_zero n hn h (Option.some.inj hzero)
    · next hn =>
      have hhead := ih (n / 10) (by omega) (by omega)
      obtain ⟨c, cs, hcs⟩ :=
        List.exists_cons_of_ne_nil (Nat.toDigits_ne_nil (b := 10) (n := n / 10))
      rw [hcs] at hhead ⊢
      exact hhead

/-- A decimal whose last digit is not zero is laid out plainly. -/
theorem plain_layout (h : d.digits % 10 ≠ 0) : Plain d.layout := by
  have hlead : (Nat.toDigits 10 d.digits).head? ≠ some '0' := head?_toDigits_ne (by omega)
  have htrail : (Nat.toDigits 10 d.digits).getLast? ≠ some '0' := by
    rw [getLast?_toDigits]
    exact fun hzero => digitChar_ne_zero _ (Nat.mod_lt _ (by decide)) h (Option.some.inj hzero)
  have hdigit : ∀ c ∈ Nat.toDigits 10 d.digits, c.isDigit := fun c => isDigit_of_mem_digits
  have hzero (count : Nat) : ∀ c ∈ List.replicate count '0', c.isDigit := by
    intro c hc
    rw [List.eq_of_mem_replicate hc]
    rfl
  have hne : Nat.toDigits 10 d.digits ≠ [] := Nat.toDigits_ne_nil
  simp only [layout]
  generalize Nat.toDigits 10 d.digits = digits at *
  split
  · refine .whole (fun c hc => (List.mem_append.1 hc).elim (hdigit c) (hzero _ c)) ?_ ?_
    · exact List.append_ne_nil_of_left_ne_nil hne _
    · rwa [List.head?_append_of_ne_nil _ hne]
  · next hplaces =>
    split
    · next hlt =>
      have hcut : 0 < digits.length - (-d.exponent).toNat := by omega
      refine .pointed (fun c hc => hdigit c (List.mem_of_mem_take hc)) (.inr ⟨?_, ?_⟩)
        (fun c hc => hdigit c (List.mem_of_mem_drop hc)) ?_ ?_
      · exact List.ne_nil_of_length_pos (by rw [List.length_take]; omega)
      · rwa [List.head?_take, if_neg (by omega)]
      · exact List.ne_nil_of_length_pos (by rw [List.length_drop]; omega)
      · rwa [List.getLast?_drop, if_neg (by omega)]
    · refine @Plain.pointed ['0'] (_ ++ digits) (by simp) (.inl rfl)
        (fun c hc => (List.mem_append.1 hc).elim (hzero _ c) (hdigit c)) ?_ ?_
      · exact List.append_ne_nil_of_right_ne_nil _ hne
      · rwa [List.getLast?_append_of_ne_nil _ hne]

/-- The text laid out writes the decimal. -/
theorem writes_layout (d : Decimal) {sign : List Char} {negative : Bool}
    (hsign : IsSign sign negative) : Writes (sign ++ d.layout) negative d.value := by
  obtain ⟨whole, fraction, hne, hwhole, hfraction, ⟨hlayout, hexponent, hvalue⟩ |
    ⟨hlayout, hexponent, hvalue⟩⟩ := d.exists_layout
  · have h := Writes.whole hsign hne hwhole .none
    obtain ⟨places, hplaces⟩ := Int.eq_ofNat_of_zero_le hexponent
    rw [List.append_nil, hvalue, ← hlayout, hplaces] at h
    rw [value, hplaces, zpow_natCast, mul_comm]
    simpa using h
  · have h := Writes.pointed hsign (.inl hne) hwhole hfraction .none
    rw [List.append_nil, ← hlayout] at h
    rw [value, hexponent, ← hvalue, Numeral.ofDigits_append, zpow_neg, zpow_natCast]
    convert h using 1
    push_cast
    field_simp

end Decimal

namespace Binary

theorem toList_text_of_isFinite {F : Format} {x : Binary F} (hfinite : x.IsFinite)
    (hrank : x.rank ≠ 0) : x.text.toList =
      (if x.negative then ['-'] else []) ++ (F.shortest x.rank).layout := by
  have htext : x.text = String.ofList (if x.negative then '-' :: (F.shortest x.rank).layout
      else (F.shortest x.rank).layout) := by
    simp [text, hfinite, isZero, hrank]
  rw [htext, String.toList_ofList]
  split <;> rfl

@[simp] theorem canonical_of_isFinite {F : Format} {x : Binary F} (hfinite : x.IsFinite) :
    x.canonical = x := by
  rw [canonical, hfinite.isNaN, if_neg (by decide)]

end Binary

/-- A text for a datum: plain digits with a minus if the datum is negative, which are read as the
datum. No decimal with fewer significant digits is, and none with as many that is read so is nearer
to the exact magnitude. -/
structure ShortestText (x : Binary32) (text : String) : Prop where
  plain : ∃ body, text.toList = (if x.negative then ['-'] else []) ++ body ∧ Plain body
  reads : Binary.ofText text = .ok x
  shortest : ∃ count m, Writes text.toList x.negative m ∧ HasDigits count m ∧
    ∀ (other : String) (negative : Bool) (n : Nat) (e : ℤ),
      Signed other.toList negative (.decimal n e) → Binary.ofText other = .ok x →
        (∀ fewer < count, ¬HasDigits fewer (n * 10 ^ e)) ∧
        (HasDigits count (n * 10 ^ e) → |m - x.magnitude| ≤ |n * 10 ^ e - x.magnitude|)

/-- What is printed for a finite datum other than zero is such a text. -/
theorem shortestText_text {x : Binary32} (hfinite : x.IsFinite) (hrank : x.rank ≠ 0) :
    ShortestText x x.text := by
  have hd := Format.isCoarsest_shortest Format.fractionBits_single hfinite hrank
  have htext := Binary.toList_text_of_isFinite hfinite hrank
  have hsign : IsSign (if x.negative then ['-'] else []) x.negative := by
    cases x.negative
    · exact .none
    · exact .minus
  generalize Format.single.shortest x.rank = d at *
  have hwrites : Writes x.text.toList x.negative d.value := htext ▸ d.writes_layout hsign
  have hle : 10 ^ Nat.log 10 d.digits ≤ d.digits := Nat.pow_log_le_self 10
    (hd.isNearest.ne_zero Format.fractionBits_single Format.infinity_single hrank)
  refine ⟨⟨_, htext, Decimal.plain_layout hd.digits_mod_ne_zero⟩, ?_, Nat.log 10 d.digits + 1,
    d.value, hwrites, ⟨d.digits, d.exponent, Nat.lt_pow_succ_log_self (by decide) _, rfl⟩, ?_⟩
  · rw [Binary.ofText_text Format.fractionBits_single, Binary.canonical_of_isFinite hfinite]
  · intro other negative n e hsigned hother
    have hx : Binary.ofDecimal negative n e = x :=
      Except.ok.inj ((Binary.ofText_eq_ok_iff.2 ⟨negative, _, hsigned, rfl⟩).symm.trans hother)
    have hn := Binary.isNearest_ofDecimal Format.fractionBits_single Format.infinity_single
      negative n e
    rw [hx] at hn
    constructor
    · intro fewer hfewer
      refine hd.not_hasDigits Format.fractionBits_single Format.infinity_single hrank hn
        (le_trans (Nat.pow_le_pow_right (by decide) (Nat.le_of_lt_succ hfewer)) hle)
    · intro hdigits
      exact hd.abs_sub_le_of_hasDigits hrank hfinite hn hle hdigits

end Planimeter
