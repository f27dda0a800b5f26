import Planimeter.Proofs.Text.Digits
import Planimeter.Yaml.Schema
import Planimeter.Yaml.Write
import Mathlib.Data.List.TakeWhile
/-!
# Plain texts stand for themselves

A text that is written without quotes is read as a text: whatever the schema takes for a number is
one of the numbers that are put between quotes, and so are its other words.
-/
namespace Planimeter.Yaml

open Text (natural? digit? digits_of_natural? isDigit_of_digit?)

namespace Write

/-- What the characters of a text are if it may stand without quotes. -/
structure Plain (cs : List Char) : Prop where
  ne_nil : cs ≠ []
  reserved : isReserved cs = false
  number : isNumber cs = false
  first : ∀ c ∈ cs.head?, isFirstIndicator c = false
  colonGap : hasColonGap cs = false
  last : (Text.trim cs).getLast? ≠ some ':'
  excluded : ∀ c ∈ cs, isExcluded c = false

theorem plain_of_isPlain {cs : List Char} (h : isPlain cs) : Plain cs := by
  cases cs with
  | nil => contradiction
  | cons first rest =>
    simp only [isPlain, Bool.not_eq_true', Bool.or_eq_false_iff, List.any_eq_false,
      beq_eq_false_iff_ne, Bool.not_eq_true] at h
    obtain ⟨⟨⟨⟨⟨hreserved, hnumber⟩, hfirst⟩, hgap⟩, hlast⟩, hexcluded⟩ := h
    exact ⟨by simp, hreserved, hnumber, by simpa using hfirst, hgap, hlast, hexcluded⟩

theorem isFigure_of_isDigit {c : Char} (h : c.isDigit) : isFigure c := by
  simp [isFigure, h]

/-- What follows a text of digits alone. -/
theorem afterDigits?_of_all {cs : List Char} (hcs : cs ≠ []) (h : ∀ c ∈ cs, c.isDigit) :
    afterDigits? cs = some [] := by
  obtain ⟨c, cs, rfl⟩ := List.exists_cons_of_ne_nil hcs
  obtain ⟨hc, hrest⟩ := List.forall_mem_cons.1 h
  have hfigures : cs.dropWhile isFigure = [] :=
    List.dropWhile_eq_nil_iff.2 fun d hd => isFigure_of_isDigit (hrest d hd)
  simp [afterDigits?, hc, hfigures]

/-- Figures end where the digits do unless an underscore follows. -/
theorem dropWhile_isFigure {cs : List Char} (h : (cs.dropWhile Char.isDigit).head? ≠ some '_') :
    cs.dropWhile isFigure = cs.dropWhile Char.isDigit := by
  induction cs with
  | nil => rfl
  | cons c cs ih =>
    by_cases hc : c.isDigit
    · rw [List.dropWhile_cons_of_pos (isFigure_of_isDigit hc), List.dropWhile_cons_of_pos hc]
      rw [List.dropWhile_cons_of_pos hc] at h
      exact ih h
    · rw [List.dropWhile_cons_of_neg hc] at h ⊢
      have hfigure : ¬isFigure c := by simpa [isFigure, hc] using h
      exact List.dropWhile_cons_of_neg hfigure

/-- Digits, one at least, and what follows the figures after them. -/
theorem afterDigits?_of_takeWhile {cs : List Char} (hdigits : cs.takeWhile Char.isDigit ≠ [])
    (h : (cs.dropWhile Char.isDigit).head? ≠ some '_') :
    afterDigits? cs = some (cs.dropWhile Char.isDigit) := by
  cases cs with
  | nil => contradiction
  | cons c cs =>
    by_cases hc : c.isDigit
    · rw [List.dropWhile_cons_of_pos hc] at h ⊢
      rw [afterDigits?, if_pos hc, dropWhile_isFigure h]
    · rw [List.takeWhile_cons_of_neg hc] at hdigits
      contradiction

theorem isExponent_of_exponent? {cs : List Char} {e : Int} (h : Numeral.exponent? cs = some e) :
    isExponent cs := by
  cases cs with
  | nil => rfl
  | cons c cs =>
    simp only [Numeral.exponent?] at h
    split at h
    · next hcond =>
      simp only [Bool.and_eq_true, Bool.or_eq_true, decide_eq_true_eq, Bool.not_eq_true',
        List.isEmpty_eq_false_iff, List.all_eq_true] at hcond
      obtain ⟨⟨hc, hdigits⟩, hall⟩ := hcond
      have hafter := afterDigits?_of_all hdigits hall
      simp only [isExponent, Bool.and_eq_true, Bool.or_eq_true, beq_iff_eq]
      refine ⟨hc, ?_⟩
      unfold Numeral.splitSign at hafter
      split at hafter <;> simp [hafter]
    · contradiction

/-- No underscore stands where an exponent may begin. -/
theorem head?_of_exponent? {cs : List Char} {e : Int} (h : Numeral.exponent? cs = some e) :
    cs.head? ≠ some '_' := by
  cases cs with
  | nil => simp
  | cons c cs =>
    have hexponent := isExponent_of_exponent? h
    simp only [isExponent, Bool.and_eq_true, Bool.or_eq_true, beq_iff_eq] at hexponent
    rcases hexponent.1 with rfl | rfl <;> simp

/-- Digits and an exponent, perhaps with a point between them, are a number. -/
theorem isUnsignedNumber_of_digits {cs rest : List Char}
    (hcs : cs.dropWhile Char.isDigit = rest) (hdigits : cs.takeWhile Char.isDigit ≠ [])
    (hrest : isExponent rest ∨ ∃ r, rest = '.' :: r ∧ isExponent (r.dropWhile isFigure)) :
    isUnsignedNumber cs := by
  have hhead : ∀ c, rest.head? = some c → c = 'e' ∨ c = 'E' ∨ c = '.' := by
    rcases hrest with hrest | ⟨r, rfl, -⟩
    · cases rest with
      | nil => simp
      | cons c r =>
        simp only [isExponent, Bool.and_eq_true, Bool.or_eq_true, beq_iff_eq] at hrest
        rcases hrest.1 with rfl | rfl <;> simp
    · simp
  have hafter : afterDigits? cs = some rest := by
    rw [afterDigits?_of_takeWhile hdigits, hcs]
    rw [hcs]
    intro hunderscore
    simpa using hhead '_' hunderscore
  have hbase (d : Char) (ds : List Char) (hd : d ∈ ['x', 'o', 'b']) : cs ≠ '0' :: d :: ds := by
    rintro rfl
    simp only [List.mem_cons, List.not_mem_nil, or_false] at hd
    rcases hd with rfl | rfl | rfl
    all_goals
      obtain rfl : _ :: ds = rest := hcs
      simpa using hhead _ rfl
  unfold isUnsignedNumber
  split
  · next ds => exact absurd rfl (hbase 'x' ds (by simp))
  · next ds => exact absurd rfl (hbase 'o' ds (by simp))
  · next ds => exact absurd rfl (hbase 'b' ds (by simp))
  · next ds => simp [afterDigits?] at hafter
  · rw [hafter]
    rcases hrest with hrest | ⟨r, rfl, hrest⟩
    · cases rest with
      | nil => rfl
      | cons c r =>
        by_cases hc : c = '.'
        · simp [hc, isExponent] at hrest
        · simpa [hc] using hrest
    · exact hrest

/-- A numeral is a number. -/
theorem isUnsignedNumber_of_decimal? {cs : List Char} {numeral : Numeral}
    (h : Numeral.decimal? cs = some numeral) : isUnsignedNumber cs := by
  unfold Numeral.decimal? at h
  dsimp only at h
  split at h
  · next r hpoint =>
    split at h
    · contradiction
    · next hdigits =>
      obtain ⟨e, he, -⟩ := Option.map_eq_some_iff.1 h
      have hexponent := isExponent_of_exponent? he
      by_cases hwhole : cs.takeWhile Char.isDigit = []
      · have hfraction : r.takeWhile Char.isDigit ≠ [] := by simpa [hwhole] using hdigits
        have hcs : cs = '.' :: r := by
          rw [← List.takeWhile_append_dropWhile (p := Char.isDigit) (l := cs), hwhole, hpoint]
          rfl
        rw [hcs, isUnsignedNumber, afterDigits?_of_takeWhile hfraction (head?_of_exponent? he)]
        exact hexponent
      · rw [← dropWhile_isFigure (head?_of_exponent? he)] at hexponent
        exact isUnsignedNumber_of_digits hpoint hwhole (.inr ⟨r, rfl, hexponent⟩)
  · split at h
    · contradiction
    · next hdigits =>
      obtain ⟨e, he, -⟩ := Option.map_eq_some_iff.1 h
      exact isUnsignedNumber_of_digits rfl (by simpa using hdigits)
        (.inl (isExponent_of_exponent? he))

theorem isDigits_of_natural? {base n : Nat} {cs : List Char} (h : natural? base cs = some n) :
    isDigits base cs := by
  obtain ⟨hcs, hdigits⟩ := digits_of_natural? h
  simp only [isDigits, Bool.and_eq_true, List.all_eq_true, Bool.or_eq_true]
  exact ⟨by simpa using hcs, fun c hc => .inl (hdigits c hc)⟩

/-- An integer is a number in each of the bases. -/
theorem isUnsignedNumber_of_magnitude? {cs : List Char} {n : Nat}
    (h : Schema.magnitude? cs = some n) : isUnsignedNumber cs := by
  rw [Schema.magnitude?, Option.orElse_eq_orElse, Option.orElse_eq_or] at h
  rcases Option.or_eq_some_iff.1 h with hradix | ⟨-, hten⟩
  · unfold Schema.radix? at hradix
    split at hradix
    · exact isDigits_of_natural? hradix
    · exact isDigits_of_natural? hradix
    · exact isDigits_of_natural? hradix
    · contradiction
  · split at hten
    · contradiction
    · obtain ⟨hcs, hdigits⟩ := digits_of_natural? hten
      have hall : ∀ c ∈ cs, c.isDigit := fun c hc => isDigit_of_digit? (hdigits c hc)
      refine isUnsignedNumber_of_digits (List.dropWhile_eq_nil_iff.2 hall) ?_ (.inl rfl)
      rwa [List.takeWhile_eq_self_iff.2 hall]

theorem isNumber_eq (cs : List Char) : isNumber cs = isUnsignedNumber (Numeral.splitSign cs).2 := by
  unfold isNumber
  split
  · rfl
  · rfl
  · next hplus hminus =>
    unfold Numeral.splitSign
    split
    · exact absurd rfl (hminus _)
    · exact absurd rfl (hplus _)
    · rfl

end Write

namespace Schema

variable {cs : List Char} {text word : String}

theorem integer?_cases {cs : List Char} {v : Value} (h : integer? cs = some v) :
    (∃ w n, v = .unsigned w n) ∨ ∃ w n, v = .signed w n := by
  unfold integer? at h
  split at h <;> obtain ⟨n, -, h⟩ := Option.bind_eq_some_iff.1 h <;> split at h
  · exact .inr ⟨_, _, (Option.some.inj h).symm⟩
  · split at h
    · exact .inr ⟨_, _, (Option.some.inj h).symm⟩
    · contradiction
  · exact .inl ⟨_, _, (Option.some.inj h).symm⟩
  · split at h
    · exact .inl ⟨_, _, (Option.some.inj h).symm⟩
    · contradiction

/-- A plain scalar stands for its own text, or else for no text, character or table. -/
theorem value_cases (t : String) : value t = .text t ∨
    (∀ u, value t ≠ .text u) ∧ (∀ c, value t ≠ .char c) ∧ ∀ entries, value t ≠ .table entries := by
  unfold value
  split
  · simp
  · split
    · simp
    · next v hv =>
      rcases integer?_cases hv with ⟨_, _, rfl⟩ | ⟨_, _, rfl⟩ <;> simp
    · split
      · simp
      · split <;> simp

theorem ne_word (h : Write.isReserved cs = false) (hword : Write.isReserved word.toList) :
    String.ofList cs ≠ word := by
  rintro rfl
  rw [String.toList_ofList, h] at hword
  contradiction

theorem isNull_eq_false (h : Write.isReserved cs = false) : isNull (String.ofList cs) = false := by
  simp only [isNull, Bool.or_eq_false_iff, beq_eq_false_iff_ne]
  exact ⟨⟨⟨ne_word h (by decide), ne_word h (by decide)⟩, ne_word h (by decide)⟩,
    ne_word h (by decide)⟩

theorem bool?_eq_none (h : Write.isReserved cs = false) : bool? (String.ofList cs) = none := by
  have htrue : String.ofList cs ≠ "true" ∧ String.ofList cs ≠ "True" ∧ String.ofList cs ≠ "TRUE" :=
    ⟨ne_word h (by decide), ne_word h (by decide), ne_word h (by decide)⟩
  have hfalse : String.ofList cs ≠ "false" ∧ String.ofList cs ≠ "False" ∧
      String.ofList cs ≠ "FALSE" :=
    ⟨ne_word h (by decide), ne_word h (by decide), ne_word h (by decide)⟩
  simp [bool?, htrue, hfalse]

theorem integer?_eq_none (h : Write.isNumber cs = false) : integer? cs = none := by
  have hmagnitude : magnitude? (Numeral.splitSign cs).2 = none := by
    cases hn : magnitude? (Numeral.splitSign cs).2 with
    | none => rfl
    | some n =>
      rw [Write.isNumber_eq, Write.isUnsignedNumber_of_magnitude? hn] at h
      contradiction
  unfold integer?
  split
  · next cs =>
    have hcs : magnitude? cs = none := hmagnitude
    rw [hcs]
    rfl
  · rw [hmagnitude]
    rfl

theorem specialFloat?_eq_none (h : Write.isReserved cs = false) :
    specialFloat? (String.ofList cs) = none := by
  unfold specialFloat?
  split
  case h_13 => rfl
  all_goals
    next heq => exact absurd heq (ne_word h (by decide))

/-- A finite datum is written as a numeral. -/
theorem decimal?_of_ofText {x : Binary64}
    (h : (Binary.ofText text : Except NumeralError Binary64) = .ok x)
    (hfinite : x.isNaN = false ∧ x.isInfinite = false) :
    (Numeral.decimal? (Numeral.splitSign text.toList).2).isSome := by
  unfold Binary.ofText at h
  dsimp only at h
  split at h
  · contradiction
  · split at h
    · next numeral hnumeral =>
      obtain rfl := Except.ok.inj h
      unfold Numeral.ofChars? at hnumeral
      split at hnumeral
      · obtain rfl := Option.some.inj hnumeral
        simp [Binary.ofNumeral, Binary.infinite, Binary.isInfinite] at hfinite
      · obtain rfl := Option.some.inj hnumeral
        simp [Binary.ofNumeral, Binary.infinite, Binary.isInfinite] at hfinite
      · obtain rfl := Option.some.inj hnumeral
        exact absurd hfinite.1 (by cases (Numeral.splitSign text.toList).1 <;> decide)
      · exact Option.isSome_of_eq_some hnumeral
    · contradiction

theorem float?_eq_none (hreserved : Write.isReserved cs = false)
    (hnumber : Write.isNumber cs = false) : float? (String.ofList cs) = none := by
  rw [float?, specialFloat?_eq_none hreserved]
  cases hx : (Binary.ofText (String.ofList cs) : Except NumeralError Binary64) with
  | error e => rfl
  | ok x =>
    by_cases hfinite : x.isNaN = false ∧ x.isInfinite = false
    · obtain ⟨numeral, hnumeral⟩ := Option.isSome_iff_exists.1 (decimal?_of_ofText hx hfinite)
      rw [String.toList_ofList] at hnumeral
      rw [Write.isNumber_eq, Write.isUnsignedNumber_of_decimal? hnumeral] at hnumber
      contradiction
    · have hspecial : (x.isNaN || x.isInfinite) = true := by
        simpa [imp_iff_or_not, or_comm] using hfinite
      simp [hspecial]

/-- A text that may stand without quotes stands for itself. -/
theorem value_of_isPlain (h : Write.isPlain cs) :
    value (String.ofList cs) = .text (String.ofList cs) := by
  have hplain := Write.plain_of_isPlain h
  have hempty : (String.ofList cs).isEmpty = false := by
    simpa [String.isEmpty_iff] using hplain.ne_nil
  simp only [value, hempty, isNull_eq_false hplain.reserved, bool?_eq_none hplain.reserved,
    String.toList_ofList, integer?_eq_none hplain.number,
    float?_eq_none hplain.reserved hplain.number, Bool.or_self, Bool.false_eq_true, if_false,
    ite_self]

end Schema

end Planimeter.Yaml
