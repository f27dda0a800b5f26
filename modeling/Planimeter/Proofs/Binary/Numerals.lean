import Planimeter.Proofs.Text.Pieces
/-!
# The grammar of numerals

A numeral is an optional sign and then the name of infinity or of NaN in any case, or digits with at
most one point among or around them and an optional exponent. The relations say what a text spells;
the main statements are that reading accepts exactly the texts that spell something, and takes each
for what it spells.
-/
namespace Planimeter

namespace Numeral

variable {cs digits rest : List Char} {negative : Bool} {e : Int} {n : Nat}

/-- The signs, and whether they are a minus. -/
inductive IsSign : List Char → Bool → Prop where
  | none : IsSign [] false
  | plus : IsSign ['+'] false
  | minus : IsSign ['-'] true

/-- The exponents, of which no text is one, and their values. -/
inductive IsExponent : List Char → Int → Prop where
  | none : IsExponent [] 0
  | marked {mark : Char} {sign digits : List Char} {negative : Bool}
      (hmark : mark = 'e' ∨ mark = 'E') (hsign : IsSign sign negative) (hne : digits ≠ [])
      (hdigits : ∀ c ∈ digits, c.isDigit) :
      IsExponent (mark :: (sign ++ digits))
        (if negative then -(exponentOfDigits digits : Int) else exponentOfDigits digits)

/-- The decimals without a sign: all digits as one number, and the power of ten that scales it. -/
inductive IsDecimal : List Char → Nat → Int → Prop where
  | whole {whole exponent : List Char} {e : Int} (hne : whole ≠ [])
      (hwhole : ∀ c ∈ whole, c.isDigit) (hexponent : IsExponent exponent e) :
      IsDecimal (whole ++ exponent) (ofDigits whole) e
  | pointed {whole fraction exponent : List Char} {e : Int} (hne : whole ≠ [] ∨ fraction ≠ [])
      (hwhole : ∀ c ∈ whole, c.isDigit) (hfraction : ∀ c ∈ fraction, c.isDigit)
      (hexponent : IsExponent exponent e) :
      IsDecimal (whole ++ '.' :: (fraction ++ exponent)) (ofDigits (whole ++ fraction))
        (e - fraction.length)

/-- The numerals without a sign, and what they spell. -/
inductive Spells : List Char → Numeral → Prop where
  | infinite {cs : List Char} (h : cs.map Char.toLower = "inf".toList ∨
      cs.map Char.toLower = "infinity".toList) : Spells cs .infinite
  | notANumber {cs : List Char} (h : cs.map Char.toLower = "nan".toList) : Spells cs .notANumber
  | decimal {cs : List Char} {n : Nat} {e : Int} (h : IsDecimal cs n e) : Spells cs (.decimal n e)

/-- The numerals with an optional sign. -/
inductive Signed : List Char → Bool → Numeral → Prop where
  | mk {sign body : List Char} {negative : Bool} {numeral : Numeral} (hsign : IsSign sign negative)
      (hbody : Spells body numeral) : Signed (sign ++ body) negative numeral

theorem exists_sign (cs : List Char) :
    ∃ sign, IsSign sign (splitSign cs).1 ∧ cs = sign ++ (splitSign cs).2 := by
  unfold splitSign
  split
  · exact ⟨['-'], .minus, rfl⟩
  · exact ⟨['+'], .plus, rfl⟩
  · exact ⟨[], .none, rfl⟩

/-- A sign is split off where no other follows it. -/
theorem splitSign_append {sign : List Char} (h : IsSign sign negative)
    (hrest : ∀ c ∈ rest.head?, c ≠ '-' ∧ c ≠ '+') :
    splitSign (sign ++ rest) = (negative, rest) := by
  cases h with
  | plus => rfl
  | minus => rfl
  | none =>
    cases rest with
    | nil => rfl
    | cons c rest =>
      obtain ⟨hminus, hplus⟩ := hrest c rfl
      simp [splitSign, hminus, hplus]

theorem isDigit_ne {c d : Char} (h : c.isDigit) (hd : d.isDigit = false) : c ≠ d := by
  rintro rfl
  rw [h] at hd
  contradiction

theorem exponent?_eq_some_iff : exponent? cs = some e ↔ IsExponent cs e := by
  constructor
  · intro h
    cases cs with
    | nil =>
      obtain rfl : 0 = e := Option.some.inj h
      exact .none
    | cons mark cs =>
      obtain ⟨sign, hsign, hcs⟩ := exists_sign cs
      simp only [exponent?] at h
      split at h
      · next hcond =>
        simp only [Bool.and_eq_true, Bool.or_eq_true, decide_eq_true_eq, Bool.not_eq_true',
          List.isEmpty_eq_false_iff, List.all_eq_true] at hcond
        obtain ⟨⟨hmark, hne⟩, hdigits⟩ := hcond
        rw [hcs, ← Option.some.inj h]
        exact .marked hmark hsign hne hdigits
      · contradiction
  · intro h
    cases h with
    | none => rfl
    | @marked mark sign digits negative hmark hsign hne hdigits =>
      have hsplit : splitSign (sign ++ digits) = (negative, digits) := by
        refine splitSign_append hsign fun c hc => ?_
        have hdigit := hdigits c (List.mem_of_mem_head? hc)
        exact ⟨isDigit_ne hdigit rfl, isDigit_ne hdigit rfl⟩
      have hall : digits.all Char.isDigit = true := List.all_eq_true.2 hdigits
      simp [exponent?, hsplit, hmark, hne, hall]

/-- An exponent begins neither with a digit nor with a point. -/
theorem IsExponent.head (h : IsExponent cs e) : ∀ c ∈ cs.head?, c.isDigit = false ∧ c ≠ '.' := by
  cases h with
  | none => simp
  | marked hmark => rcases hmark with rfl | rfl <;> simp

theorem IsExponent.takeWhile (h : IsExponent rest e) (hdigits : ∀ c ∈ digits, c.isDigit) :
    (digits ++ rest).takeWhile Char.isDigit = digits ∧
      (digits ++ rest).dropWhile Char.isDigit = rest :=
  Text.span_append hdigits fun c hc => (h.head c hc).1

theorem decimal?_of_point {r : List Char} (h : cs.dropWhile Char.isDigit = '.' :: r) :
    decimal? cs =
      if cs.takeWhile Char.isDigit = [] ∧ r.takeWhile Char.isDigit = [] then none
      else (exponent? (r.dropWhile Char.isDigit)).map fun e =>
        .decimal (ofDigits (cs.takeWhile Char.isDigit ++ r.takeWhile Char.isDigit))
          (e - (r.takeWhile Char.isDigit).length) := by
  simp only [decimal?, h]
  congr 1
  simp

theorem decimal?_of_no_point (h : ∀ c ∈ (cs.dropWhile Char.isDigit).head?, c ≠ '.') :
    decimal? cs =
      if cs.takeWhile Char.isDigit = [] then none
      else (exponent? (cs.dropWhile Char.isDigit)).map fun e =>
        .decimal (ofDigits (cs.takeWhile Char.isDigit)) e := by
  cases hdrop : cs.dropWhile Char.isDigit with
  | nil => simp [decimal?, hdrop]
  | cons c r =>
    have hc : c ≠ '.' := h c (by rw [hdrop]; rfl)
    simp [decimal?, hdrop, hc]

theorem decimal?_eq_some_iff {numeral : Numeral} :
    decimal? cs = some numeral ↔ ∃ n e, IsDecimal cs n e ∧ numeral = .decimal n e := by
  have htake {cs : List Char} : ∀ c ∈ cs.takeWhile Char.isDigit, c.isDigit :=
    fun c hc => List.mem_takeWhile_imp hc
  constructor
  · intro h
    -- The digits in front are put back before what follows them, with the point or without.
    by_cases hpoint : ∃ r, cs.dropWhile Char.isDigit = '.' :: r
    · obtain ⟨r, hr⟩ := hpoint
      rw [decimal?_of_point hr] at h
      split at h
      · contradiction
      · next hne =>
        obtain ⟨e, hexponent, rfl⟩ := Option.map_eq_some_iff.1 h
        have hdecimal := IsDecimal.pointed (Decidable.not_and_iff_or_not.1 hne) htake htake
          (exponent?_eq_some_iff.1 hexponent)
        rw [List.takeWhile_append_dropWhile, ← hr, List.takeWhile_append_dropWhile] at hdecimal
        exact ⟨_, _, hdecimal, rfl⟩
    · have hhead : ∀ c ∈ (cs.dropWhile Char.isDigit).head?, c ≠ '.' := by
        rintro c hc rfl
        exact hpoint (List.head?_eq_some_iff.1 hc)
      rw [decimal?_of_no_point hhead] at h
      split at h
      · contradiction
      · next hne =>
        obtain ⟨e, hexponent, rfl⟩ := Option.map_eq_some_iff.1 h
        have hdecimal := IsDecimal.whole hne htake (exponent?_eq_some_iff.1 hexponent)
        rw [List.takeWhile_append_dropWhile] at hdecimal
        exact ⟨_, _, hdecimal, rfl⟩
  · rintro ⟨n, e, h, rfl⟩
    cases h with
    | whole hne hwhole hexponent =>
      obtain ⟨htake, hdrop⟩ := hexponent.takeWhile hwhole
      rw [decimal?_of_no_point (by rw [hdrop]; exact fun c hc => (hexponent.head c hc).2), htake,
        hdrop, if_neg hne, exponent?_eq_some_iff.2 hexponent]
      rfl
    | @pointed whole fraction exponent e hne hwhole hfraction hexponent =>
      have hpoint : ∀ c ∈ ('.' :: (fraction ++ exponent)).head?, c.isDigit = false := by simp
      obtain ⟨htake, hdrop⟩ := Text.span_append hwhole hpoint
      obtain ⟨htake', hdrop'⟩ := hexponent.takeWhile hfraction
      rw [decimal?_of_point hdrop, htake, htake', hdrop', if_neg (not_and_or.2 hne),
        exponent?_eq_some_iff.2 hexponent]
      rfl

/-- A decimal begins with a digit or a point. -/
theorem IsDecimal.head (h : IsDecimal cs n e) :
    ∃ c rest, cs = c :: rest ∧ (c.isDigit ∨ c = '.') := by
  cases h with
  | whole hne hwhole hexponent =>
    obtain ⟨c, rest, rfl⟩ := List.exists_cons_of_ne_nil hne
    exact ⟨c, _, rfl, .inl (hwhole c List.mem_cons_self)⟩
  | @pointed whole fraction exponent e hne hwhole =>
    cases whole with
    | nil => exact ⟨'.', _, rfl, .inr rfl⟩
    | cons c rest => exact ⟨c, _, rfl, .inl (hwhole c List.mem_cons_self)⟩

theorem ofChars?_eq (cs : List Char) :
    ofChars? cs =
      if cs.map Char.toLower = "inf".toList ∨ cs.map Char.toLower = "infinity".toList then
        some .infinite
      else if cs.map Char.toLower = "nan".toList then some .notANumber
      else decimal? cs := by
  have hname (name : String) :
      cs.map Char.toLower = name.toList ↔ String.ofList (cs.map Char.toLower) = name :=
    ⟨fun h => by rw [h, String.ofList_toList], fun h => by rw [← h, String.toList_ofList]⟩
  simp only [hname]
  unfold ofChars?
  split
  · next h => rw [if_pos (.inl h)]
  · next h => rw [if_pos (.inr h)]
  · next h => rw [if_neg (by rw [h]; decide), if_pos h]
  · next hinf hinfinity hnan => rw [if_neg (not_or.2 ⟨hinf, hinfinity⟩), if_neg hnan]

theorem IsDecimal.ne_name (h : IsDecimal cs n e) {name : List Char} {d : Char}
    (hname : name.head? = some d) (hd : d.isDigit = false ∧ d ≠ '.') :
    cs.map Char.toLower ≠ name := by
  obtain ⟨c, rest, rfl, hc⟩ := h.head
  rintro rfl
  obtain rfl : c.toLower = d := Option.some.inj hname
  rcases hc with hc | rfl
  · rw [toLower_of_isDigit hc, hc] at hd
    exact Bool.noConfusion hd.1
  · exact hd.2 rfl

theorem ofChars?_eq_some_iff {numeral : Numeral} :
    ofChars? cs = some numeral ↔ Spells cs numeral := by
  rw [ofChars?_eq]
  constructor
  · intro h
    split at h
    · next hname => exact Option.some.inj h ▸ .infinite hname
    · split at h
      · next hname => exact Option.some.inj h ▸ .notANumber hname
      · obtain ⟨n, e, hdecimal, rfl⟩ := decimal?_eq_some_iff.1 h
        exact .decimal hdecimal
  · intro h
    cases h with
    | infinite hname => rw [if_pos hname]
    | notANumber hname => rw [if_neg (by simp [hname]), if_pos hname]
    | decimal hdecimal =>
      -- The names are tried first, but a decimal begins with a digit or a point.
      have hinf : cs.map Char.toLower ≠ "inf".toList := hdecimal.ne_name rfl (by decide)
      have hinfinity : cs.map Char.toLower ≠ "infinity".toList := hdecimal.ne_name rfl (by decide)
      have hnan : cs.map Char.toLower ≠ "nan".toList := hdecimal.ne_name rfl (by decide)
      rw [if_neg (not_or.2 ⟨hinf, hinfinity⟩), if_neg hnan, decimal?_eq_some_iff]
      exact ⟨_, _, hdecimal, rfl⟩

theorem ne_sign_of_name {name : List Char} {d : Char} (hname : name.head? = some d)
    (hd : d ≠ '-' ∧ d ≠ '+') (h : cs.map Char.toLower = name) :
    ∀ c ∈ cs.head?, c ≠ '-' ∧ c ≠ '+' := by
  intro c hc
  have hlower : c.toLower = d := by
    rw [← h, List.head?_map, hc] at hname
    exact Option.some.inj hname
  constructor
  · rintro rfl
    exact hd.1 hlower.symm
  · rintro rfl
    exact hd.2 hlower.symm

/-- A numeral has no sign of its own. -/
theorem Spells.ne_sign {numeral : Numeral} (h : Spells cs numeral) :
    ∀ c ∈ cs.head?, c ≠ '-' ∧ c ≠ '+' := by
  cases h with
  | infinite hname =>
    rcases hname with hname | hname
    · exact ne_sign_of_name (d := 'i') (by decide) (by decide) hname
    · exact ne_sign_of_name (d := 'i') (by decide) (by decide) hname
  | notANumber hname => exact ne_sign_of_name (d := 'n') (by decide) (by decide) hname
  | decimal hdecimal =>
    obtain ⟨d, rest, rfl, hd⟩ := hdecimal.head
    rintro c hc
    obtain rfl : d = c := Option.some.inj hc
    rcases hd with hd | rfl
    · exact ⟨isDigit_ne hd rfl, isDigit_ne hd rfl⟩
    · decide

theorem signed_iff {numeral : Numeral} : Signed cs negative numeral ↔
    (splitSign cs).1 = negative ∧ ofChars? (splitSign cs).2 = some numeral := by
  rw [ofChars?_eq_some_iff]
  constructor
  · rintro ⟨hsign, hbody⟩
    rw [splitSign_append hsign hbody.ne_sign]
    exact ⟨rfl, hbody⟩
  · rintro ⟨rfl, hbody⟩
    obtain ⟨sign, hsign, hcs⟩ := exists_sign cs
    have hsigned := Signed.mk hsign hbody
    rwa [← hcs] at hsigned

end Numeral

/-- The texts of numerals. -/
def IsNumeral (text : String) : Prop :=
  ∃ negative numeral, Numeral.Signed text.toList negative numeral

namespace Binary

variable {F : Format} {text : String}

theorem ofText_eq (text : String) :
    ofText (F := F) text = match Numeral.ofChars? (Numeral.splitSign text.toList).2 with
      | some numeral => .ok (ofNumeral (Numeral.splitSign text.toList).1 numeral)
      | none => .error (if text = "" then .empty else .malformed) := by
  by_cases hempty : text = ""
  · subst hempty
    rfl
  · simp only [if_neg hempty]
    exact if_neg (mt String.isEmpty_iff.1 hempty)

/-- Reading accepts the numerals, and takes each for what it spells. -/
theorem ofText_eq_ok_iff {x : Binary F} : ofText text = .ok x ↔
    ∃ negative numeral, Numeral.Signed text.toList negative numeral ∧
      x = ofNumeral negative numeral := by
  rw [ofText_eq]
  simp only [Numeral.signed_iff]
  cases Numeral.ofChars? (Numeral.splitSign text.toList).2 with
  | none => simp
  | some numeral => simp [eq_comm]

/-- Reading tells a missing text from one that is no numeral. -/
theorem ofText_eq_error_iff {cause : NumeralError} : ofText (F := F) text = .error cause ↔
    ¬IsNumeral text ∧ cause = if text = "" then .empty else .malformed := by
  rw [ofText_eq]
  simp only [IsNumeral, Numeral.signed_iff]
  cases Numeral.ofChars? (Numeral.splitSign text.toList).2 with
  | none => simp [eq_comm]
  | some numeral => simp

end Binary

end Planimeter
