import Planimeter.Text.Digit
/-!
# Digits and the numbers that they write

What is read as a number is digits, and the digits of a number in a base are read as that number.
-/
namespace Planimeter.Text

variable {base n : Nat}

theorem digits_of_natural? {cs : List Char} (h : natural? base cs = some n) :
    cs ≠ [] ∧ ∀ c ∈ cs, (digit? base c).isSome := by
  suffices hall : ∀ (cs : List Char) (m n : Nat),
      cs.foldlM (fun n c => (digit? base c).map (base * n + ·)) m = some n →
        ∀ c ∈ cs, (digit? base c).isSome by
    unfold natural? at h
    split at h
    · contradiction
    · next hcs => exact ⟨by simpa using hcs, hall cs 0 n h⟩
  intro cs
  induction cs with
  | nil => simp
  | cons c cs ih =>
    intro m n h
    rw [List.foldlM_cons] at h
    obtain ⟨m', hm', hn⟩ := Option.bind_eq_some_iff.1 h
    obtain ⟨d, hd, -⟩ := Option.map_eq_some_iff.1 hm'
    exact List.forall_mem_cons.2 ⟨by simp [hd], ih m' n hn⟩

theorem isDigit_of_digit? {c : Char} (h : (digit? 10 c).isSome) : c.isDigit := by
  unfold digit? hexDigit? at h
  split at h
  · assumption
  · split at h
    · simp only [Option.filter_some, decide_eq_true_eq, Option.isSome_ite] at h
      omega
    · split at h
      · simp only [Option.filter_some, decide_eq_true_eq, Option.isSome_ite] at h
        omega
      · contradiction

theorem hexDigit?_digitChar : ∀ d < 16, hexDigit? (Nat.digitChar d) = some d := by decide

theorem digit?_digitChar {d : Nat} (hbase : base ≤ 16) (h : d < base) :
    digit? base (Nat.digitChar d) = some d := by
  rw [digit?, hexDigit?_digitChar d (by omega), Option.filter_some, if_pos (by simpa using h)]

/-- The digits of a number are read as the number. The induction drops the last digit. -/
@[simp] theorem natural?_toDigits (hone : 1 < base) (hbase : base ≤ 16) (n : Nat) :
    natural? base (Nat.toDigits base n) = some n := by
  have hfold : (Nat.toDigits base n).foldlM
      (fun n c => (digit? base c).map (base * n + ·)) 0 = some n := by
    induction n using Nat.strongRecOn with
    | ind n ih =>
      rw [Nat.toDigits_eq_if hone]
      split
      · next hlt => simp [digit?_digitChar hbase hlt]
      · next hge =>
        have hpos : 0 < n := by omega
        have hlast : n % base < base := Nat.mod_lt n (by omega)
        rw [List.foldlM_append, ih (n / base) (Nat.div_lt_self hpos hone)]
        simp [digit?_digitChar hbase hlast, Nat.div_add_mod]
  rw [natural?, if_neg (by simp [Nat.toDigits_ne_nil]), hfold]

theorem digit?_of_mem_toDigits (hone : 1 < base) (hbase : base ≤ 16) {c : Char}
    (h : c ∈ Nat.toDigits base n) : (digit? base c).isSome :=
  (digits_of_natural? (natural?_toDigits hone hbase n)).2 c h

end Planimeter.Text
