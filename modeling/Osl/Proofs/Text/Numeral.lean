import Mathlib.Algebra.Group.Nat.Defs
import Osl.Text.Numeral

/-!
# Reading numbers back

The digits of a number spell it in every base up to sixteen (`value_digits_base`), zeros in front do
not matter (`value_padLeft`), and only zero starts with a zero. So the digits of a number are its
decimal text (`isDecimal_digits`).
-/

namespace Osl.Numeral
set_option autoImplicit false

variable {n : Nat} {c : Char}

theorem isDigit_of_mem_digits (h : c ∈ digits 10 n) : c.isDigit = true :=
  Nat.isDigit_of_mem_toDigits (by decide) (by decide) h

/-- The digits of a number in a base are digits below the base. -/
theorem exists_of_mem_digits {base : Nat} (big : 1 < base) (h : c ∈ digits base n) :
    ∃ d < base, c = d.digitChar := by
  unfold digits at h
  induction n using Nat.strongRecOn with
  | ind n ih =>
    by_cases small : n < base
    · rw [Nat.toDigits_of_lt_base small, List.mem_singleton] at h
      exact ⟨n, small, h⟩
    · rw [Nat.toDigits_of_base_le big (by omega), List.mem_append, List.mem_singleton] at h
      rcases h with high | rfl
      · exact ih (n / base) (Nat.div_lt_self (by omega) big) high
      · exact ⟨_, Nat.mod_lt _ (by omega), rfl⟩

theorem digitValue?_digitChar {d : Nat} (h : d < 16) : digitValue? d.digitChar = some d := by
  have each : ∀ d < 16, digitValue? d.digitChar = some d := by decide
  exact each d h

/-- The digits of a number spell it, whatever the base. -/
theorem value_digits_base {base : Nat} (big : 1 < base) (readable : base ≤ 16) (n : Nat) :
    value base (digits base n) = n := by
  unfold digits
  induction n using Nat.strongRecOn with
  | ind n ih =>
    by_cases small : n < base
    · rw [Nat.toDigits_of_lt_base small]
      simp [value, digitValue?_digitChar (Nat.lt_of_lt_of_le small readable)]
    · have high := ih (n / base) (Nat.div_lt_self (by omega) big)
      have low : n % base < 16 := Nat.lt_of_lt_of_le (Nat.mod_lt _ (by omega)) readable
      unfold value at high ⊢
      rw [Nat.toDigits_of_base_le big (by omega), List.foldl_append, high]
      simp [digitValue?_digitChar low, Nat.mul_comm, Nat.div_add_mod]

/-- The digits of a number spell it. -/
theorem value_digits (n : Nat) : value 10 (digits 10 n) = n :=
  value_digits_base (by decide) (by decide) n

/-- Zeros in front of digits do not matter. -/
theorem value_padLeft (base width : Nat) (cs : List Char) :
    value base (padLeft width '0' cs) = value base cs := by
  have zeros (k : Nat) : value base (List.replicate k '0') = 0 := by
    induction k with
    | zero => rfl
    | succ k ih =>
      unfold value at ih ⊢
      rw [List.replicate_succ', List.foldl_append, ih]
      simp [digitValue?]
  have front := zeros (width - cs.length)
  unfold value at front ⊢
  rw [padLeft, List.foldl_append, front]

/-- No other number than zero starts with a zero. -/
theorem head?_digits_ne (pos : 0 < n) : (digits 10 n).head? ≠ some '0' := by
  induction n using Nat.strongRecOn with
  | ind n ih =>
    unfold digits at *
    by_cases small : n < 10
    · rw [Nat.toDigits_of_lt_base small]
      match n, small, pos with
      | 1, _, _ | 2, _, _ | 3, _, _ | 4, _, _ | 5, _, _ | 6, _, _ | 7, _, _ | 8, _, _ | 9, _, _ => decide
    · have shorter := ih (n / 10) (by omega) (by omega)
      obtain ⟨c, cs, split⟩ :=
        List.exists_cons_of_ne_nil (Nat.toDigits_ne_nil : Nat.toDigits 10 (n / 10) ≠ [])
      rw [Nat.toDigits_of_base_le (by decide) (by omega), split]
      rwa [split] at shorter

/-- A number without leading zeros. -/
theorem exists_digits_eq_cons (n : Nat) :
    ∃ c cs, digits 10 n = c :: cs ∧ (c = '0' → cs = []) := by
  by_cases zero : n = 0
  · subst zero
    exact ⟨'0', [], Nat.toDigits_zero 10, fun _ => rfl⟩
  · obtain ⟨c, cs, split⟩ := List.exists_cons_of_ne_nil (Nat.toDigits_ne_nil : Nat.toDigits 10 n ≠ [])
    have head := head?_digits_ne (Nat.pos_of_ne_zero zero)
    rw [digits, split] at head
    exact ⟨c, cs, split, fun same => absurd (congrArg some same) head⟩

/-- The text is the decimal text of the number: digits that spell it, none of them a leading zero. -/
structure IsDecimal (text : List Char) (n : Nat) : Prop where
  digits : ∀ c ∈ text, c.isDigit = true
  spells : value 10 text = n
  plain : ∃ c cs, text = c :: cs ∧ (c = '0' → cs = [])

theorem isDecimal_digits (n : Nat) : IsDecimal (digits 10 n) n :=
  ⟨fun _ => isDigit_of_mem_digits, value_digits n, exists_digits_eq_cons n⟩

/-- How many digits a number is written with. -/
theorem length_decimalBytes_le_iff {k : Nat} (pos : 0 < k) :
    (decimalBytes n).length ≤ k ↔ n < 10 ^ k := by
  rw [decimalBytes, List.length_map]
  exact Nat.length_toDigits_le_iff (by decide) pos

/-- No digit is written as a zero byte. -/
theorem ne_zero_of_mem_decimalBytes {b : Byte} (h : b ∈ decimalBytes n) : b ≠ 0 := by
  have each : ∀ d < 10, d.digitChar.toUInt8 ≠ 0 := by decide
  obtain ⟨c, member, rfl⟩ := List.mem_map.1 h
  obtain ⟨d, small, rfl⟩ := exists_of_mem_digits (by decide) member
  exact each d small

end Osl.Numeral
