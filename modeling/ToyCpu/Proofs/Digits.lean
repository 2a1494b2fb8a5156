import ToyCpu.Decimal.Numeral
import ToyCpu.Decimal.Shortest

/-!
# Digits of natural numbers

What decimal digits spell, and the digits that a natural number is written with.

* `decimalNatural_append`, `decimalNatural_lt` — the number that digits spell.
* `pow_le_decimalNatural`, `not_dvd_decimalNatural` — what a first or last digit other than 0 says
  of it.
* `decimalNatural_toDigits` — the digits of a number spell it.
* `head?_toDigits` — and do not begin with 0, unless the number is 0.
* `pow_digitCount_le`, `lt_pow_digitCount`, `pointPlace_spec` — how many digits there are before
  the point.
-/

namespace ToyCpu

/-! ### The number that digits spell -/

/-- Digits in front are shifted by as many places as there are digits behind them. -/
theorem decimalNatural_append (xs ys : List Char) :
    decimalNatural (xs ++ ys) = decimalNatural xs * 10 ^ ys.length + decimalNatural ys := by
  show Nat.ofDigitChars 10 (xs ++ ys) 0 = _
  rw [Nat.ofDigitChars_append, Nat.ofDigitChars_eq_ofDigitChars_zero, Nat.mul_comm]
  rfl

@[simp] theorem decimalNatural_nil : decimalNatural [] = 0 := rfl

theorem decimalNatural_replicate_zero (n : Nat) : decimalNatural (List.replicate n '0') = 0 := by
  show Nat.ofDigitChars 10 (List.replicate n '0') 0 = 0
  rw [Nat.ofDigitChars_replicate_zero, Nat.mul_zero]

/-- Zeros at the front do not count. -/
theorem decimalNatural_zeros_append (n : Nat) (ds : List Char) :
    decimalNatural (List.replicate n '0' ++ ds) = decimalNatural ds := by
  rw [decimalNatural_append, decimalNatural_replicate_zero, Nat.zero_mul, Nat.zero_add]

/-- Every zero at the end is a factor of ten. -/
theorem decimalNatural_append_zeros (ds : List Char) (n : Nat) :
    decimalNatural (ds ++ List.replicate n '0') = decimalNatural ds * 10 ^ n := by
  rw [decimalNatural_append, decimalNatural_replicate_zero, Nat.add_zero, List.length_replicate]

/-- A digit stands for nine at most. -/
theorem digit_le_nine {c : Char} (h : c.isDigit = true) : c.toNat - '0'.toNat ≤ 9 := by
  obtain ⟨-, hle⟩ := Char.isDigit_iff_toNat.mp h
  show c.toNat - 48 ≤ 9
  change c.toNat ≤ 57 at hle
  omega

/-- Digits spell a number below the power of ten that their count says. -/
theorem decimalNatural_lt {ds : List Char} (h : ∀ c ∈ ds, c.isDigit = true) :
    decimalNatural ds < 10 ^ ds.length := by
  induction ds with
  | nil => exact Nat.one_pos
  | cons c ds ih =>
    have hrest := ih fun d hd => h d (List.mem_cons_of_mem c hd)
    have hdigit := digit_le_nine (h c List.mem_cons_self)
    have hfirst : decimalNatural [c] ≤ 9 := by
      show 10 * 0 + _ ≤ 9
      omega
    -- at most nine of that power for the first digit, and less than one for all others
    have hmul := Nat.mul_le_mul_right (10 ^ ds.length) hfirst
    rw [← List.singleton_append, decimalNatural_append, List.length_append, List.length_singleton,
      Nat.pow_add]
    omega

theorem digit_pos {c : Char} (h : c.isDigit = true) (hc : c ≠ '0') : 0 < c.toNat - '0'.toNat := by
  obtain ⟨hle, -⟩ := Char.isDigit_iff_toNat.mp h
  have hne : c.toNat ≠ '0'.toNat := fun heq => hc (Char.toNat_inj.mp heq)
  omega

/-- Digits that do not begin with 0 spell a number that needs them all. -/
theorem pow_le_decimalNatural {c : Char} {ds : List Char} (h : c.isDigit = true) (hc : c ≠ '0') :
    10 ^ ds.length ≤ decimalNatural (c :: ds) := by
  have hdigit := digit_pos h hc
  have hfirst : 1 ≤ decimalNatural [c] := by
    show 1 ≤ 10 * 0 + _
    omega
  rw [← List.singleton_append, decimalNatural_append]
  exact Nat.le_trans (Nat.le_mul_of_pos_left _ hfirst) (Nat.le_add_right _ _)

/-- Digits that do not end with 0 spell no multiple of ten. -/
theorem not_dvd_decimalNatural {c : Char} {ds : List Char} (h : c.isDigit = true) (hc : c ≠ '0') :
    ¬ 10 ∣ decimalNatural (ds ++ [c]) := by
  have hpos := digit_pos h hc
  have hle := digit_le_nine h
  have hlast : decimalNatural [c] = c.toNat - '0'.toNat := by
    show 10 * 0 + _ = _
    omega
  rw [decimalNatural_append, hlast, List.length_singleton]
  omega

/-! ### The digits of a number -/

theorem isDigit_of_mem_digits {n : Nat} {c : Char} (h : c ∈ Nat.toDigits 10 n) :
    c.isDigit = true :=
  Nat.isDigit_of_mem_toDigits (by decide) (by decide) h

/-- The digits of a number spell it. -/
@[simp] theorem decimalNatural_toDigits (n : Nat) : decimalNatural (Nat.toDigits 10 n) = n :=
  Nat.ofDigitChars_ten_toDigits

/-- The digits of a positive number do not begin with 0. -/
theorem head?_toDigits {n : Nat} (h : 0 < n) : (Nat.toDigits 10 n).head? ≠ some '0' := by
  -- the first digit of a number is that of its tenth, down to a number of one digit
  induction n using Nat.strongRecOn with
  | ind n ih =>
    rcases Nat.lt_or_ge n 10 with hlt | hge
    · rw [Nat.toDigits_of_lt_base hlt]
      intro hzero
      have hspelled := decimalNatural_toDigits n
      rw [Nat.toDigits_of_lt_base hlt, Option.some.inj hzero] at hspelled
      exact absurd hspelled (Nat.ne_of_lt h)
    · have hdiv : n / 10 < n := by omega
      have hleading := ih (n / 10) hdiv (by omega)
      obtain ⟨c, ds, hds⟩ :=
        List.exists_cons_of_ne_nil (Nat.toDigits_ne_nil (n := n / 10) (b := 10))
      rw [Nat.toDigits_of_base_le (by decide) hge, hds]
      rwa [hds] at hleading

/-! ### The count of digits -/

namespace Decimal

open Binary64

/-- There is a digit at least, even for zero. -/
theorem digitCount_pos (n : Nat) : 0 < digitCount n := by
  rw [digitCount]
  split <;> exact Nat.succ_pos _

/-- The digits of a number are not more than it needs. -/
theorem pow_digitCount_le {n : Nat} (h : 0 < n) : 10 ^ (digitCount n - 1) ≤ n := by
  induction n using digitCount.induct with
  | case1 n hlt =>
    rw [digitCount, if_pos hlt]
    exact h
  | case2 n hge ih =>
    have hle := ih (by omega)
    -- a tenth has one digit less, and it still has one
    obtain ⟨k, hk⟩ := Nat.exists_eq_succ_of_ne_zero (Nat.ne_of_gt (digitCount_pos (n / 10)))
    rw [digitCount, if_neg hge, Nat.add_sub_cancel]
    rw [hk, Nat.succ_sub_one] at hle
    rw [hk, Nat.pow_succ]
    omega

/-- And as many as it needs. -/
theorem lt_pow_digitCount (n : Nat) : n < 10 ^ digitCount n := by
  induction n using digitCount.induct with
  | case1 n hlt =>
    rw [digitCount, if_pos hlt]
    exact hlt
  | case2 n hge ih =>
    rw [digitCount, if_neg hge, Nat.pow_succ]
    omega

/-- The least float is not below the power of ten that the place of the point is found with. -/
theorem two_pow_le_ten_pow_place : 2 ^ 1074 ≤ 10 ^ 330 := by
  -- compared by their fifth roots, which are small enough to be computed
  have hfifth : (2 ^ 215) ^ 5 ≤ (10 ^ 66) ^ 5 := Nat.pow_le_pow_left (by decide) 5
  simp only [← Nat.pow_mul, Nat.reduceMul] at hfifth
  calc 2 ^ 1074 ≤ 2 ^ 1075 := Nat.pow_le_pow_right (by decide) (by decide)
    _ ≤ 10 ^ 330 := hfifth

/-- A magnitude is not below the place before its point. -/
theorem pointPlace_spec {w : Nat} (h : 0 < significand w) :
    ∃ k : Nat, pointPlace w - 1 = (k : Int) - 330 ∧
      10 ^ k * 2 ^ 1074 ≤ significand w * 2 ^ scale w * 10 ^ 330 := by
  have htwo : 0 < 2 ^ 1074 := Nat.two_pow_pos 1074
  have hvalue : 0 < significand w * 2 ^ scale w := Nat.mul_pos h (Nat.two_pow_pos _)
  have hscaled : 0 < significand w * 2 ^ scale w * 10 ^ 330 / 2 ^ 1074 :=
    Nat.div_pos (Nat.le_trans two_pow_le_ten_pow_place (Nat.le_mul_of_pos_left _ hvalue)) htwo
  -- the place is found on a whole number: the magnitude, scaled so that even the least float counts
  have hle := (Nat.le_div_iff_mul_le htwo).mp (pow_digitCount_le hscaled)
  refine ⟨digitCount (significand w * 2 ^ scale w * 10 ^ 330 / 2 ^ 1074) - 1, ?_, hle⟩
  have hcount := digitCount_pos (significand w * 2 ^ scale w * 10 ^ 330 / 2 ^ 1074)
  have hplace : pointPlace w
      = (digitCount (significand w * 2 ^ scale w * 10 ^ 330 / 2 ^ 1074) : Int) - 330 := rfl
  rw [hplace, Int.natCast_sub hcount, Int.sub_sub, Int.sub_sub]
  rfl

end Decimal

end ToyCpu
